import Kierki.Server.Delivery
import Kierki.Server.Tricks
import Kierki.Server.Wire

/-!
# Deals

The `DEAL` of a round is built in two places: from `hands` when the round begins, and from `lastDeal`
when a player comes back.  `lastDeal` is the deal of the present round (`DealKept`), so that the cards
and the mode agree.  The side is taken from `nextMove` in both places; that is the starting side of the
round at its beginning only.
-/

namespace Kierki

open TrickGame Execution

/-- What an accepted card does to the reference game `S`, with the messages it announces to side `s`
and the game `g` of the server behind it. -/
inductive Outcome (S : CardGame) (side : Side) (card : Card) (s : Side) (g : Game) :
    CardGame → List SendJob → Prop
  | inTrick (hshort : (S.put side card).plays.length < 4) :
      Outcome S side card s g (S.put side card) (Server.promptFor g s)
  | trickDone (t : Trick Side Card) (hfull : (S.put side card).plays.length = 4)
      (hmore : S.done.length + 1 < TRICKS_PER_ROUND)
      (ht : ((S.put side card).collect kierki).done = S.done ++ [t]) :
      Outcome S side card s g ((S.put side card).collect kierki)
        (takenMsg t :: Server.promptFor g s)
  | roundDone (t : Trick Side Card) (r : Round) (S' : CardGame) (l l' : List (Side × Nat))
      (hfull : (S.put side card).plays.length = 4)
      (hlast : S.done.length + 1 = TRICKS_PER_ROUND)
      (ht : ((S.put side card).collect kierki).done = S.done ++ [t])
      (hS' : S' = { State.start r.toDeal with past := S.past ++ [⟨S.deal, S.done ++ [t]⟩] }) :
      Outcome S side card s g S' (takenMsg t :: .score l :: .total l' ::
        .deal r.mode r.starting (r.deal s) :: Server.promptFor g s)
  | gameDone (t : Trick Side Card) (S' : CardGame) (l l' : List (Side × Nat))
      (hfull : (S.put side card).plays.length = 4)
      (hlast : S.done.length + 1 = TRICKS_PER_ROUND)
      (ht : ((S.put side card).collect kierki).done = S.done ++ [t])
      (hS' : S' = { (S.put side card).collect kierki with
        past := S.past ++ [⟨S.deal, S.done ++ [t]⟩], closed := true }) :
      Outcome S side card s g S' [takenMsg t, .score l, .total l']

section Mirror

variable {scenario : GameScenario} {σ σ' : Server} {S S' : CardGame} {side : Side} {card : Card}

/-- The announcements of an accepted card are those of the move of the reference game. -/
theorem Mirrors.outcome (h : Mirrors scenario σ S)
    (hplay : S.play kierki (deals scenario) (side, card) = some S') {s : Side} {msgs : List SendJob}
    (hmsgs : Server.Announces σ side card s σ' msgs) :
    Outcome S side card s σ'.game S' msgs ∧
      (σ'.lastDeal = some S'.deal.hands ∨ σ'.lastDeal = σ.lastDeal ∧ S'.deal = S.deal) := by
  have hput : Matches (σ.game.putCard side card) (S.put side card) := h.game.putCard side card
  have hlegal : S.Legal kierki side card := (State.play_eq_some hplay).1
  obtain ⟨hlen, hmost⟩ := h.table_length side card
  have hno := h.takeTrick_trickNo side card
  have hbefore : S.done.length < 13 := h.unfinished hlegal.1
  have hthirteen : TRICKS_PER_ROUND = 13 := rfl
  have hcases := kierki_play hplay
  -- the server and the reference game count the same cards, so only one of the cases fits each announcement
  cases hmsgs with
  | inTrick hne hgame hdeal =>
      rcases hcases with ⟨hshort, rfl⟩ | ⟨hfull, -⟩ | ⟨hfull, -⟩
      · exact ⟨.inTrick hshort, .inr ⟨hdeal, rfl⟩⟩
      · omega
      · omega
  | trickDone hfull hgame hnext hdeal =>
      rw [hgame, hno] at hnext
      rw [h.msgTaken hlegal hfull]
      rcases hcases with ⟨hshort, -⟩ | ⟨-, hmore, rfl⟩ | ⟨-, hend, -⟩
      · omega
      · exact ⟨.trickDone _ (hlen ▸ hfull) hmore rfl, .inr ⟨hdeal, rfl⟩⟩
      · omega
  | roundDone g r hfull hnext hg hr hgame hdeal =>
      subst hg
      rw [hno] at hnext
      have htrick := hput.takeTrick hfull hlegal.1 (h.sound.put_order hlegal)
      have hround : (σ.game.putCard side card).takeTrick.updatePenalties.leaveRound.roundNumber =
          S.past.length + 1 := htrick.leaveRound.roundNumber
      rw [h.scenario_eq, hround] at hr
      have hdeals : (deals scenario)[S.past.length + 1]? = some r.toDeal :=
        deals_getElem?_eq_some.mpr ⟨r, hr, rfl⟩
      rw [h.msgTaken hlegal hfull, hgame]
      rcases hcases with ⟨hshort, -⟩ | ⟨-, hmore, -⟩ | ⟨-, -, rfl⟩
      · omega
      · omega
      · have hclose := State.close_next (S := (S.put side card).collect kierki) hdeals
        refine ⟨.roundDone _ r _ _ _ (hlen ▸ hfull) (by omega) rfl hclose, .inl ?_⟩
        rw [hdeal, hclose]
        rfl
  | gameDone g hfull hnext hg hlast hgame hdeal =>
      subst hg
      rw [hno] at hnext
      have htrick := hput.takeTrick hfull hlegal.1 (h.sound.put_order hlegal)
      have hround : (σ.game.putCard side card).takeTrick.updatePenalties.leaveRound.roundNumber =
          S.past.length + 1 := htrick.leaveRound.roundNumber
      rw [h.scenario_eq, hround] at hlast
      have hdeals : (deals scenario)[S.past.length + 1]? = none := by
        rw [deals, List.getElem?_eq_none]
        simp [hlast]
      rw [h.msgTaken hlegal hfull]
      rcases hcases with ⟨hshort, -⟩ | ⟨-, hmore, -⟩ | ⟨-, -, rfl⟩
      · omega
      · omega
      · have hclose := State.close_last (S := (S.put side card).collect kierki) hdeals
        refine ⟨.gameDone _ _ _ _ (hlen ▸ hfull) (by omega) rfl hclose, .inr ⟨hdeal, ?_⟩⟩
        rw [hclose]
        rfl

/-- While the number of the round is one of the scenario, the reference game plays that round. -/
theorem Mirrors.round (h : Mirrors scenario σ S) {r : Round}
    (hr : scenario[σ.game.roundNumber]? = some r) : S.closed = false ∧ S.deal = r.toDeal := by
  rw [h.game.roundNumber] at hr
  have hdeals : (deals scenario)[S.past.length]? = some r.toDeal :=
    deals_getElem?_eq_some.mpr ⟨r, hr, rfl⟩
  cases hclosed : S.closed with
  | true =>
      obtain ⟨-, -, hnone, -⟩ := h.sound.ended hclosed
      rw [hdeals] at hnone
      cases hnone
  | false => exact ⟨rfl, Option.some.inj ((h.sound.live hclosed).symm.trans hdeals)⟩

/-- `lastDeal` is the deal of the present round, and is only missing before the first card. -/
structure DealKept (σ : Server) (S : CardGame) : Prop where
  kept : ∀ deal, σ.lastDeal = some deal → deal = S.deal.hands
  fresh : σ.lastDeal = none → S = State.start S.deal

theorem DealKept.of_eq {T : Server} (h : DealKept σ S) (hdeal : T.lastDeal = σ.lastDeal) :
    DealKept T S := by
  obtain ⟨hsome, hnone⟩ := h
  rw [← hdeal] at hsome hnone
  exact ⟨hsome, hnone⟩

/-- A call that accepts no card: the first deal is the hands as they are. -/
theorem DealKept.quiet {e : Server.Call} {b : Bool} (h : DealKept σ S) (hmirrors : Mirrors scenario σ S)
    (heff : Server.Effect σ e b σ') (hquiet : σ.accepts e = none) : DealKept σ' S := by
  cases heff with
  | introFirstDeal side ix mgr out _ _ hdeal _ _ _ =>
      refine ⟨?_, by simp⟩
      rintro _ ⟨rfl⟩
      rw [hmirrors.game.hands, h.fresh hdeal]
      rfl
  | trickAccepted n card ix side σ' hpc hside hgood hacc =>
      simp [Server.accepts, hpc, hside, hgood] at hquiet
  | trickProxy n card ix σ' _ _ hfin | exitInternal errs ix hasWork σ' _ hfin
  | exitProxy errs ix hasWork σ' _ _ hfin => exact h.of_eq hfin.rest.1
  | _ => exact h.of_eq rfl

/-- An accepted card. -/
theorem DealKept.move (h : DealKept σ S) (hmirrors : Mirrors scenario σ S)
    (hdealt : Server.Dealt σ) (hpc : 4 ≤ σ.playersConnected)
    (hplay : S.play kierki (deals scenario) (side, card) = some S') {s : Side} {msgs : List SendJob}
    (hmsgs : Server.Announces σ side card s σ' msgs) : DealKept σ' S' := by
  have hsome : σ.lastDeal ≠ none := by
    intro hnone
    have hfew := (hdealt.first hnone).1
    omega
  obtain ⟨-, hdeal | ⟨hdeal, hsame⟩⟩ := hmirrors.outcome hplay hmsgs
  · refine ⟨fun deal hd => ?_, fun hnone => ?_⟩
    · exact (Option.some.inj (hdeal.symm.trans hd)).symm
    · rw [hdeal] at hnone
      cases hnone
  · rw [← hdeal] at hsome
    refine ⟨fun deal hd => ?_, fun hnone => absurd hnone hsome⟩
    rw [hsame]
    exact h.kept deal (hdeal ▸ hd)

end Mirror

/-- A `DEAL` message. -/
def SendJob.isDeal : SendJob → Bool
  | .deal _ _ _ => true
  | _ => false

namespace Server

/-- A deal that is out stays out. -/
theorem Effect.lastDeal_none {σ σ' : Server} {e : Call} {b : Bool} (h : Effect σ e b σ')
    (hnone : σ'.lastDeal = none) : σ.lastDeal = none := by
  cases h with
  | introFirstDeal => cases hnone
  | trickProxy n card ix σ' _ _ hfin | exitInternal errs ix hasWork σ' _ hfin
  | exitProxy errs ix hasWork σ' _ _ hfin => exact hfin.rest.1 ▸ hnone
  | trickAccepted n card ix side σ' hpc hside hgood hacc =>
      cases hacc with
      | roundDone => cases hnone
      | gameDone g₀ g₁ g mgr out σ' _ _ _ _ _ _ _ _ hfin => exact hfin.rest.1 ▸ hnone
      | _ => exact hnone
  | _ => exact hnone

/-- After every run, the reference game and the deal that is kept for players who come back. -/
theorem run_dealKept {scenario : GameScenario} {timeout : Int} {es : List Call} {σ : Server}
    (h : run scenario timeout es = some σ) : ∃ S, Mirrors scenario σ S ∧ DealKept σ S := by
  refine reference_induction (P := fun _ σ S => DealKept σ S) (fun r _ => ?_)
    (fun es σ e b σ' S _ _ hmirrors hP heff hnone => hP.quiet hmirrors heff hnone)
    (fun es σ e b σ' S S' m hrun _ hmirrors hP heff haccept hplay _ => ?_) h
  · exact ⟨by simp [started, new], fun _ => rfl⟩
  · rcases heff.accepts_cases with ⟨hnone, -⟩ |
      ⟨n, card, ix, side, rfl, haccept', hpc, -, -, hacc⟩
    · rw [hnone] at haccept
      cases haccept
    · obtain rfl : m = (side, card) := Option.some.inj (haccept.symm.trans haccept')
      have hbook := seatBook_run hrun
      -- the announcements to any seated worker tell which outcome it is
      obtain ⟨jx, hjx⟩ := hbook.full hpc .N
      exact hP.move hmirrors (run_dealt hrun) hpc hplay (hacc.announces (hbook.side_unique hjx))

/-- The `DEAL` messages that a call enqueues, each with the number of the round and the side it is
for. -/
def dealt (σ : Server) (_ : Call) (σ' : Server) : List (Nat × Side × SendJob) :=
  Side.sides_.flatMap fun s =>
    match σ'.activeSides s with
    | some ix => ((received σ σ' ix).filter SendJob.isDeal).map fun msg =>
        (σ'.game.roundNumber, s, msg)
    | none => []

/-- A `DEAL` is what the scenario says about its round and its side. -/
def RightDeal (scenario : GameScenario) (p : Nat × Side × SendJob) : Prop :=
  ∀ r, scenario[p.1]? = some r → p.2.2 = .deal r.mode r.starting (r.deal p.2.1)

/-- A player takes a free seat in mid-round, while the turn is not with the side that began. -/
def Astray (σ : Server) : Call → Prop
  | .playerIntro side ix => σ.workerMgr.roles.find? ix = some .servingUnknown ∧
      σ.activeSides side = none ∧ σ.lastDeal.isSome ∧
      ∃ r ∈ σ.gameScenario[σ.game.roundNumber]?, σ.game.nextMove ≠ r.starting
  | _ => False

instance (σ : Server) : (e : Call) → Decidable (σ.Astray e)
  | .playerIntro side ix => inferInstanceAs (Decidable (σ.workerMgr.roles.find? ix = some .servingUnknown ∧
      σ.activeSides side = none ∧ σ.lastDeal.isSome ∧
      ∃ r ∈ σ.gameScenario[σ.game.roundNumber]?, σ.game.nextMove ≠ r.starting))
  | .playerTricked _ _ _ | .handleTimeout _ | .handleWrongMessage _ | .grandExitCallback _ _ _ | .execMutexed
  | .forwardConnection | .popNextJob _ | .handlePipe _ | .waitForClearing => inferInstanceAs (Decidable False)

theorem mem_dealt {σ σ' : Server} {e : Call} {p : Nat × Side × SendJob} :
    p ∈ dealt σ e σ' ↔ ∃ ix, σ'.activeSides p.2.1 = some ix ∧ p.2.2 ∈ received σ σ' ix ∧
      p.2.2.isDeal = true ∧ p.1 = σ'.game.roundNumber := by
  unfold dealt
  rw [List.mem_flatMap]
  constructor
  · rintro ⟨s, -, hp⟩
    split at hp
    case h_1 ix hix =>
        obtain ⟨msg, hmsg, rfl⟩ := List.mem_map.mp hp
        obtain ⟨hmem, hdeal⟩ := List.mem_filter.mp hmsg
        exact ⟨ix, hix, hmem, hdeal, rfl⟩
    case h_2 => cases hp
  · rintro ⟨ix, hix, hmem, hdeal, hround⟩
    refine ⟨p.2.1, Side.mem_sides_ _, ?_⟩
    rw [hix]
    refine List.mem_map.mpr ⟨p.2.2, List.mem_filter.mpr ⟨hmem, hdeal⟩, ?_⟩
    rw [← hround]

theorem promptFor_isDeal (g : Game) (s : Side) : ∀ msg ∈ promptFor g s, msg.isDeal = false := by
  intro msg hmsg
  obtain ⟨-, rfl⟩ := mem_promptFor.mp hmsg
  rfl

/-- The deals that a seated worker receives are right, unless it comes back while the turn is
elsewhere. -/
theorem Delivers.rightDeal {scenario : GameScenario} {σ σ' : Server} {S : CardGame} {s : Side}
    {ix : Nat} {e : Call} {msgs : List SendJob} (h : Delivers σ s ix e σ' msgs)
    (hmirrors : Mirrors scenario σ S) (hkept : DealKept σ S) (hguard : ¬ σ.Astray e) :
    ∀ msg ∈ msgs, msg.isDeal = true → RightDeal scenario (σ'.game.roundNumber, s, msg) := by
  -- a deal is printed with the mode of the round and the player to move
  have hprinted : ∀ {r : Round} {cards : Hand}, scenario[σ.game.roundNumber]? = some r →
      σ.game.nextMove = r.starting → cards = S.deal.hands s →
        σ.game.msgDeal cards = .deal r.mode r.starting (r.deal s) := by
    intro r cards hr hturn hcards
    have hdeal := (hmirrors.round hr).2
    rw [Game.msgDeal, hturn, hmirrors.game.roundMode, hcards, hdeal]
    rfl
  intro msg hmsg hisDeal r hr
  cases h with
  | quiet | lobby => cases hmsg
  | firstDeal side jx σ' hrole hfree hpc hgame hold hdeal hmine =>
      rw [hgame] at hr
      rcases List.mem_cons.mp hmsg with rfl | hmem
      · have hfresh := hkept.fresh hold
        have hround := (hmirrors.round hr).2
        refine hprinted hr ?_ ?_
        · rw [hmirrors.game.nextMove, hfresh, hround]
          rfl
        · rw [hmirrors.game.hands, hfresh]
          rfl
      · simp [promptFor_isDeal _ _ msg hmem] at hisDeal
  | rejoin deal σ' hseat hrole hgame hold hdeal =>
      rw [hgame] at hr
      rcases List.mem_cons.mp hmsg with rfl | hmem
      · refine hprinted hr ?_ (by rw [hkept.kept deal hold])
        by_contra hturn
        refine hguard ⟨hrole, hseat, by simp [hold], r, ?_, hturn⟩
        rw [hmirrors.scenario_eq]
        exact hr
      · rcases List.mem_append.mp hmem with htaken | hprompt
        · rw [hmirrors.game.takenInRound] at htaken
          obtain ⟨t, -, rfl⟩ := List.mem_map.mp htaken
          cases hisDeal
        · split at hprompt
          · simp [promptFor_isDeal _ _ msg hprompt] at hisDeal
          · cases hprompt
  | resume side jx deal σ' hne hseat hrole hfree hpc hgame hold hdeal =>
      simp [promptFor_isDeal _ _ msg hmsg] at hisDeal
  | wrong | timeout =>
      obtain rfl := List.mem_singleton.mp hmsg
      cases hisDeal
  | accepted n card jx side σ' msgs hseat hpc hside hgood hacc hmsgs =>
      obtain ⟨S', hplay, hmirrors'⟩ := hmirrors.accepted hgood hacc
      have houtcome := (hmirrors.outcome hplay hmsgs).1
      cases houtcome with
      | inTrick => simp [promptFor_isDeal _ _ msg hmsg] at hisDeal
      | trickDone t =>
          rcases List.mem_cons.mp hmsg with rfl | hmem
          · cases hisDeal
          · simp [promptFor_isDeal _ _ msg hmem] at hisDeal
      | roundDone t r' S' l l' hfull hlast ht hS' =>
          have hround := (hmirrors'.round hr).2
          rw [hS'] at hround
          have hsame : r'.toDeal = r.toDeal := hround
          simp only [List.mem_cons] at hmsg
          rcases hmsg with rfl | rfl | rfl | rfl | hmem
          · cases hisDeal
          · cases hisDeal
          · cases hisDeal
          · have hmode : r'.mode = r.mode := congrArg Deal.mode hsame
            have hstarting : r'.starting = r.starting := congrArg Deal.leader hsame
            have hhands : r'.deal = r.deal := congrArg Deal.hands hsame
            show SendJob.deal r'.mode r'.starting (r'.deal s) = _
            rw [hmode, hstarting, hhands]
          · simp [promptFor_isDeal _ _ msg hmem] at hisDeal
      | gameDone =>
          simp only [List.mem_cons, List.not_mem_nil, or_false] at hmsg
          rcases hmsg with rfl | rfl | rfl <;> cases hisDeal

/-- A player who comes back while the turn is elsewhere is told the wrong starting side. -/
theorem Astray.wrongDeal {scenario : GameScenario} {σ σ' : Server} {S : CardGame} {e : Call} {b : Bool}
    (hguard : σ.Astray e) (hmirrors : Mirrors scenario σ S) (hbook : SeatBook σ)
    (heff : Effect σ e b σ') : ∃ p ∈ dealt σ e σ', ¬ RightDeal scenario p := by
  cases e with
  | playerIntro side ix =>
      obtain ⟨hrole, hfree, hdeal, r, hr, hturn⟩ := hguard
      have hseat' : σ'.activeSides side = some ix := by
        cases heff with
        | introParked _ _ _ hrole' hne | introAgain _ _ _ _ hrole' hne =>
            exact absurd (Option.some.inj (hrole'.symm.trans hrole)) hne
        | introBusy _ _ jx _ _ hjx =>
            rw [hfree] at hjx
            cases hjx
        | _ => simp
      have hdelivers := heff.delivers hbook hseat'
      generalize hmsgs : received σ σ' ix = msgs at hdelivers
      cases hdelivers with
      | quiet _ _ hseat =>
          rw [hfree] at hseat
          cases hseat
      | lobby _ _ _ _ _ hold => simp [hold] at hdeal
      | firstDeal _ _ _ _ _ _ _ hold => simp [hold] at hdeal
      | resume _ _ _ _ hne hseat =>
          rw [hfree] at hseat
          cases hseat
      | rejoin deal σ' hseat _ hgame hold hdeal' =>
          refine ⟨(σ'.game.roundNumber, side, σ.game.msgDeal (deal side)), ?_, fun hright => ?_⟩
          · exact mem_dealt.mpr ⟨ix, hseat', by simp [hmsgs], rfl, rfl⟩
          · rw [hmirrors.scenario_eq] at hr
            have heq := hright r (by rw [hgame]; exact hr)
            exact hturn (SendJob.deal.inj heq).2.1
  | _ => exact hguard.elim

/-- **The deal of a round, again and again.**  In any reachable state, what a call deals is right exactly
if the call does not let a player come back while the turn is away from the starting side, and only
seated workers are dealt to.  In a run without such a call, every `DEAL` that was ever enqueued for a
side carries the mode of its round, the starting side and the cards that the scenario gives the side. -/
theorem rightDeal_iff {scenario : GameScenario} {timeout : Int} {es : List Call} {σ₀ σ : Server}
    (h₀ : start scenario timeout = .ok σ₀) (hes : exec step σ₀ es = some σ) :
    (∀ e σ', σ.step e = some σ' →
      ((∀ p ∈ dealt σ e σ', RightDeal scenario p) ↔ ¬ σ.Astray e) ∧
      ∀ ix msg, (ix, msg) ∈ mailed σ σ' → msg.isDeal = true → ∃ s, σ'.activeSides s = some ix) ∧
    (Guarded step (fun σ e => ¬ σ.Astray e) σ₀ es →
      ∀ p ∈ record step dealt σ₀ es, RightDeal scenario p) := by
  have hright : ∀ {es : List Call} {σ : Server}, exec step σ₀ es = some σ →
      ∀ e σ', σ.step e = some σ' → ¬ σ.Astray e → ∀ p ∈ dealt σ e σ', RightDeal scenario p := by
    intro es σ hes e σ' hstep hguard p hp
    have hrun := run_eq_some.mpr ⟨σ₀, h₀, hes⟩
    obtain ⟨S, hmirrors, hkept⟩ := run_dealKept hrun
    obtain ⟨b, heff⟩ := step_effect hstep
    obtain ⟨ix, hix, hmem, hdeal, hround⟩ := mem_dealt.mp hp
    have h := (heff.delivers (seatBook_run hrun) hix).rightDeal hmirrors hkept hguard _ hmem hdeal
    rwa [← hround] at h
  constructor
  · intro e σ' hstep
    have hrun := run_eq_some.mpr ⟨σ₀, h₀, hes⟩
    obtain ⟨S, hmirrors, -⟩ := run_dealKept hrun
    obtain ⟨b, heff⟩ := step_effect hstep
    refine ⟨⟨fun hall hguard => ?_, hright hes e σ' hstep⟩, fun ix msg hmsg hdeal => ?_⟩
    · obtain ⟨p, hp, hwrong⟩ := hguard.wrongDeal hmirrors (seatBook_run hrun) heff
      exact hwrong (hall p hp)
    · by_contra hnobody
      have hfree : ∀ t, σ'.activeSides t ≠ some ix := fun t ht => hnobody ⟨t, ht⟩
      obtain ⟨sides, rfl, -⟩ := heff.received_free (seatBook_run hrun) hfree msg (mem_inbox.mpr hmsg)
      cases hdeal
  · -- along a run, by the condition on each of its calls
    intro hguard
    refine exec_induction (P := fun es _ => Guarded step (fun σ e => ¬ σ.Astray e) σ₀ es →
      ∀ p ∈ record step dealt σ₀ es, RightDeal scenario p) (by simp [record])
      (fun es σ e σ' hes ih hstep hg => ?_) es σ hes hguard
    obtain ⟨hinit, hlast⟩ := guarded_concat hes hg
    rw [record_concat dealt hes hstep]
    intro p hp
    rcases List.mem_append.mp hp with hold | hnew
    · exact ih hinit p hold
    · exact hright hes e σ' hstep hlast p hnew

/-- `S` leaves and comes back before the second trick, which is led by the side that began. -/
def comesBack : List Call :=
  oneTrick ++ [.grandExitCallback [] 3 false, .forwardConnection, .playerIntro .S 5]

theorem rightDeal_iff_comesBack :
    ∃ σ, exec step (started [suitRound] 5 suitRound) comesBack = some σ ∧
      ∀ p ∈ record step dealt (started [suitRound] 5 suitRound) comesBack,
        RightDeal [suitRound] p := by
  have hsome : (exec step (started [suitRound] 5 suitRound) comesBack).isSome := by decide +kernel
  obtain ⟨σ, hσ⟩ := Option.isSome_iff_exists.mp hsome
  exact ⟨σ, hσ, (rightDeal_iff (start_cons suitRound [] 5) hσ).2 (by decide +kernel)⟩

/-- `N` has begun the round with a card; the player who then comes back on side `S` is told that `E`
began it. -/
theorem not_rightDeal_midTrick :
    ∃ σ σ', run [suitRound] 5 (fourPlayers ++ [.playerTricked 1 ⟨.v2, .colorC⟩ 1,
        .grandExitCallback [] 3 false, .forwardConnection]) = some σ ∧
      σ.step (.playerIntro .S 5) = some σ' ∧ σ.game.roundNumber = 0 ∧ suitRound.starting = .N ∧
      σ'.activeSides .S = some 5 ∧
      (5, .deal .trickPenalty .E (suitDeal .S)) ∈ mailed σ σ' ∧
      ¬ RightDeal [suitRound] (0, .S, .deal .trickPenalty .E (suitDeal .S)) := by
  have hfacts : ((run [suitRound] 5 (fourPlayers ++ [.playerTricked 1 ⟨.v2, .colorC⟩ 1,
      .grandExitCallback [] 3 false, .forwardConnection])).bind fun σ =>
      (σ.step (.playerIntro .S 5)).map fun σ' => (σ.game.roundNumber, σ'.activeSides .S,
        decide ((5, .deal .trickPenalty .E (suitDeal .S)) ∈ mailed σ σ'))) =
      some (0, some 5, true) := by
    decide +kernel
  obtain ⟨σ, hσ, hnext⟩ := Option.bind_eq_some_iff.mp hfacts
  obtain ⟨σ', hσ', heq⟩ := Option.map_eq_some_iff.mp hnext
  simp only [Prod.mk.injEq, decide_eq_true_eq] at heq
  refine ⟨σ, σ', hσ, hσ', heq.1, rfl, heq.2.1, heq.2.2, fun hright => ?_⟩
  have hsame := hright suitRound rfl
  exact absurd (SendJob.deal.inj hsame).2.1 (by decide)

end Server

end Kierki
