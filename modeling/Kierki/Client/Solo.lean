import Kierki.Client.Party

/-!
# The game without the server

`Game.solo` is a program for one thread: it asks the strategy for a card from the hand that is to move, and puts it
on the table.  Nobody connects to it, nobody leaves it, and there are no messages.

The server with four automatic players plays the same game (`Party.plays_solo`), whoever comes and goes and in
whatever order the messages are delivered.  A player knows its cards in the order in which they were dealt
(`Session.Ordered`), also if it has struck some out of a deal when it came, so that the card it puts is the one the
strategy finds in the hand that the server keeps for its side.
-/

namespace Kierki

open TrickGame Execution PlayerAuto

namespace Game

/-- One card from the hand that is to move. -/
def advance (scenario : GameScenario) (g : Game) (card : Card) : Game :=
  let g := g.putCard g.nextMove card
  if g.table.length = 4 then
    let g := g.takeTrick
    if g.trickNo = TRICKS_PER_ROUND + 1 then
      let g := g.updatePenalties.leaveRound
      match scenario[g.roundNumber]? with
      | some r => g.prepare r
      | none => g
    else g
  else g

/-- The card that the strategy finds in the hand that is to move. -/
def solo (scenario : GameScenario) (g : Game) : Game :=
  match Strategy.nextMove (g.hands g.nextMove) g.table with
  | .ok (card, _) => g.advance scenario card
  | .error _ => g

end Game

/-- What an accepted card does to the game. -/
theorem Server.Accepted.advance {σ σ' : Server} {side : Side} {card : Card} (h : Server.Accepted σ side card σ')
    (hturn : σ.game.nextMove = side) : σ'.game = σ.game.advance σ.gameScenario card := by
  subst hturn
  cases h with
  | inTrick g mgr out hg hlen =>
      subst hg
      simp only [Game.advance, if_neg hlen]
  | trickDone g₀ g mgr out hg₀ hlen hg hno =>
      subst hg₀ hg
      simp only [Game.advance, if_pos hlen, if_neg hno]
  | roundDone g₀ g₁ g r mgr out hg₀ hlen hg₁ hno _ hr hg =>
      subst hg₀ hg₁ hg
      simp only [Game.advance, if_pos hlen, if_pos hno, hr]
  | gameDone g₀ g₁ g mgr out σ' hg₀ hlen hg₁ hno hlast hg _ _ hfin =>
      subst hg₀ hg₁ hg
      have hnone : σ.gameScenario[(σ.game.putCard σ.game.nextMove card).takeTrick.updatePenalties.leaveRound.roundNumber]? =
          none := List.getElem?_eq_none hlast.ge
      rw [hfin.frame.1]
      simp only [Game.advance, if_pos hlen, if_pos hno, hnone]

/-- A part of a list without duplicates is what the list has of its elements. -/
theorem sublist_filter_mem {α : Type} [DecidableEq α] {l l' : List α} (h : l.Sublist l') (hnodup : l'.Nodup) :
    l'.filter (· ∈ l) = l := by
  induction h with
  | slnil => rfl
  | @cons l l' a hsub ih =>
      obtain ⟨hnot, hnodup'⟩ := List.nodup_cons.mp hnodup
      have hout : a ∉ l := fun hmem => hnot (hsub.subset hmem)
      rw [List.filter_cons_of_neg (by simpa using hout), ih hnodup']
  | @cons_cons l l' a hsub ih =>
      obtain ⟨hnot, hnodup'⟩ := List.nodup_cons.mp hnodup
      have hsame : l'.filter (· ∈ a :: l) = l'.filter (· ∈ l) := by
        refine List.filter_congr fun b hb => ?_
        have hne : b ≠ a := fun heq => hnot (heq ▸ hb)
        simp [hne]
      rw [List.filter_cons_of_pos (by simp), hsame, ih hnodup']

namespace PlayerAuto

/-- The hand behind a message, no card being put. -/
def holds (stage : GameStage) (hand : Hand) : SendJob → Hand
  | .deal _ _ cards => cards
  | .taken cards _ _ => if stage = .afterFirstDeal then rmIntersection hand cards else hand
  | .trick _ _ | .wrong _ | .score _ | .total _ | .busy _ | .intro _ => hand

/-- The hand behind some messages. -/
def holdsAll : GameStage → Hand → List SendJob → Hand
  | _, hand, [] => hand
  | stage, hand, msg :: msgs => holdsAll (stage.next msg) (holds stage hand msg) msgs

theorem rmIntersection_sublist {hand hand' : Hand} (h : hand.Sublist hand') (cards : Table) :
    (rmIntersection hand cards).Sublist (rmIntersection hand' cards) := by
  induction cards generalizing hand hand' with
  | nil => exact h
  | cons c cards ih =>
      refine ih ?_
      rw [rmCardIfPresent_eq_erase, rmCardIfPresent_eq_erase]
      exact h.erase c

theorem rmIntersection_sublist_self (hand : Hand) (cards : Table) : (rmIntersection hand cards).Sublist hand := by
  induction cards generalizing hand with
  | nil => exact List.Sublist.refl hand
  | cons c cards ih =>
      refine (ih _).trans ?_
      rw [rmCardIfPresent_eq_erase]
      exact List.erase_sublist

/-- Fewer cards are fewer behind every message. -/
theorem holdsAll_mono {hand hand' : Hand} (h : hand.Sublist hand') (stage : GameStage) (msgs : List SendJob) :
    (holdsAll stage hand msgs).Sublist (holdsAll stage hand' msgs) := by
  induction msgs generalizing stage hand hand' with
  | nil => exact h
  | cons msg msgs ih =>
      refine ih ?_ _
      cases msg with
      | deal => exact List.Sublist.refl _
      | taken cards t n =>
          simp only [holds]
          split
          · exact rmIntersection_sublist h cards
          · exact h
      | trick | wrong | score | total | busy | intro => exact h

theorem holdsAll_append (stage : GameStage) (hand : Hand) (msgs msgs' : List SendJob) :
    holdsAll stage hand (msgs ++ msgs') =
      holdsAll (msgs.foldl GameStage.next stage) (holdsAll stage hand msgs) msgs' := by
  induction msgs generalizing stage hand with
  | nil => rfl
  | cons msg msgs ih => exact ih _ _

/-- Without a deal no card comes in. -/
theorem holdsAll_sublist {msgs : List SendJob} (h : ∀ msg ∈ msgs, msg.isDeal = false) (stage : GameStage) (hand : Hand) :
    (holdsAll stage hand msgs).Sublist hand := by
  induction msgs generalizing stage hand with
  | nil => exact List.Sublist.refl hand
  | cons msg msgs ih =>
      obtain ⟨hmsg, hrest⟩ := List.forall_mem_cons.mp h
      refine (ih hrest _ _).trans ?_
      cases msg with
      | deal => cases hmsg
      | taken cards t n =>
          simp only [holds]
          split
          · exact rmIntersection_sublist_self hand cards
          · exact List.Sublist.refl hand
      | trick | wrong | score | total | busy | intro => exact List.Sublist.refl hand

/-- Prompts leave the hand as it is. -/
theorem holdsAll_prompts {msgs : List SendJob} (h : ∀ msg ∈ msgs, ∃ t n, msg = .trick t n) (stage : GameStage)
    (hand : Hand) : holdsAll stage hand msgs = hand := by
  induction msgs generalizing stage with
  | nil => rfl
  | cons msg msgs ih =>
      obtain ⟨⟨t, n, rfl⟩, hrest⟩ := List.forall_mem_cons.mp h
      exact ih hrest _

end PlayerAuto

/-- The strategy leaves the other cards in their order. -/
theorem Strategy.nextMove_sublist {hand hand' : Hand} {t : Table} {card : Card} (h : nextMove hand t = .ok (card, hand')) :
    hand'.Sublist hand := by
  by_cases hne : hand = []
  · rw [hne] at h
    cases t <;> cases h
  · obtain ⟨i, c, -, hmove, -⟩ := nextMove_eq hne t
    obtain ⟨-, rfl⟩ := Prod.mk.inj (Except.ok.inj (hmove.symm.trans h))
    exact List.eraseIdx_sublist hand i

/-- **A message to the automatic player**, with the order of its cards. -/
theorem Client.recv_hand {c c' : Client PlayerAuto} {msg : SendJob} {out : List (Nat × Card)}
    (h : c.recv msg = .ok (c', out)) (hright : msg.kind ≠ .wrong) :
    c'.stage = c.stage.next msg ∧ ((out = [] ∧ c'.player.hand = holds c.stage c.player.hand msg) ∨
      ∃ t n card, msg = .trick t n ∧ out = [(n, card)] ∧
        Strategy.nextMove c.player.hand t = .ok (card, c'.player.hand)) := by
  obtain ⟨-, hstage, -⟩ := Client.recv_spec h
  refine ⟨hstage, ?_⟩
  unfold recv at h
  split at h
  swap
  · cases h
  cases msg with
  | trick t n =>
      obtain ⟨⟨player, put⟩, hplayer, h⟩ := Fallible.bind_eq_ok.mp h
      change c.player.trickMsg n t = .ok (player, put) at hplayer
      unfold trickMsg at hplayer
      split at hplayer
      · -- a prompt for a trick that is behind the player
        cases hplayer
        cases h
        exact .inl ⟨rfl, rfl⟩
      · -- the strategy takes its card out of the hand
        obtain ⟨⟨card, hand⟩, hmove, hplayer⟩ := Fallible.bind_eq_ok.mp hplayer
        cases hplayer
        cases h
        exact .inr ⟨t, n, card, rfl, rfl, hmove⟩
  | wrong n => exact absurd rfl hright
  | taken cards s n =>
      cases h
      refine .inl ⟨rfl, ?_⟩
      show (c.player.takenMsg s cards n _).hand = _
      unfold PlayerAuto.takenMsg
      by_cases hstage : c.stage = .afterFirstDeal <;> simp [holds, hstage]
  | deal | score | total | busy | intro =>
      cases h
      exact .inl ⟨rfl, rfl⟩

/-- The player puts a card in answer to the prompt for the present trick only, with nothing but copies of it behind. -/
theorem Owes.puts {g : Game} {s : Side} {c c' : Client PlayerAuto} {msg : SendJob} {msgs : List SendJob}
    {up out : List (Nat × Card)} (h : Owes g s c.player.nextTrick (msg :: msgs) up)
    (hrecv : c.recv msg = .ok (c', out)) (hout : out ≠ []) :
    g.nextMove = s ∧ msg = g.msgTrick ∧ (∀ m ∈ msgs, m = g.msgTrick) ∧ up = [] := by
  obtain ⟨-, ⟨rfl, -⟩ | ⟨t, n, card, rfl, hle, -, -⟩⟩ := Client.recv_auto hrecv
  · exact absurd rfl hout
  have hloud : ∀ {msgs}, ¬ Deaf c.player.nextTrick (SendJob.trick t n :: msgs) := by
    intro msgs hdeaf
    have hlt := hdeaf.1 t n rfl
    omega
  cases h with
  | nothing hdeaf | answered _ _ hdeaf => exact absurd hdeaf hloud
  | answer before copies hturn hmsgs hdeaf _ hcopies hup =>
      cases before with
      | cons first before =>
          obtain ⟨rfl, -⟩ := List.cons.inj hmsgs
          exact absurd hdeaf hloud
      | nil =>
          obtain ⟨hfirst, rfl⟩ := List.cons.inj hmsgs
          exact ⟨hturn, hfirst, hcopies, hup⟩

/-- The deal of the round. -/
def Server.roundDeal (σ : Server) : TableState := σ.lastDeal.getD σ.game.hands

section Dealt

variable {scenario : GameScenario} {σ σ' : Server} {S S' : CardGame}

theorem Standing.roundDeal_eq (h : Standing scenario σ S) : σ.roundDeal = S.deal.hands := by
  unfold Server.roundDeal
  cases hdeal : σ.lastDeal with
  | some deal => exact h.kept.kept deal hdeal
  | none =>
      have hstart := h.kept.fresh hdeal
      show σ.game.hands = S.deal.hands
      rw [h.mirrors.game.hands, hstart]
      rfl

/-- No card is dealt twice to a side. -/
theorem Standing.nodup_roundDeal (h : Standing scenario σ S) (hdeck : ∀ r ∈ scenario, r.SplitsDeck) (s : Side) :
    (σ.roundDeal s).Nodup := by
  obtain ⟨i, hi⟩ := h.mirrors.deal
  obtain ⟨r, hr, hround⟩ := deals_getElem?_eq_some.mp hi
  have hnodup : (∑ s, (r.deal s : Multiset Card)).Nodup := by
    rw [hdeck r (List.mem_of_getElem? hr)]
    exact Finset.univ.nodup
  have hle : (r.deal s : Multiset Card) ≤ ∑ s, (r.deal s : Multiset Card) :=
    Finset.single_le_sum (f := fun s => (r.deal s : Multiset Card)) (fun _ _ => Multiset.zero_le _) (Finset.mem_univ s)
  rw [h.roundDeal_eq, ← hround]
  exact Multiset.coe_nodup.mp (Multiset.nodup_of_le hle hnodup)

end Dealt

namespace Session

/-- The automatic player has its cards in the order of the deal, is told nothing that changes it, and has sent the card
that the strategy finds in the hand of its side. -/
structure Ordered (s : Side) (W : Session PlayerAuto) : Prop where
  kept : (W.server.game.hands s).Sublist (W.server.roundDeal s)
  right : ∀ L, W.link = some L → ∀ msg ∈ L.down.map Prod.fst, msg.kind ≠ .wrong
  order : ∀ L, W.link = some L →
    (holdsAll L.client.stage L.client.player.hand (L.down.map Prod.fst)).Sublist (W.server.roundDeal s)
  moves : ∀ L, W.link = some L → ∀ q ∈ L.up,
    ∃ hand, Strategy.nextMove (W.server.game.hands s) W.server.game.table = .ok (q.2, hand)

section Steps

variable {scenario : GameScenario} {s : Side} {W : Session PlayerAuto} {S S' : CardGame} {e : Server.Call}
  {b : Bool} {σ' : Server} {L : Link PlayerAuto}

/-- What a call puts into the channel brings in no cards but those of the deal. -/
theorem delivers_order {ix : Nat} {msgs : List SendJob} (h : Server.Delivers W.server s ix e σ' msgs)
    (hstand : Standing scenario W.server S) (hstand' : Standing scenario σ' S')
    (hsame : W.server.accepts e = none → S' = S)
    (hplay : ∀ m, W.server.accepts e = some m → S.play kierki (deals scenario) m = some S')
    {stage : GameStage} {hand : Hand} (hhand : hand.Sublist (W.server.roundDeal s)) :
    (holdsAll stage hand msgs).Sublist (σ'.roundDeal s) := by
  have hprompt : ∀ g, ∀ msg ∈ Server.promptFor g s, msg.isDeal = false := by
    intro g
    simpa using promptFor_isDeal g s
  -- the deal is the old one, and only tricks and prompts come
  have hold : W.server.accepts e = none → (∀ msg ∈ msgs, msg.isDeal = false) →
      (holdsAll stage hand msgs).Sublist (σ'.roundDeal s) := by
    intro hnone hmsgs
    rw [hstand'.roundDeal_eq, hsame hnone, ← hstand.roundDeal_eq]
    exact (holdsAll_sublist hmsgs _ _).trans hhand
  -- a deal comes first
  have hnew : ∀ {mode starting cards rest}, cards = σ'.roundDeal s → (∀ msg ∈ rest, msg.isDeal = false) →
      (holdsAll stage hand (.deal mode starting cards :: rest)).Sublist (σ'.roundDeal s) := by
    rintro mode starting cards rest rfl hrest
    exact holdsAll_sublist hrest _ _
  cases h with
  | quiet e σ' _ hnone => exact hold hnone (by simp)
  | lobby => exact hold rfl (by simp)
  | resume => exact hold rfl (hprompt _)
  | timeout => exact hold rfl (by simp [Game.msgTrick, SendJob.isDeal])
  | wrong n card jx σ' _ hpc hside hbad =>
      exact hold (by simp [Server.accepts, hpc, hside, hbad]) (by simp [SendJob.isDeal])
  | firstDeal side jx σ' _ _ _ hgame _ hdeal =>
      refine hnew ?_ (hprompt _)
      rw [Server.roundDeal, hdeal]
      rfl
  | rejoin deal σ' _ _ _ _ hdeal =>
      refine hnew ?_ (List.forall_mem_append.mpr ⟨fun msg hmsg => ?_, ?_⟩)
      · rw [Server.roundDeal, hdeal]
        rfl
      · rw [hstand.mirrors.game.takenInRound] at hmsg
        obtain ⟨t, -, rfl⟩ := List.mem_map.mp hmsg
        rfl
      · split
        · exact hprompt _
        · simp
  | accepted n card jx side σ' msgs _ hpc hside hgood _ hmsgs =>
      have haccepts : W.server.accepts (.playerTricked n card jx) = some (side, card) := by
        simp [Server.accepts, hpc, hside, hgood]
      have hout := (hstand.mirrors.outcome (hplay _ haccepts) hmsgs).1
      rw [hstand.roundDeal_eq] at hhand
      rw [hstand'.roundDeal_eq]
      cases hout with
      | inTrick => exact (holdsAll_sublist (hprompt _) _ _).trans hhand
      | trickDone t =>
          exact (holdsAll_sublist (List.forall_mem_cons.mpr ⟨rfl, hprompt _⟩) _ _).trans hhand
      | roundDone t r S' l l' _ _ _ hS' =>
          have hcards : S'.deal.hands s = r.deal s := by
            rw [hS']
            rfl
          rw [hcards]
          exact holdsAll_sublist (hprompt _) _ _
      | gameDone t S' l l' _ _ _ hS' =>
          have hcards : S'.deal = S.deal := by
            rw [hS']
            rfl
          rw [hcards]
          refine (holdsAll_sublist ?_ _ _).trans hhand
          simp [Kierki.takenMsg, SendJob.isDeal]

/-- **A call.** -/
theorem Ordered.call (h : W.Ordered s) (hcons : W.Consistent scenario s S) (hup : W.UpToDate scenario s)
    (hstand : Standing scenario W.server S) (hallows : W.Allows s e) (heff : Server.Effect W.server e b σ') :
    Session.Ordered s ⟨σ', W.relink PlayerAuto.new s e σ'⟩ := by
  -- the state of the reference game behind the call
  have hnext : ∃ S', Standing scenario σ' S' ∧ (W.server.accepts e = none → S' = S ∧ σ'.game = W.server.game) ∧
      ∀ m, W.server.accepts e = some m → S.play kierki (deals scenario) m = some S' ∧
        (W.server.game.nextMove = s → TakesUp s W.server e) := by
    rcases hstand.effect heff with ⟨hnone, hgame, hstand'⟩ |
      ⟨n, card, ix, side, S', rfl, hpc, hside, hgood, -, hplay, hstand'⟩
    · exact ⟨S, hstand', fun _ => ⟨rfl, hgame⟩, fun m hm => by simp [hnone] at hm⟩
    · have haccepts : W.server.accepts (.playerTricked n card ix) = some (side, card) := by
        simp [Server.accepts, hpc, hside, hgood]
      refine ⟨S', hstand', fun hnone => by simp [haccepts] at hnone, fun m hm => ?_⟩
      obtain rfl := Option.some.inj (haccepts.symm.trans hm)
      exact ⟨hplay, fun hturn => ⟨hpc, by rw [hside, ← hturn, hgood.2.1]⟩⟩
  obtain ⟨S', hstand', hquiet, hmove⟩ := hnext
  have htakes : TakesUp s W.server e → W.server.accepts e ≠ none := fun htakes hnone => hup.quiet hallows hnone htakes
  refine ⟨?_, fun L' hL' => ?_, fun L' hL' => ?_, fun L' hL' q hq => ?_⟩
  · have hkept := h.kept
    rw [hstand.roundDeal_eq, hstand.mirrors.game.hands] at hkept
    show (σ'.game.hands s).Sublist (σ'.roundDeal s)
    rw [hstand'.roundDeal_eq, hstand'.mirrors.game.hands]
    cases haccepts : W.server.accepts e with
    | none =>
        rw [(hquiet haccepts).1]
        exact hkept
    | some m => exact State.play_hands_sublist hkept (hmove m haccepts).1
  · obtain ⟨hseat', hdown⟩ := hcons.down_relink hstand.book heff hL'
    have hnew := not_wrong (heff.delivers hstand.book hseat') hstand.mirrors htakes
    rcases hdown with ⟨-, -, -, hdown⟩ | ⟨L, hL, -, -, -, hdown⟩ <;> rw [hdown]
    · exact hnew
    · exact List.forall_mem_append.mpr ⟨h.right L hL, hnew⟩
  · obtain ⟨hseat', hdown⟩ := hcons.down_relink hstand.book heff hL'
    have horder : ∀ {stage hand}, List.Sublist hand (W.server.roundDeal s) →
        (holdsAll stage hand (Server.received W.server σ' L'.worker)).Sublist (σ'.roundDeal s) :=
      delivers_order (heff.delivers hstand.book hseat') hstand hstand' (fun hnone => (hquiet hnone).1)
        fun m hm => (hmove m hm).1
    show (holdsAll L'.client.stage L'.client.player.hand (L'.down.map Prod.fst)).Sublist (σ'.roundDeal s)
    rcases hdown with ⟨-, hclient, -, hdown⟩ | ⟨L, hL, -, hclient, -, hdown⟩ <;> rw [hclient, hdown]
    · exact horder (List.nil_sublist _)
    · rw [holdsAll_append]
      exact horder (h.order L hL)
  · obtain ⟨-, ⟨-, -, hnil, -⟩ | ⟨L, hL, -, -, hcards, -⟩⟩ := hcons.down_relink hstand.book heff hL'
    · rw [hnil] at hq
      cases hq
    rw [hcards] at hq
    show ∃ hand, Strategy.nextMove (σ'.game.hands s) σ'.game.table = .ok (q.2, hand)
    cases haccepts : W.server.accepts e with
    | none =>
        rw [if_neg fun htake => htakes htake haccepts] at hq
        rw [(hquiet haccepts).2]
        exact h.moves L hL q hq
    | some m =>
        -- nothing is left in the channel
        exfalso
        by_cases htake : TakesUp s W.server e
        · obtain ⟨n, card, ix, L₁, -, hL₁, hup', -⟩ := hup.takesUp hallows htake
          obtain rfl := Option.some.inj (hL.symm.trans hL₁)
          rw [if_pos htake, hup'] at hq
          cases hq
        · rw [if_neg htake] at hq
          have hother : W.server.game.nextMove ≠ s := fun hturn => htake ((hmove m haccepts).2 hturn)
          rw [((hup.owes L hL).of_ne hother).2.2] at hq
          cases hq

/-- With nothing but prompts on the way the player of the side to move has the hand of its side, card by card. -/
theorem Ordered.hand_eq (h : W.Ordered s) (hcons : W.Consistent scenario s S) (hup : W.UpToDate scenario s)
    (hstand : Standing scenario W.server S) (hdeck : ∀ r ∈ scenario, r.SplitsDeck) (hL : W.link = some L)
    (hturn : W.server.game.nextMove = s) (hdown : L.down ≠ []) (hprompts : ∀ q ∈ L.down, q.1 = W.server.game.msgTrick)
    (hnone : L.up = []) : L.client.player.hand = W.server.game.hands s := by
  have hsound := hcons.sound L hL (hup.inTime L hL)
  have hdealt : W.server.lastDeal ≠ none := fun hno => hdown (hsound.lobby hno).1
  have htricks : ∀ q ∈ L.down, ∃ t n, q.1 = SendJob.trick t n := fun q hq => ⟨_, _, hprompts q hq⟩
  -- the same cards
  have hahead : L.ahead.2 = L.client.ledger := hearAll_prompts htricks
  have hlaid : S.laid s = [] := by
    rw [← hstand.mirrors.laid s]
    exact hstand.mirrors.laid_nextMove hturn
  have hcards : (L.client.player.hand : Multiset Card) = (W.server.game.hands s : Multiset Card) := by
    rw [hstand.mirrors.game.hands]
    show L.client.ledger.hand = _
    rw [← hahead]
    cases hsound.tally hdealt with
    | catchingUp lost hlost _ _ _ hsum =>
        rw [hlost (.inl fun _ => hdeck), hlaid] at hsum
        simpa using hsum
    | inStep lost hlost _ _ hsum =>
        rw [hlost (.inl fun _ => hdeck), Link.sent, hnone] at hsum
        simpa using hsum
  -- and in the same order
  have horder := h.order L hL
  rw [holdsAll_prompts fun msg hmsg => ?_] at horder
  swap
  · obtain ⟨q, hq, rfl⟩ := List.mem_map.mp hmsg
    exact htricks q hq
  have hnodup := hstand.nodup_roundDeal hdeck s
  calc L.client.player.hand = (W.server.roundDeal s).filter (· ∈ L.client.player.hand) :=
        (sublist_filter_mem horder hnodup).symm
    _ = (W.server.roundDeal s).filter (· ∈ W.server.game.hands s) :=
        List.filter_congr fun _ _ => decide_eq_decide.mpr (Multiset.coe_eq_coe.mp hcards).mem_iff
    _ = W.server.game.hands s := sublist_filter_mem h.kept hnodup

/-- **The player processes a message.** -/
theorem Ordered.receive {msg : SendJob} {cause : Option Cause} {down : List Parcel} {client : Client PlayerAuto}
    {out : List (Nat × Card)} (h : W.Ordered s) (hcons : W.Consistent scenario s S) (hup : W.UpToDate scenario s)
    (hstand : Standing scenario W.server S) (hdeck : ∀ r ∈ scenario, r.SplitsDeck) (hL : W.link = some L)
    (hdown : L.down = (msg, cause) :: down) (hrecv : L.client.recv msg = .ok (client, out)) :
    Session.Ordered s ⟨W.server, some { L with client := client, down := down, up := L.up ++ out }⟩ := by
  have hright := h.right L hL
  have horder := h.order L hL
  rw [hdown, List.map_cons] at hright horder
  obtain ⟨hstage, hput⟩ := Client.recv_hand hrecv (hright msg List.mem_cons_self)
  refine ⟨h.kept, ?_, ?_, ?_⟩ <;> rintro _ ⟨⟩
  · exact fun m hm => hright m (List.mem_cons_of_mem msg hm)
  · show (holdsAll client.stage client.player.hand (down.map Prod.fst)).Sublist _
    rcases hput with ⟨-, hhand⟩ | ⟨t, n, card, rfl, -, hmove⟩
    · rw [hstage, hhand]
      exact horder
    · -- a card less, and no more behind the other messages
      rw [hstage]
      exact (holdsAll_mono (Strategy.nextMove_sublist hmove) _ _).trans horder
  · show ∀ q ∈ L.up ++ out, _
    refine List.forall_mem_append.mpr ⟨h.moves L hL, fun q hq => ?_⟩
    have howes := hup.owes L hL
    rw [hdown, List.map_cons] at howes
    obtain ⟨hturn, hmsg, hcopies, hnone⟩ := howes.puts hrecv (List.ne_nil_of_mem hq)
    have hprompts : ∀ q ∈ L.down, q.1 = W.server.game.msgTrick := by
      rw [hdown]
      exact List.forall_mem_cons.mpr ⟨hmsg, fun q hq => hcopies q.1 (List.mem_map_of_mem hq)⟩
    have hhand := h.hand_eq hcons hup hstand hdeck hL hturn (by simp [hdown]) hprompts hnone
    rcases hput with ⟨rfl, -⟩ | ⟨t, n, card, rfl, rfl, hmove⟩
    · cases hq
    · obtain rfl := List.mem_singleton.mp hq
      obtain ⟨rfl, -⟩ := SendJob.trick.inj hmsg
      rw [hhand] at hmove
      exact ⟨_, hmove⟩

end Steps

end Session

namespace Party

/-- The party plays the game that is played without the server. -/
structure Rehearsed (scenario : GameScenario) (g₀ : Game) (P : Party) : Prop where
  sound : ∃ S, P.Sound scenario S
  ordered : ∀ s, (P.side s).Ordered s
  game : P.server.game = (Game.solo scenario)^[52 * scenario.length - P.server.cardsLeft] g₀

section Steps

variable {scenario : GameScenario} {g₀ : Game} {P P' : Party} {S : CardGame}

/-- A card that the server takes up is the one that is put without it. -/
theorem Sound.accepted_solo (h : P.Sound scenario S) (hordered : ∀ s, (P.side s).Ordered s) {n : Nat} {card : Card}
    {ix : Nat} {side : Side} {σ' : Server} (hallows : (P.side side).Allows side (.playerTricked n card ix))
    (hside : P.server.sideOf ix = some side) (hgood : P.server.admits n card side)
    (hacc : Server.Accepted P.server side card σ') : σ'.game = P.server.game.solo scenario := by
  obtain ⟨L, hL, -⟩ := Option.bind_eq_some_iff.mp (hallows hside)
  obtain ⟨-, rest, hup⟩ := hallows.offered hside hL
  obtain ⟨hand, hmove⟩ := (hordered side).moves L hL (n, card) (by simp [hup])
  change Strategy.nextMove (P.server.game.hands side) P.server.game.table = _ at hmove
  rw [hacc.advance hgood.2.1, h.standing.mirrors.scenario_eq, Game.solo, hgood.2.1, hmove]

/-- **Every step follows the game without the server.** -/
theorem Rehearsed.step {ev : Event} (h : P.Rehearsed scenario g₀) (hdeck : ∀ r ∈ scenario, r.SplitsDeck)
    (hstep : P.step ev = some P') : P'.Rehearsed scenario g₀ := by
  obtain ⟨S, hsound⟩ := h.sound
  refine ⟨hsound.step hstep fun _ => hdeck, ?_, ?_⟩
  · cases ev with
    | receive s =>
        obtain ⟨L, msg, cause, down, client, out, hL, hdown, hrecv, rfl⟩ := step_receive hstep
        intro t
        rw [side_update]
        split
        · rename_i ht
          subst ht
          exact (h.ordered t).receive (hsound.consistent t) (hsound.upToDate t) hsound.standing hdeck hL hdown hrecv
        · exact h.ordered t
    | call e =>
        obtain ⟨hallows, b, σ', heff, rfl⟩ := step_call hstep
        exact fun t => (h.ordered t).call (hsound.consistent t) (hsound.upToDate t) hsound.standing (hallows t) heff
  · cases ev with
    | receive s =>
        obtain ⟨L, msg, cause, down, client, out, -, -, -, rfl⟩ := step_receive hstep
        exact h.game
    | call e =>
        obtain ⟨hallows, b, σ', heff, rfl⟩ := step_call hstep
        have hleft := hsound.standing.mirrors.cardsLeft
        rcases hsound.standing.effect heff with ⟨-, hgame, hstand'⟩ |
          ⟨n, card, ix, side, S', rfl, -, hside, hgood, hacc, hplay, hstand'⟩
        · -- no card is put
          have hleft' := hstand'.mirrors.cardsLeft
          rw [hgame, h.game, show σ'.cardsLeft = P.server.cardsLeft by omega]
        · have hleft' := hstand'.mirrors.cardsLeft
          rw [State.play_history hplay, List.length_append, List.length_singleton] at hleft'
          have hcount : 52 * scenario.length - σ'.cardsLeft = 52 * scenario.length - P.server.cardsLeft + 1 := by omega
          rw [hcount, Function.iterate_succ_apply', ← h.game]
          exact hsound.accepted_solo h.ordered (hallows side) hside hgood hacc

end Steps

/-- In every run the server is at the point of the sequential game that the number of cards left says. -/
theorem rehearsed_run {scenario : GameScenario} {timeout : Int} {σ₀ : Server} {evs : List Event} {P : Party}
    (h₀ : Server.start scenario timeout = .ok σ₀) (h : exec step (opened σ₀) evs = some P)
    (hdeck : ∀ r ∈ scenario, r.SplitsDeck) : P.Rehearsed scenario σ₀.game := by
  obtain ⟨r₀, hr₀, rfl⟩ := Server.start_eq_ok h₀
  have hstart : (opened (Server.started scenario timeout r₀)).Rehearsed scenario
      (Server.started scenario timeout r₀).game := by
    have hstand := standing_started timeout hr₀
    have hleft := hstand.mirrors.cardsLeft
    refine ⟨⟨_, sound_opened hstand fun _ => rfl⟩, fun s => ?_, ?_⟩
    · constructor
      · exact List.Sublist.refl _
      all_goals rintro L ⟨⟩
    · have hnone : 52 * scenario.length - (Server.started scenario timeout r₀).cardsLeft = 0 := by
        rw [← hleft]
        simp [State.history, State.tricks, State.start]
      show (Server.started scenario timeout r₀).game = (Game.solo scenario)^[_ - (Server.started scenario timeout r₀).cardsLeft] _
      rw [hnone]
      rfl
  exact Reachable.invariant (P := Rehearsed scenario (Server.started scenario timeout r₀).game) ⟨evs, h⟩ hstart
    fun _ _ _ hP hstep => hP.step hdeck hstep

/-- After the last round no card is left. -/
theorem Rehearsed.cardsLeft_over {scenario : GameScenario} {g₀ : Game} {P : Party} (h : P.Rehearsed scenario g₀)
    (hover : P.Over) : P.server.cardsLeft = 0 := by
  obtain ⟨S, hsound⟩ := h.sound
  have hclosed := hsound.standing.mirrors.closed_iff.mpr (hsound.over_iff.mp hover)
  have hhands := hsound.standing.mirrors.no_card hclosed
  rw [← hsound.standing.mirrors.game.hands] at hhands
  simp only [Server.cardsLeft, hhands, List.length_nil, Finset.sum_const_zero, Nat.zero_add]
  rw [show P.server.game.roundNumber = P.server.gameScenario.length from hover]
  omega

/-- **Automatic players always play the same game.**  Whoever comes, leaves and is replaced, whatever times out, and in
whatever order messages are delivered and cards are taken up: if the deals split the deck, the game of the server is the
one that a single thread plays which asks the strategy for one card after the other. -/
theorem plays_solo {scenario : GameScenario} {timeout : Int} {σ₀ : Server} {evs : List Event} {P : Party}
    (h₀ : Server.start scenario timeout = .ok σ₀) (h : exec step (opened σ₀) evs = some P)
    (hdeck : ∀ r ∈ scenario, r.SplitsDeck) :
    P.server.game = (Game.solo scenario)^[52 * scenario.length - P.server.cardsLeft] σ₀.game ∧
      (P.Over → P.server.game = (Game.solo scenario)^[52 * scenario.length] σ₀.game) := by
  have hrun := rehearsed_run h₀ h hdeck
  refine ⟨hrun.game, fun hover => ?_⟩
  have hgame := hrun.game
  rwa [hrun.cardsLeft_over hover] at hgame

theorem plays_solo_oneLeaves :
    ∃ P, exec step (opened (Server.started [suitRound] 5 suitRound)) oneLeaves = some P ∧
      P.server.game = Game.solo [suitRound] (Server.started [suitRound] 5 suitRound).game := by
  have hfacts : (exec step (opened (Server.started [suitRound] 5 suitRound)) oneLeaves).map
      (fun P => P.server.cardsLeft) = some 51 := by decide +kernel
  obtain ⟨P, hP, hleft⟩ := Option.map_eq_some_iff.mp hfacts
  have hdeck : ∀ r ∈ [suitRound], r.SplitsDeck := by
    intro r hr
    rw [List.mem_singleton.mp hr]
    decide +kernel
  have hgame := (plays_solo (Server.start_cons suitRound [] 5) hP hdeck).1
  rw [hleft] at hgame
  exact ⟨P, hP, hgame⟩

end Party

end Kierki
