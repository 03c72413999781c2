import Kierki.Client.Tally

/-!
# The client does not lose count

`Link.Sound` is what holds of a client in every state of every session, as long as the server takes up no
card of it while another one of its cards is on the table: the messages on their way are ones the client
can process, and behind them its ledger agrees with the hand that the server has for its side.  A client
that sits down in the middle of a round has to find out by itself which cards of its deal have been
played; unless the deals split the deck, it may lose some until the next deal.
-/

namespace Kierki

open TrickGame Execution

variable {α : Type} [Player α]

/-- The stage and the ledger of the client once it has processed what is on its way. -/
def Link.ahead (L : Link α) : GameStage × Ledger :=
  Ledger.hearAll (L.client.stage, L.client.ledger) L.down

/-- The cards that the client has sent and the server has not taken up. -/
def Link.sent (L : Link α) : List Card := L.up.map Prod.snd

structure Link.Sound (accurate : Prop) (s : Side) (σ : Server) (S : CardGame) (L : Link α) : Prop where
  smooth : Ledger.Smooth accurate (L.client.stage, L.client.ledger) L.down
  asked : L.client.waitingForCard = true ∨ L.client.ledger.last ≠ [] → L.client.stage.Going
  lobby : σ.lastDeal = none → L.down = [] ∧ L.up = [] ∧ L.client.stage = .pre ∧ L.client.ledger = ⟨0, []⟩
  tally : σ.lastDeal ≠ none → Tallies (accurate ∨ L.live = true) S s L.ahead L.sent
  live : L.live = true → L.ahead.1 = .afterFirstDeal → S.laid s = []

namespace Session

/-- The client is there exactly while the side is occupied, and counts right if no card of it has crossed
another one. -/
structure Consistent (scenario : GameScenario) (s : Side) (W : Session α) (S : CardGame) : Prop where
  seat : ∀ ix, W.server.activeSides s = some ix ↔ ∃ L, W.link = some L ∧ L.worker = ix
  punctual : ∀ L, W.link = some L → L.late = false → L.live = true
  sound : ∀ L, W.link = some L → L.crossed = false →
    L.Sound (L.late = true → ∀ r ∈ scenario, r.SplitsDeck) s W.server S

end Session

section Client

variable {accurate : Prop} {s : Side} {σ : Server} {S : CardGame} {L : Link α} {msg : SendJob}
  {cause : Option Cause}  {down : List Parcel} {client : Client α} {out : List (Nat × Card)}

/-- A message adds no card to those that are put. -/
theorem Ledger.hear_last {l : Ledger} {stage : GameStage} {msg : SendJob}
    (h : (l.hear stage msg).last ≠ []) : l.last ≠ [] := by
  obtain ⟨hand, last⟩ := l
  cases last with
  | cons => simp
  | nil =>
      refine absurd ?_ h
      cases msg with
      | taken cards t n =>
          by_cases hstage : stage = .afterFirstDeal <;> simp [hear, hstage, strike, settle]
      | deal | trick | wrong | score | total | busy | intro => rfl

/-- A card that the client puts. -/
theorem Link.Sound.put (h : L.Sound accurate s σ S) {stage : GameStage} {l : Ledger} {c : Card} {n : Nat}
    (hdealt : σ.lastDeal ≠ none) (hgoing : stage.Going) (hc : c ∈ l.hand)
    (hsmooth : Ledger.Smooth accurate (stage, l) down) (hahead : Ledger.hearAll (stage, l) down = L.ahead)
    (hstage : client.stage = stage) (hledger : client.ledger = l.put c) :
    Link.Sound accurate s σ S { L with client := client, down := down, up := L.up ++ [(n, c)] } := by
  obtain ⟨hsmooth', heq, hgoing', hc'⟩ := Ledger.smooth_put hgoing hc hsmooth
  have hnow : Ledger.hearAll (client.stage, client.ledger) down = (L.ahead.1, L.ahead.2.put c) := by
    rw [hstage, hledger, heq, hahead]
  rw [hahead] at hgoing' hc'
  refine ⟨?_, fun _ => hstage ▸ hgoing, fun hnone => absurd hnone hdealt, fun _ => ?_, ?_⟩
  · show Ledger.Smooth accurate (client.stage, client.ledger) down
    rw [hstage, hledger]
    exact hsmooth'
  · show Tallies _ S s (Ledger.hearAll (client.stage, client.ledger) down) ((L.up ++ [(n, c)]).map Prod.snd)
    rw [hnow, List.map_append]
    exact (h.tally hdealt).put hgoing' hc'
  · intro hlive hfirst
    have hstage' : L.ahead.1 = .afterFirstDeal := by
      have hfst : (Ledger.hearAll (client.stage, client.ledger) down).1 = .afterFirstDeal := hfirst
      rwa [hnow] at hfst
    exact absurd hstage' hgoing'.2

variable [LawfulPlayer α]

/-- **The client processes a message.** -/
theorem Link.Sound.receive (h : L.Sound accurate s σ S) (hdown : L.down = (msg, cause) :: down)
    (hrecv : L.client.recv msg = .ok (client, out)) :
    Link.Sound accurate s σ S { L with client := client, down := down, up := L.up ++ out } := by
  have hdealt : σ.lastDeal ≠ none := fun hnone => by
    rw [(h.lobby hnone).1] at hdown
    cases hdown
  have hsmooth := h.smooth
  rw [hdown] at hsmooth
  obtain ⟨hfits, hrest⟩ := hsmooth
  have hahead : Ledger.hearAll (L.client.stage.next msg, L.client.ledger.hear L.client.stage msg) down =
      L.ahead := by
    rw [Link.ahead, hdown]
    rfl
  obtain ⟨-, hstage, ⟨rfl, hledger, hwait⟩ | ⟨t, n, card, rfl, rfl, hcard, hledger, hwait⟩⟩ :=
    Client.recv_spec hrecv
  · -- no card is put
    have hnow : Ledger.hearAll (client.stage, client.ledger) down = L.ahead := by
      rw [hstage, hledger, hahead]
    rw [List.append_nil]
    refine ⟨?_, ?_, fun hnone => absurd hnone hdealt, fun hd => ?_, fun hlive hfirst => ?_⟩
    · show Ledger.Smooth accurate (client.stage, client.ledger) down
      rw [hstage, hledger]
      exact hrest
    · show client.waitingForCard = true ∨ client.ledger.last ≠ [] → client.stage.Going
      rw [hstage, hledger]
      rintro (hasked | hlast)
      · rcases hwait hasked with hold | ⟨t, n, rfl⟩ | ⟨n, rfl⟩
        · exact (h.asked (.inl hold)).next _
        · exact (by decide : GameStage.afterTrick.Going)
        · -- a card has been put that is refused
          obtain ⟨c, -, hhead⟩ := hfits
          have hput : L.client.ledger.last ≠ [] := fun hnil => by
            simp only [hnil] at hhead
            cases hhead
          exact (h.asked (.inr hput)).next _
      · exact (h.asked (.inr (Ledger.hear_last hlast))).next _
    · show Tallies _ S s (Ledger.hearAll (client.stage, client.ledger) down) _
      rw [hnow]
      exact h.tally hd
    · refine h.live hlive ?_
      rw [← hnow]
      exact hfirst
  · exact h.put hdealt (by decide : GameStage.afterTrick.Going) hcard hrest hahead hstage hledger

/-- **The user types a line.** -/
theorem Link.Sound.command {cmd : List Char} (h : L.Sound accurate s σ S)
    (hcommand : L.client.command true cmd = .ok (client, out)) :
    Link.Sound accurate s σ S { L with client := client, up := L.up ++ out } := by
  obtain ⟨hstage, ⟨rfl, hledger, hwait⟩ | ⟨card, rfl, hcard, hledger, hwait, -⟩⟩ :=
    Client.command_spec hcommand
  · have hnow : (client.stage, client.ledger) = (L.client.stage, L.client.ledger) := by rw [hstage, hledger]
    rw [List.append_nil]
    refine ⟨?_, ?_, fun hnone => ?_, fun hd => ?_, fun hlive hfirst => ?_⟩
    · show Ledger.Smooth accurate (client.stage, client.ledger) L.down
      rw [hnow]
      exact h.smooth
    · show client.waitingForCard = true ∨ client.ledger.last ≠ [] → client.stage.Going
      rw [hstage, hledger]
      exact fun hor => h.asked (hor.imp_left hwait)
    · obtain ⟨hnil, hup, hpre, hempty⟩ := h.lobby hnone
      exact ⟨hnil, hup, hstage.trans hpre, hledger.trans hempty⟩
    · show Tallies _ S s (Ledger.hearAll (client.stage, client.ledger) L.down) _
      rw [hnow]
      exact h.tally hd
    · refine h.live hlive ?_
      have hfst : (Ledger.hearAll (client.stage, client.ledger) L.down).1 = .afterFirstDeal := hfirst
      rwa [hnow] at hfst
  · have hgoing : L.client.stage.Going := h.asked (.inl hwait)
    have hdealt : σ.lastDeal ≠ none := fun hnone => by
      rw [(h.lobby hnone).2.2.1] at hgoing
      exact hgoing.1 rfl
    exact h.put hdealt hgoing hcard h.smooth rfl hstage hledger

end Client

namespace Server

/-- A card that is taken up and not admitted is answered with a `WRONG`. -/
theorem Effect.refuses {σ σ' : Server} {n : Nat} {card : Card} {jx ix : Nat} {b : Bool} {s : Side}
    (h : Effect σ (.playerTricked n card jx) b σ') (hpc : 4 ≤ σ.playersConnected)
    (hside : σ.sideOf jx = some s) (hbad : ¬ σ.admits n card s) (hseat : σ.activeSides s = some ix) :
    received σ σ' ix = [.wrong σ.game.trickNo] := by
  cases h with
  | trickParked n card jx hfew => omega
  | trickUnknown n card jx mgr _ hrole => simp [sideOf, hrole] at hside
  | trickProxy n card jx σ' _ hrole => simp [sideOf, hrole] at hside
  | trickIgnored n card jx role _ hrole hignored =>
      rcases hignored with rfl | rfl <;> simp [sideOf, hrole] at hside
  | trickAccepted n card jx side σ' _ hside' hgood =>
      obtain rfl := Option.some.inj (hside.symm.trans hside')
      exact absurd hgood hbad
  | trickRejected n card jx kx side mgr _ hside' _ hkx hpost =>
      obtain rfl := Option.some.inj (hside.symm.trans hside')
      obtain rfl := Option.some.inj (hkx.symm.trans hseat)
      rw [received, mailed_eq hpost.sent]
      simp [inbox]

end Server

section Calls

variable {accurate : Prop} {scenario : GameScenario} {s : Side} {σ σ' : Server} {S S' : CardGame}
  {L : Link α}  {e : Server.Call} {b : Bool}

open Session

/-- The client with new messages on their way. -/
theorem Link.Sound.extend (h : L.Sound accurate s σ S) {qs : List Parcel} {up : List (Nat × Card)}
    {live crossed : Bool} (hsmooth : Ledger.Smooth accurate L.ahead qs)
    (hlobby : σ'.lastDeal = none → σ.lastDeal = none ∧ qs = [] ∧ up = L.up)
    (htally : σ'.lastDeal ≠ none →
      Tallies (accurate ∨ live = true) S' s (Ledger.hearAll L.ahead qs) (up.map Prod.snd))
    (hlive : live = true → (Ledger.hearAll L.ahead qs).1 = .afterFirstDeal → S'.laid s = []) :
    Link.Sound accurate s σ' S' { L with down := L.down ++ qs, up := up, live := live, crossed := crossed } where
  smooth := Ledger.smooth_append.mpr ⟨h.smooth, hsmooth⟩
  asked := h.asked
  lobby := by
    intro hnone
    obtain ⟨hold, rfl, rfl⟩ := hlobby hnone
    obtain ⟨hdown, hrest⟩ := h.lobby hold
    exact ⟨by simp [hdown], hrest⟩
  tally := by
    intro hdealt
    rw [Link.ahead, Ledger.hearAll_append]
    exact htally hdealt
  live := by
    intro hl hfirst
    rw [Link.ahead, Ledger.hearAll_append] at hfirst
    exact hlive hl hfirst

/-- With a deal out, the client is catching up only if it was before. -/
theorem Link.Sound.first (h : L.Sound accurate s σ S) (hdealt : σ.lastDeal ≠ none) {qs : List Parcel}
    (hlive : (L.live || qs.any fun q => q.1.isDeal) = true)
    (hfirst : (Ledger.hearAll L.ahead qs).1 = .afterFirstDeal) :
    L.ahead.1 = .afterFirstDeal ∧ S.laid s = [] := by
  have hpre : L.ahead.1 ≠ .pre := by
    cases h.tally hdealt with
    | catchingUp _ _ hstage => simp [hstage]
    | inStep _ _ hgoing => exact hgoing.1
  have hold : L.ahead.1 = .afterFirstDeal := by
    by_contra hne
    exact (Ledger.hearAll_going qs ⟨hpre, hne⟩).2 hfirst
  refine ⟨hold, h.live ?_ hold⟩
  rcases Bool.or_eq_true_iff.mp hlive with hl | hdeal
  · exact hl
  · rw [List.any_eq_true] at hdeal
    exact absurd hfirst (Ledger.hearAll_deal hpre hdeal).2

theorem any_parcels (s : Side) (σ : Server) (e : Server.Call) (σ' : Server) (ix : Nat) :
    (parcels s σ e σ' ix).any (fun q => q.1.isDeal) = (Server.received σ σ' ix).any SendJob.isDeal := by
  rw [parcels, List.any_map]
  rfl

omit [Player α] in
/-- The cards of a client that has none on the table when the server takes one up. -/
theorem stay_crossed (h : (stay s σ e σ' L).crossed = false) :
    L.crossed = false ∧ (TakesUp s σ e → σ.game.laid s = []) := by
  have hboth : L.crossed = false ∧ ¬ (TakesUp s σ e ∧ σ.game.laid s ≠ []) := by
    simpa [stay] using h
  refine ⟨hboth.1, fun htakes => ?_⟩
  by_contra hne
  exact hboth.2 ⟨htakes, hne⟩

/-- **A call that accepts no card.** -/
theorem Link.Sound.quiet (h : L.Sound accurate s σ S) (hstand : Standing scenario σ S)
    (heff : Server.Effect σ e b σ') (hnone : σ.accepts e = none)
    (hseat : σ.activeSides s = some L.worker) (hseat' : σ'.activeSides s = some L.worker)
    (hup : TakesUp s σ e → ∃ n card rest, e = .playerTricked n card L.worker ∧ L.up = (n, card) :: rest)
    (hcrossed : (stay s σ e σ' L).crossed = false) : (stay s σ e σ' L).Sound accurate s σ' S := by
  have hlaid : σ.game.laid s = S.laid s := hstand.mirrors.laid s
  have hdeals : Server.Delivers σ s L.worker e σ' (Server.received σ σ' L.worker) :=
    heff.delivers hstand.book hseat'
  -- a step that leaves the count as it is, with a deal out
  have hstep : σ.lastDeal ≠ none → σ'.lastDeal ≠ none →
      (Ledger.Smooth accurate L.ahead (parcels s σ e σ' L.worker) ∧
        Tallies (accurate ∨ L.live = true) S s (Ledger.hearAll L.ahead (parcels s σ e σ' L.worker))
          ((stay s σ e σ' L).up.map Prod.snd)) →
      (Server.received σ σ' L.worker).any SendJob.isDeal = false →
      (stay s σ e σ' L).Sound accurate s σ' S := by
    rintro hd hd' ⟨hsmooth, htally⟩ hnodeal
    refine h.extend hsmooth (fun hn => absurd hn hd') (fun _ => htally.weaken ?_) fun hlive hfirst => ?_
    · rw [hnodeal, Bool.or_false]
      exact id
    rw [← any_parcels] at hlive
    exact (h.first hd hlive hfirst).2
  by_cases htakes : TakesUp s σ e
  · -- a card of the client is refused
    obtain ⟨n, card, rest, rfl, hcards⟩ := hup htakes
    obtain ⟨hpc, hside⟩ := htakes
    have hd : σ.lastDeal ≠ none := fun hn => by
      have hfew := (hstand.dealt.first hn).1
      omega
    have hd' : σ'.lastDeal ≠ none := fun hn => hd (heff.lastDeal_none hn)
    have hbad : ¬ σ.admits n card s := fun hgood => by
      simp [Server.accepts, hpc, hside, hgood] at hnone
    have hreceived := heff.refuses hpc hside hbad hseat
    have hnew : parcels s σ (.playerTricked n card L.worker) σ' L.worker =
        [(.wrong σ.game.trickNo, some (.refused card))] := by
      rw [parcels, hreceived]
      rfl
    refine hstep hd hd' ?_ (by rw [hreceived]; rfl)
    have htally := h.tally hd
    rw [Link.sent, hcards, List.map_cons] at htally
    obtain ⟨hfits, hnext⟩ := htally.refused (n := σ.game.trickNo)
      (hlaid ▸ (stay_crossed hcrossed).2 ⟨hpc, hside⟩)
    rw [hnew]
    have hrest : (stay s σ (.playerTricked n card L.worker) σ' L).up = rest := by
      rw [stay, if_pos (show TakesUp s σ (.playerTricked n card L.worker) from ⟨hpc, hside⟩), hcards]
      rfl
    rw [hrest]
    exact ⟨⟨hfits, trivial⟩, hnext⟩
  · have hsame : (stay s σ e σ' L).up = L.up := by rw [stay, if_neg htakes]
    rw [hsame] at hstep
    generalize hmsgs : Server.received σ σ' L.worker = msgs at hdeals
    cases hdeals with
    | quiet e σ' _ _ _ hdeal =>
        have hnil : parcels s σ e σ' L.worker = [] := by rw [parcels, hmsgs]; rfl
        refine h.extend ?_ ?_ ?_ ?_
        · rw [hnil]
          exact trivial
        · exact fun hn => ⟨hdeal ▸ hn, hnil, by rw [if_neg htakes]⟩
        · intro hd
          rw [hnil, if_neg htakes, hmsgs, List.any_nil, Bool.or_false]
          exact h.tally (hdeal ▸ hd)
        · rw [hnil, hmsgs]
          intro hlive hfirst
          exact h.live (by simpa using hlive) hfirst
    | lobby σ' hfree => rw [hseat] at hfree; cases hfree
    | rejoin deal σ' hfree => rw [hseat] at hfree; cases hfree
    | firstDeal side jx σ' hrole hfree hpc hgame hold hdeal hmine =>
        obtain ⟨hdown, hnoup, hpre, hempty⟩ := h.lobby hold
        have hstart : S.laid s = [] := by
          rw [hstand.kept.fresh hold]
          rfl
        have hahead : L.ahead = (.pre, ⟨0, []⟩) := by rw [Link.ahead, hdown, hpre, hempty]; rfl
        have hfirst : Tallies True S s (.afterFirstDeal, (⟨0, []⟩ : Ledger).deal (σ.game.hands s)) [] := by
          refine .catchingUp 0 (fun _ => rfl) rfl rfl rfl ?_
          rw [hstart, ← hstand.mirrors.game.hands]
          simp [Ledger.deal]
        obtain ⟨hsmooth, htally⟩ := hfirst.prompt (g := σ.game)
          (f := cause s σ (.playerIntro side jx)) hstand.mirrors.sound hstand.mirrors.game.nextMove
        refine h.extend ?_ (fun hn => ?_) (fun _ => ?_) fun _ _ => hstart
        · rw [parcels, hmsgs, hahead]
          exact ⟨⟨rfl, rfl⟩, hsmooth⟩
        · rw [hdeal] at hn
          cases hn
        · rw [parcels, hmsgs, hahead, if_neg htakes, hnoup]
          exact htally.weaken fun _ => trivial
    | resume side jx deal σ' hne _ hrole hfree hpc hgame hold hdeal =>
        refine hstep (by simp [hold]) (by simp [hdeal]) ?_ (by rw [hmsgs]; exact promptFor_isDeal _ _)
        rw [parcels, hmsgs]
        exact (h.tally (by simp [hold])).prompt hstand.mirrors.sound hstand.mirrors.game.nextMove
    | timeout σ' _ hpc hexit hturn hgame hdeal =>
        have hd : σ.lastDeal ≠ none := fun hn => by
          have hfew := (hstand.dealt.first hn).1
          omega
        refine hstep hd (hdeal ▸ hd) ?_ (by rw [hmsgs]; rfl)
        have hprompt : Server.promptFor σ.game s = [σ.game.msgTrick] := if_pos hturn
        rw [parcels, hmsgs, ← hprompt]
        exact (h.tally hd).prompt hstand.mirrors.sound hstand.mirrors.game.nextMove
    | wrong n card jx σ' _ hpc hside => exact absurd ⟨hpc, hside⟩ htakes
    | accepted n card jx side σ' msgs _ hpc hside hgood =>
        simp [Server.accepts, hpc, hside, hgood] at hnone

/-- A side that has laid nothing with the card on the table has laid nothing behind it either. -/
theorem Outcome.laid_nil {side : Side} {card : Card} {g : Game} {msgs : List SendJob}
    (h : Outcome S side card s g S' msgs) (hput : (S.put side card).laid s = []) : S'.laid s = [] := by
  cases h with
  | inTrick => exact hput
  | trickDone => rfl
  | roundDone t r S' a a' _ _ _ hS' => rw [hS']; rfl
  | gameDone t S'' a a' _ _ _ hS' => rw [hS']; rfl

/-- A hand is empty once its last card is on the table. -/
theorem Standing.last_card {side : Side} {card : Card} (h : Standing scenario σ S)
    (hlegal : S.Legal kierki side card) (hfull : (S.put side card).plays.length = 4)
    (hlast : S.done.length + 1 = TRICKS_PER_ROUND) : (S.put side card).hands s = [] := by
  obtain ⟨c, hc⟩ := h.mirrors.sound.laid_full hlegal hfull s
  have hsize := h.mirrors.sound.put_sizes hlegal s
  obtain ⟨i, hi⟩ := h.mirrors.deal
  rw [← length_cardsOf, show cardsOf s (S.put side card).plays = [c] from hc, deal_size hi] at hsize
  rw [← List.length_eq_zero_iff]
  have hone : [c].length = 1 := rfl
  omega

/-- **A card is accepted.** -/
theorem Link.Sound.move {n : Nat} {card : Card} {jx : Nat} {side : Side}
    (h : L.Sound accurate s σ S) (hstand : Standing scenario σ S) (hstand' : Standing scenario σ' S')
    (hpc : 4 ≤ σ.playersConnected) (hside : σ.sideOf jx = some side)
    (hacc : Server.Accepted σ side card σ')
    (hplay : S.play kierki (deals scenario) (side, card) = some S')
    (hseat : σ.activeSides s = some L.worker)
    (hup : side = s → ∃ rest, L.up = (n, card) :: rest)
    (hdeck : accurate → L.live ≠ true → ∀ r ∈ scenario, r.SplitsDeck) :
    (stay s σ (.playerTricked n card jx) σ' L).Sound accurate s σ' S' := by
  have hlegal : S.Legal kierki side card := (State.play_eq_some hplay).1
  have hd : σ.lastDeal ≠ none := fun hn => by
    have hfew := (hstand.dealt.first hn).1
    omega
  obtain ⟨hout, hdeal⟩ := hstand.mirrors.outcome hplay
    (hacc.announces (hstand.book.side_unique hseat))
  have hd' : σ'.lastDeal ≠ none := by
    rcases hdeal with hsome | ⟨hsame, -⟩
    · simp [hsome]
    · rwa [hsame]
  have htally := h.tally hd
  generalize hahead : L.ahead = p at htally
  obtain ⟨stage, l⟩ := p
  -- the card leaves the client's channel, or is somebody else's
  have hput : Tallies (accurate ∨ L.live = true) (S.put side card) s (stage, l)
      ((stay s σ (.playerTricked n card jx) σ' L).up.map Prod.snd) ∧
      (stage = .afterFirstDeal → side ≠ s) := by
    by_cases hmine : side = s
    · subst hmine
      obtain ⟨rest, hrest⟩ := hup rfl
      have hlaid : S.laid side = [] := by
        have hturn : side = S.turn kierki := hlegal.2.1
        rw [hturn]
        exact hstand.mirrors.sound.laid_turn
      rw [Link.sent, hrest, List.map_cons] at htally
      rw [stay, if_pos (show TakesUp side σ (.playerTricked n card jx) from ⟨hpc, hside⟩), hrest]
      refine ⟨htally.own hlaid, fun hstage => ?_⟩
      cases htally with
      | catchingUp _ _ _ _ hnil => cases hnil
      | inStep _ _ hgoing => exact absurd hstage hgoing.2
    · have hother : ¬ TakesUp s σ (.playerTricked n card jx) := fun htakes =>
        hmine (Option.some.inj (hside.symm.trans htakes.2))
      rw [stay, if_neg hother]
      exact ⟨htally.other hmine, fun _ => hmine⟩
  have hone : (S.put side card).plays.length = 4 → ∃ c, (S.put side card).laid s = [c] := fun hfull =>
    hstand.mirrors.sound.laid_full hlegal hfull s
  have hfirst : stage = .afterFirstDeal → L.live = true → (S.put side card).laid s = [] := by
    intro hstage hlive
    have hnone := h.live hlive (by rw [hahead]; exact hstage)
    rw [State.laid_put, hnone, if_neg (hput.2 hstage)]
    rfl
  have hnote : ∀ t, cause s σ (.playerTricked n card jx) (takenMsg t) =
      some (.trickTaken ((S.put side card).hands s)) := by
    intro t
    have hhands : (σ.game.putCard side card).hands s = (S.put side card).hands s := by
      rw [(hstand.mirrors.game.putCard side card).hands]
    simp [cause, takenMsg, hside, hhands]
  have hapart : accurate ∨ L.live = true → (S.put side card).plays.length = 4 →
      stage = .afterFirstDeal → S.deal.Apart := by
    -- a client that is catching up at the end of a trick came too late for it
    intro hor hfull hstage
    have hnotlive : L.live ≠ true := fun hlive => by
      obtain ⟨c, hc⟩ := hone hfull
      rw [hfirst hstage hlive] at hc
      cases hc
    exact hstand.mirrors.apart (hdeck (hor.resolve_right hnotlive) hnotlive)
  obtain ⟨hsmooth, htally'⟩ := hput.1.outcome hout Or.inl hnote hone
    (fun hfull hlast => hstand.last_card hlegal hfull hlast) (hstand.shares.put hlegal.2.2.1) hapart
    hstand'.mirrors.sound hstand'.mirrors.game.nextMove
  refine h.extend ?_ (fun hn => absurd hn hd') (fun _ => ?_) fun hlive hfirst' => ?_
  · rw [hahead]
    exact hsmooth
  · rw [hahead]
    refine htally'.weaken fun hor => ?_
    rw [Bool.or_eq_true] at hor
    exact or_assoc.mpr hor
  · rw [← any_parcels s σ (.playerTricked n card jx)] at hlive
    obtain ⟨hstage, hnone⟩ := h.first hd hlive hfirst'
    rw [hahead] at hstage
    -- the client is catching up, so it has put nothing
    refine hout.laid_nil ?_
    rw [State.laid_put, hnone, if_neg (hput.2 hstage)]
    rfl

variable {fresh : α} {ix : Nat}

/-- The tricks of a round that is already under way. -/
theorem hearAll_taken (l : Ledger) (ts : List (Trick Side Card)) (hlast : l.last = []) :
    Ledger.Smooth accurate (.afterFirstDeal, l) (ts.map fun t => (takenMsg t, none)) ∧
      Ledger.hearAll (.afterFirstDeal, l) (ts.map fun t => (takenMsg t, none)) =
        (.afterFirstDeal, ⟨l.hand - (ts.flatMap Trick.cards : Multiset Card), []⟩) := by
  induction ts generalizing l with
  | nil =>
      refine ⟨trivial, ?_⟩
      simp only [List.map_nil, Ledger.hearAll_nil, List.flatMap_nil, Multiset.coe_nil, tsub_zero]
      rw [← hlast]
  | cons t ts ih =>
      have hear : l.hear .afterFirstDeal (takenMsg t) = l.strike t.cards := by
        simp [takenMsg, Ledger.hear]
      obtain ⟨hsmooth, heq⟩ := ih (l.strike t.cards) hlast
      refine ⟨⟨⟨fun hne => absurd rfl hne, fun hand _ hhand => by cases hhand⟩, ?_⟩, ?_⟩
      · show Ledger.Smooth accurate (.afterFirstDeal, l.hear .afterFirstDeal (takenMsg t)) _
        rw [hear]
        exact hsmooth
      · rw [List.map_cons, Ledger.hearAll_cons]
        show Ledger.hearAll (.afterFirstDeal, l.hear .afterFirstDeal (takenMsg t)) _ = _
        rw [hear, heq]
        simp only [Ledger.strike, List.flatMap_cons, ← Multiset.coe_add]
        rw [tsub_add_eq_tsub_tsub]

omit [Player α] in
/-- What is heard by a client that comes back in mid-round: the deal, the tricks and a prompt. -/
theorem Standing.heard (h : Standing scenario σ S) {deal : TableState} (hdeal : σ.lastDeal = some deal)
    {f : SendJob → Option Cause} (hnote : ∀ msg, f msg = none) :
    Ledger.Smooth accurate (.pre, ⟨0, []⟩) (((σ.game.msgDeal (deal s)) :: σ.game.takenInRound).map
        fun msg => (msg, f msg)) ∧
      Ledger.hearAll (.pre, ⟨0, []⟩) (((σ.game.msgDeal (deal s)) :: σ.game.takenInRound).map
        fun msg => (msg, f msg)) =
          (.afterFirstDeal, ⟨(S.deal.hands s : Multiset Card) -
            (S.done.flatMap Trick.cards : Multiset Card), []⟩) := by
  have htaken : σ.game.takenInRound.map (fun msg => (msg, f msg)) =
      S.done.map fun t => (takenMsg t, none) := by
    rw [h.mirrors.game.takenInRound, List.map_map]
    exact List.map_congr_left fun t _ => by simp [hnote]
  obtain rfl := h.kept.kept deal hdeal
  obtain ⟨hsmooth, heq⟩ := hearAll_taken ⟨(S.deal.hands s : Multiset Card), []⟩ S.done rfl
  rw [List.map_cons, htaken]
  refine ⟨⟨⟨rfl, rfl⟩, hsmooth⟩, ?_⟩
  rw [Ledger.hearAll_cons]
  exact heq

/-- **A client sits down.** -/
theorem Link.Sound.sitDown [LawfulPlayer α] (hfresh : Player.ledger fresh = ⟨0, []⟩)
    (hstand : Standing scenario σ S) (heff : Server.Effect σ e b σ')
    (hfree : σ.activeSides s = none) (hseat' : σ'.activeSides s = some ix)
    (hdeck : accurate → (Session.sitDown fresh s σ e σ' ix).late = true → ∀ r ∈ scenario, r.SplitsDeck) :
    (Session.sitDown fresh s σ e σ' ix).Sound accurate s σ' S := by
  have hdeals : Server.Delivers σ s ix e σ' (Server.received σ σ' ix) := heff.delivers hstand.book hseat'
  have hasked : (Client.new fresh).waitingForCard = true ∨ (Client.new fresh).ledger.last ≠ [] →
      (Client.new fresh).stage.Going := by
    rintro (hwait | hlast)
    · cases hwait
    · exact absurd (by rw [Client.ledger, Client.new, hfresh]) hlast
  have hstart : ((Client.new fresh).stage, (Client.new fresh).ledger) = (.pre, ⟨0, []⟩) := by
    rw [Client.ledger, Client.new, hfresh]
  generalize hmsgs : Server.received σ σ' ix = msgs at hdeals
  cases hdeals with
  | quiet e σ' hseat => rw [hfree] at hseat; cases hseat
  | resume side jx deal σ' hne hseat => rw [hfree] at hseat; cases hseat
  | wrong n card jx σ' hseat => rw [hfree] at hseat; cases hseat
  | timeout σ' hseat => rw [hfree] at hseat; cases hseat
  | accepted n card jx side σ' msgs hseat => rw [hfree] at hseat; cases hseat
  | lobby σ' _ hrole hpc hgame hold hdeal =>
      have hnil : (Session.sitDown fresh s σ (.playerIntro s ix) σ' ix).down = [] := by
        show parcels s σ (.playerIntro s ix) σ' ix = []
        rw [parcels, hmsgs]
        rfl
      refine ⟨?_, hasked, fun _ => ⟨hnil, rfl, rfl, (Prod.mk.inj hstart).2⟩, fun hd => absurd hdeal hd,
        fun _ hfirst => ?_⟩
      · rw [hnil]
        exact trivial
      · rw [hstand.kept.fresh hold]
        rfl
  | firstDeal side jx σ' hrole hfree' hpc hgame hold hdeal hmine =>
      have hempty : S.laid s = [] := by
        rw [hstand.kept.fresh hold]
        rfl
      have hfirst : Tallies True S s (.afterFirstDeal, (⟨0, []⟩ : Ledger).deal (σ.game.hands s)) [] := by
        refine .catchingUp 0 (fun _ => rfl) rfl rfl rfl ?_
        rw [hempty, ← hstand.mirrors.game.hands]
        simp [Ledger.deal]
      obtain ⟨hsmooth, htally⟩ := hfirst.prompt (g := σ.game)
        (f := cause s σ (.playerIntro side jx)) hstand.mirrors.sound hstand.mirrors.game.nextMove
      have hdown : (Session.sitDown fresh s σ (.playerIntro side jx) σ' ix).down =
          (σ.game.msgDeal (σ.game.hands s) :: Server.promptFor σ.game s).map fun msg =>
            (msg, cause s σ (.playerIntro side jx) msg) := by
        show parcels s σ (.playerIntro side jx) σ' ix = _
        rw [parcels, hmsgs]
      refine ⟨?_, hasked, fun hn => ?_, fun _ => ?_, fun _ _ => hempty⟩
      · show Ledger.Smooth accurate ((Client.new fresh).stage, (Client.new fresh).ledger) _
        rw [hdown, hstart]
        exact ⟨⟨rfl, rfl⟩, hsmooth⟩
      · rw [hdeal] at hn
        cases hn
      · rw [Link.ahead, hdown]
        show Tallies _ S s (Ledger.hearAll ((Client.new fresh).stage, (Client.new fresh).ledger) _) []
        rw [hstart]
        exact htally.weaken fun _ => trivial
  | rejoin deal σ' _ hrole hgame hold hdeal =>
      have hlate : (Session.sitDown fresh s σ (.playerIntro s ix) σ' ix).late = true := by
        show σ.lastDeal.isSome = true
        rw [hold]
        rfl
      have hlive : (Session.sitDown fresh s σ (.playerIntro s ix) σ' ix).live ≠ true := by
        show σ.lastDeal.isNone ≠ true
        simp [hold]
      obtain ⟨hsmooth, heq⟩ : Ledger.Smooth accurate _ _ ∧ _ :=
        hstand.heard (s := s) hold (f := cause s σ (.playerIntro s ix)) fun _ => rfl
      have htally : Tallies (accurate ∨ (Session.sitDown fresh s σ (.playerIntro s ix) σ' ix).live = true) S s
          (.afterFirstDeal, ⟨(S.deal.hands s : Multiset Card) -
            (S.done.flatMap Trick.cards : Multiset Card), []⟩) [] := by
        refine .catchingUp ((S.hands s : Multiset Card) + (S.laid s : Multiset Card) -
            ((S.deal.hands s : Multiset Card) - (S.done.flatMap Trick.cards : Multiset Card)))
          (fun hor => ?_) rfl rfl rfl (add_tsub_cancel_of_le (hstand.shares.deal_sub_done_le s))
        have hapart : S.deal.Apart := hstand.mirrors.apart (hdeck (hor.resolve_right hlive) hlate)
        rw [hstand.shares.deal_sub_done hapart, tsub_self]
      have hdown : (Session.sitDown fresh s σ (.playerIntro s ix) σ' ix).down =
          ((σ.game.msgDeal (deal s) :: σ.game.takenInRound).map fun msg =>
            (msg, cause s σ (.playerIntro s ix) msg)) ++
          (if σ.playersConnected + 1 = 4 then Server.promptFor σ.game s else []).map fun msg =>
            (msg, cause s σ (.playerIntro s ix) msg) := by
        show parcels s σ (.playerIntro s ix) σ' ix = _
        rw [parcels, hmsgs, ← List.map_append, List.cons_append]
      -- the prompt, if the table is full
      obtain ⟨hsmooth', htally'⟩ : Ledger.Smooth accurate _ _ ∧ _ := htally.prompt_if (σ.playersConnected + 1 = 4)
        (f := cause s σ (.playerIntro s ix)) hstand.mirrors.sound hstand.mirrors.game.nextMove
      refine ⟨?_, hasked, fun hn => ?_, fun _ => ?_, fun hl => absurd hl hlive⟩
      · show Ledger.Smooth accurate ((Client.new fresh).stage, (Client.new fresh).ledger) _
        rw [hdown, hstart]
        refine Ledger.smooth_append.mpr ⟨hsmooth, ?_⟩
        rw [heq]
        exact hsmooth'
      · rw [hdeal] at hn
        cases hn
      · rw [Link.ahead, hdown, Ledger.hearAll_append]
        show Tallies _ S s (Ledger.hearAll
          (Ledger.hearAll ((Client.new fresh).stage, (Client.new fresh).ledger) _) _) []
        rw [hstart, heq]
        exact htally'

end Calls

section Run

variable {fresh : α} {s : Side} {scenario : GameScenario} {W : Session α} {S S' : CardGame}

/-- **What a seated worker is told**: never that its side is taken, and that a card is wrong only when a card
of its side is refused. -/
theorem Server.Delivers.kinds {scenario : GameScenario} {σ σ' : Server} {S : CardGame} {s : Side} {ix : Nat}
    {e : Server.Call} {msgs : List SendJob} (h : Server.Delivers σ s ix e σ' msgs) (hmirrors : Mirrors scenario σ S) :
    ∀ msg ∈ msgs, msg.kind ≠ .busy ∧ (msg.kind = .wrong → ∃ n card jx, e = .playerTricked n card jx ∧
      4 ≤ σ.playersConnected ∧ σ.sideOf jx = some s ∧ ¬ σ.admits n card s) := by
  intro msg hmsg
  -- a refused card is the one case in which there is something to prove
  have hother : msg.kind ∉ [MsgKind.busy, .wrong] → msg.kind ≠ .busy ∧ (msg.kind = .wrong →
      ∃ n card jx, e = .playerTricked n card jx ∧ 4 ≤ σ.playersConnected ∧ σ.sideOf jx = some s ∧
        ¬ σ.admits n card s) := by
    intro hkind
    simp only [List.mem_cons, List.not_mem_nil, or_false, not_or] at hkind
    exact ⟨hkind.1, fun hwrong => absurd hwrong hkind.2⟩
  have hprompt : ∀ {g : Game}, msg ∈ Server.promptFor g s → msg.kind ∉ [MsgKind.busy, .wrong] := by
    intro g hmem
    obtain ⟨-, rfl⟩ := Server.mem_promptFor.mp hmem
    simp [Game.msgTrick, SendJob.kind]
  cases h with
  | quiet | lobby => cases hmsg
  | firstDeal =>
      rcases List.mem_cons.mp hmsg with rfl | hmem
      · exact hother (by simp [Game.msgDeal, SendJob.kind])
      · exact hother (hprompt hmem)
  | rejoin =>
      rcases List.mem_cons.mp hmsg with rfl | hmem
      · exact hother (by simp [Game.msgDeal, SendJob.kind])
      rcases List.mem_append.mp hmem with htaken | hmem
      · rw [hmirrors.game.takenInRound] at htaken
        obtain ⟨t, -, rfl⟩ := List.mem_map.mp htaken
        exact hother (by simp [takenMsg, SendJob.kind])
      · split at hmem
        · exact hother (hprompt hmem)
        · cases hmem
  | resume => exact hother (hprompt hmsg)
  | wrong n card jx σ' _ hpc hside hbad =>
      obtain rfl := List.mem_singleton.mp hmsg
      exact ⟨by simp [SendJob.kind], fun _ => ⟨n, card, jx, rfl, hpc, hside, hbad⟩⟩
  | timeout =>
      obtain rfl := List.mem_singleton.mp hmsg
      exact hother (by simp [Game.msgTrick, SendJob.kind])
  | accepted n card jx side σ' msgs _ _ _ _ _ hmsgs =>
      cases hmsgs with
      | inTrick => exact hother (hprompt hmsg)
      | trickDone =>
          rcases List.mem_cons.mp hmsg with rfl | hmem
          · exact hother (by simp [Game.msgTaken, SendJob.kind])
          · exact hother (hprompt hmem)
      | roundDone =>
          simp only [List.mem_cons] at hmsg
          rcases hmsg with rfl | rfl | rfl | rfl | hmem
          · exact hother (by simp [Game.msgTaken, SendJob.kind])
          · exact hother (by simp [SendJob.kind])
          · exact hother (by simp [SendJob.kind])
          · exact hother (by simp [Game.msgDeal, SendJob.kind])
          · exact hother (hprompt hmem)
      | gameDone =>
          simp only [List.mem_cons, List.not_mem_nil, or_false] at hmsg
          rcases hmsg with rfl | rfl | rfl
          · exact hother (by simp [Game.msgTaken, SendJob.kind])
          · exact hother (by simp [SendJob.kind])
          · exact hother (by simp [SendJob.kind])

/-- A side that is occupied before and after a call has the same worker. -/
theorem Server.Delivers.same_worker {σ σ' : Server} {ix kx : Nat} {e : Server.Call} {msgs : List SendJob}
    (h : Server.Delivers σ s ix e σ' msgs) (hseat : σ.activeSides s = some kx) : kx = ix := by
  cases h with
  | firstDeal side jx σ' _ hfree _ _ _ _ hmine =>
      have hne : s ≠ side := by
        rintro rfl
        rw [hseat] at hfree
        cases hfree
      rw [if_neg hne] at hmine
      exact Option.some.inj (hseat.symm.trans hmine)
  | lobby _ hfree | rejoin _ _ hfree =>
      rw [hseat] at hfree
      cases hfree
  | quiet _ _ hseat' | resume _ _ _ _ _ hseat' | wrong _ _ _ _ hseat' | timeout _ hseat'
  | accepted _ _ _ _ _ _ hseat' => exact Option.some.inj (hseat.symm.trans hseat')

/-- The link is that of the worker that has the side. -/
theorem Session.Consistent.seated (h : W.Consistent scenario s S) {L : Link α} (hL : W.link = some L) :
    W.server.activeSides s = some L.worker :=
  (h.seat L.worker).mpr ⟨L, hL, rfl⟩

omit [Player α] in
/-- A card that the server takes up is the first one that the client has sent. -/
theorem Session.Allows.offered {n : Nat} {card : Card} {ix : Nat} {L : Link α}
    (h : W.Allows s (.playerTricked n card ix)) (hside : W.server.sideOf ix = some s)
    (hL : W.link = some L) : L.worker = ix ∧ ∃ rest, L.up = (n, card) :: rest := by
  have hhead : (if L.worker = ix then L.up.head? else none) = some (n, card) := by
    have hfirst := h hside
    rwa [hL] at hfirst
  by_cases hix : L.worker = ix
  · rw [if_pos hix] at hhead
    exact ⟨hix, List.head?_eq_some_iff.mp hhead⟩
  · rw [if_neg hix] at hhead
    cases hhead

/-- A call, with a client that stays and with one that sits down. -/
theorem Session.Consistent.relink {e : Server.Call} {b : Bool} {σ' : Server}
    (h : W.Consistent scenario s S) (hbook : W.server.SeatBook) (heff : Server.Effect W.server e b σ')
    (hstay : ∀ L accurate, W.link = some L → L.Sound accurate s W.server S →
      W.server.activeSides s = some L.worker → σ'.activeSides s = some L.worker →
      (L.late = false → L.live = true) → (accurate → L.late = true → ∀ r ∈ scenario, r.SplitsDeck) →
      (stay s W.server e σ' L).crossed = false → (stay s W.server e σ' L).Sound accurate s σ' S')
    (hsit : ∀ ix, W.server.activeSides s = none → σ'.activeSides s = some ix →
      (sitDown fresh s W.server e σ' ix).Sound
        ((sitDown fresh s W.server e σ' ix).late = true → ∀ r ∈ scenario, r.SplitsDeck) s σ' S') :
    Session.Consistent scenario s ⟨σ', W.relink fresh s e σ'⟩ S' := by
  unfold Session.relink
  cases hseat' : σ'.activeSides s with
  | none =>
      refine ⟨fun ix => ?_, fun L hL => (by cases hL), fun L hL => by cases hL⟩
      show σ'.activeSides s = some ix ↔ _
      rw [hseat']
      exact ⟨fun hix => (by cases hix), fun ⟨L, hL, _⟩ => by cases hL⟩
  | some ix =>
      cases hlink : W.link with
      | none =>
          -- without a link the side was free, and its worker has just sat down
          have hfree : W.server.activeSides s = none := by
            rw [Option.eq_none_iff_forall_ne_some]
            intro jx hjx
            obtain ⟨L, hL, -⟩ := (h.seat jx).mp hjx
            rw [hlink] at hL
            cases hL
          refine ⟨fun jx => ?_, ?_, ?_⟩
          · show σ'.activeSides s = some jx ↔ _
            rw [hseat']
            simp [sitDown]
          · rintro _ ⟨⟩ hlate
            have hnone : W.server.lastDeal.isSome = false := hlate
            show W.server.lastDeal.isNone = true
            simpa using hnone
          · rintro _ ⟨⟩ -
            exact hsit ix hfree hseat'
      | some L =>
          have hseat := h.seated hlink
          -- a side that is occupied before and after the call has the same worker
          have hsame : L.worker = ix := (heff.delivers hbook hseat').same_worker hseat
          subst hsame
          refine ⟨fun jx => ?_, ?_, ?_⟩
          · show σ'.activeSides s = some jx ↔ _
            rw [hseat']
            simp [stay]
          · rintro _ ⟨⟩ hlate
            have hlive := h.punctual L hlink hlate
            simp [stay, hlive]
          · rintro _ ⟨⟩ hcrossed
            exact hstay L _ hlink (h.sound L hlink (stay_crossed hcrossed).1) hseat hseat'
              (h.punctual L hlink) id hcrossed

/-- Before anybody sits down. -/
theorem Session.consistent_opened {σ : Server} (hfree : σ.activeSides s = none) :
    (opened σ : Session α).Consistent scenario s S := by
  refine ⟨fun ix => ?_, fun L hL => (by cases hL), fun L hL => by cases hL⟩
  show σ.activeSides s = some ix ↔ _
  rw [hfree]
  exact ⟨fun hix => (by cases hix), fun ⟨L, hL, _⟩ => by cases hL⟩

/-- **A card is accepted.** -/
theorem Session.Consistent.move {n : Nat} {card : Card} {ix : Nat} {b : Bool} {side : Side} {σ' : Server}
    (h : W.Consistent scenario s S) (hstand : Standing scenario W.server S) (hstand' : Standing scenario σ' S')
    (hallows : W.Allows s (.playerTricked n card ix))
    (heff : Server.Effect W.server (.playerTricked n card ix) b σ') (hpc : 4 ≤ W.server.playersConnected)
    (hside : W.server.sideOf ix = some side) (hacc : Server.Accepted W.server side card σ')
    (hplay : S.play kierki (deals scenario) (side, card) = some S') :
    Session.Consistent scenario s ⟨σ', W.relink fresh s (.playerTricked n card ix) σ'⟩ S' := by
  refine h.relink hstand.book heff ?_ ?_
  · intro L _ hL hsound hseat _ hlate hdeck _
    refine hsound.move hstand hstand' hpc hside hacc hplay hseat ?_ fun ha hlive => hdeck ha ?_
    · rintro rfl
      exact (hallows.offered hside hL).2
    · exact (Bool.eq_false_or_eq_true L.late).resolve_right fun hl => hlive (hlate hl)
  · -- nobody sits down when a card is accepted
    intro jx hfree
    obtain ⟨kx, hkx⟩ := hstand.book.full hpc s
    rw [hfree] at hkx
    cases hkx

/-- The client goes on by itself. -/
theorem Session.Consistent.goOn {L : Link α} {client : Client α} {down : List Parcel} {up : List (Nat × Card)}
    (h : W.Consistent scenario s S) (hL : W.link = some L)
    (hsound : ∀ accurate, L.Sound accurate s W.server S →
      Link.Sound accurate s W.server S { L with client := client, down := down, up := up }) :
    Session.Consistent scenario s
      { W with link := some { L with client := client, down := down, up := up } } S := by
  refine ⟨fun ix => ?_, ?_, ?_⟩
  · rw [h.seat]
    simp [hL]
  · rintro _ ⟨⟩
    exact h.punctual L hL
  · rintro _ ⟨⟩ hcrossed
    exact hsound _ (h.sound L hL hcrossed)

variable [LawfulPlayer α]

/-- **A call that accepts nothing.** -/
theorem Session.Consistent.quiet {e : Server.Call} {b : Bool} {σ' : Server} (h : W.Consistent scenario s S)
    (hfresh : Player.ledger fresh = ⟨0, []⟩) (hstand : Standing scenario W.server S) (hallows : W.Allows s e)
    (heff : Server.Effect W.server e b σ') (hnone : W.server.accepts e = none) :
    Session.Consistent scenario s ⟨σ', W.relink fresh s e σ'⟩ S := by
  refine h.relink hstand.book heff ?_ ?_
  · intro L _ hL hsound hseat hseat' _ _ hcrossed
    refine hsound.quiet hstand heff hnone hseat hseat' (fun htakes => ?_) hcrossed
    cases e with
    | playerTricked n card ix =>
        obtain ⟨rfl, rest, hup⟩ := hallows.offered htakes.2 hL
        exact ⟨n, card, rest, rfl, hup⟩
    | _ => cases htakes
  · intro ix hfree hseat'
    exact Link.Sound.sitDown hfresh hstand heff hfree hseat' id

/-- **A client never loses count**: in every run, whatever its user types, as long as no card of it crosses
another one. -/
theorem Session.consistent_run {W₀ : Session α} {evs : List Session.Event}
    (hfresh : Player.ledger fresh = ⟨0, []⟩) (hstand₀ : Standing scenario W₀.server S)
    (hW₀ : W₀.Consistent scenario s S) (h : exec (Session.step fresh s) W₀ evs = some W) :
    ∃ S', Standing scenario W.server S' ∧ W.Consistent scenario s S' := by
  refine Session.run_induction (P := fun _ W S => W.Consistent scenario s S) hstand₀ hW₀ ?_ ?_ ?_ ?_ h
  · intro evs W e b σ' S _ hstand _ hW _ hallows heff hnone _
    exact hW.quiet hfresh hstand hallows heff hnone
  · intro evs W n card ix b σ' side S S' _ hstand hstand' hW _ hallows heff hpc hside _ hacc hplay
    exact hW.move hstand hstand' hallows heff hpc hside hacc hplay
  · intro evs W L msg cause down client out S _ _ hW _ hL hdown hrecv
    exact hW.goOn hL fun _ hsound => hsound.receive hdown hrecv
  · intro evs W L cmd client out S _ _ hW _ hL hcommand
    exact hW.goOn hL fun _ hsound => hsound.command hcommand

end Run

end Kierki
