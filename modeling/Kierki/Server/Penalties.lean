import Kierki.Library.Progress
import Kierki.Server.Scores

/-!
# Conservation of penalties

A round that splits the deck hands out the same number of points whoever takes the tricks.  The price
of a trick is a count of cards, a constant, or a matter of its number; over the thirteen tricks of a
round the cards are the deck and the numbers are `1` to `13`, so the sum is the `stake` of the mode.
-/

namespace Kierki

open TrickGame

/-- What the four sides pay together in a round. -/
def stake : RoundType → Nat
  | .trickPenalty => 13
  | .heartPenalty => 13
  | .queenPenalty => 20
  | .kingJackPenalty => 16
  | .heartKingPenalty => 18
  | .seventhLastTrickPenalty => 20
  | .everything => 100

section Prices

variable {tricks : List (Trick Side Card)}

/-- A price per card adds up to the price of the cards in the deck. -/
theorem sum_countP (hdeck : ((tricks.flatMap Trick.cards : List Card) : Multiset Card) = deck)
    (val : Nat) (cond : Card → Bool) :
    (tricks.map fun t => val * t.cards.countP cond).sum = val * deck.countP fun c => cond c := by
  rw [List.sum_map_mul_left]
  congr 1
  rw [← hdeck, Multiset.coe_countP]
  simp [List.countP_flatMap, Function.comp_def]

/-- A price of the number adds up to the prices of the numbers from one to thirteen. -/
theorem sum_numbers (hnumbers : tricks.map Trick.number = List.range' 1 TRICKS_PER_ROUND)
    (price : Nat → Nat) :
    (tricks.map fun t => price t.number).sum = ((List.range' 1 TRICKS_PER_ROUND).map price).sum := by
  rw [← hnumbers, List.map_map]
  rfl

/-- **The price of a round** depends on its mode only. -/
theorem sum_price (hdeck : ((tricks.flatMap Trick.cards : List Card) : Multiset Card) = deck)
    (hnumbers : tricks.map Trick.number = List.range' 1 TRICKS_PER_ROUND) (mode : RoundType) :
    (tricks.map fun t => price mode t.number t.cards).sum = stake mode := by
  have htrick : (tricks.map fun t => price .trickPenalty t.number t.cards).sum = 13 :=
    sum_numbers hnumbers fun _ => 1
  have hlast : (tricks.map fun t => price .seventhLastTrickPenalty t.number t.cards).sum = 20 :=
    sum_numbers hnumbers costOfNumber
  have hheart : (tricks.map fun t => price .heartPenalty t.number t.cards).sum = 13 := by
    have hcount : _ = 13 := (sum_countP hdeck 1 fun c => c.col = .colorH).trans (by decide +kernel)
    simp only [Nat.one_mul] at hcount
    exact hcount
  have hqueen : (tricks.map fun t => price .queenPenalty t.number t.cards).sum = 20 :=
    (sum_countP hdeck 5 fun c => c.value = .Q).trans (by decide +kernel)
  have hjack : (tricks.map fun t => price .kingJackPenalty t.number t.cards).sum = 16 :=
    (sum_countP hdeck 2 fun c => c.value = .K ∨ c.value = .J).trans (by decide +kernel)
  have hking : (tricks.map fun t => price .heartKingPenalty t.number t.cards).sum = 18 :=
    (sum_countP hdeck 18 (· == ⟨.K, .colorH⟩)).trans (by decide +kernel)
  cases mode with
  | trickPenalty => exact htrick
  | heartPenalty => exact hheart
  | queenPenalty => exact hqueen
  | kingJackPenalty => exact hjack
  | heartKingPenalty => exact hking
  | seventhLastTrickPenalty => exact hlast
  | everything =>
      -- the round of everything is the six others at once
      simp only [price_everything, List.sum_map_add, htrick, hlast, hheart, hqueen, hjack, hking]
      rfl

end Prices

/-- The thirteenth trick has just been taken: the four sides pay the stake of the mode. -/
theorem sum_points_stake {d : List (Deal Side Card RoundType)} {T : CardGame}
    (hsound : State.Sound kierki d T) (hcons : T.Conserves) (hdone : T.done.length = TRICKS_PER_ROUND)
    (hplays : T.plays = []) {r : Round} (hdeal : T.deal = r.toDeal) (hdeck : r.SplitsDeck) :
    ∑ s, kierki.points r.mode T.done s = stake r.mode := by
  have hhands : ∀ s, T.hands s = [] := by
    intro s
    have hsize := hsound.sizes s
    have hdealt : (T.deal.hands s).length = TRICKS_PER_ROUND := by
      rw [hdeal]
      exact r.dealt s
    exact List.length_eq_zero_iff.mp (by omega)
  have hcards := hcons.tricks_eq_deal hhands hplays
  rw [hdeal] at hcards
  have hnumbers := hsound.course.numbers
  rw [hdone] at hnumbers
  rw [Rules.sum_points]
  exact sum_price (hcards.trans hdeck) hnumbers r.mode

section Bounds

/-- Each card of a trick counts at most once for each rule. -/
theorem price_le (mode : RoundType) (n : Nat) (cards : List Card) : price mode n cards ≤ 11 + 26 * cards.length := by
  have hheart : costOfHearts cards ≤ cards.length := List.countP_le_length
  have hqueen : costOfQueens cards ≤ 5 * cards.length := Nat.mul_le_mul_left 5 List.countP_le_length
  have hjack : costOfKingsAndJacks cards ≤ 2 * cards.length := Nat.mul_le_mul_left 2 List.countP_le_length
  have hking : costOfKingOfHearts cards ≤ 18 * cards.length := Nat.mul_le_mul_left 18 List.countP_le_length
  have hnumber : costOfNumber n ≤ 10 := by
    unfold costOfNumber
    split <;> simp
  cases mode <;> simp only [price] <;> omega

/-- The tricks of a round, or of a part of it, cost 115 points each at most. -/
theorem points_course_le {leader : Side} {tricks : List (Trick Side Card)} (h : Course kierki 1 leader tricks)
    (mode : RoundType) (s : Side) : kierki.points mode tricks s ≤ tricks.length * 115 := by
  refine kierki.points_le (fun t ht => ?_) s
  obtain ⟨first, hfair⟩ := h.fair kierki ht
  have hfour : t.cards.length = 4 := by
    have hlen := congrArg List.length hfair.order
    rw [List.length_map, List.length_iterate] at hlen
    rw [Trick.cards, List.length_map]
    exact hlen
  have hle := price_le mode t.number t.cards
  rw [hfour] at hle
  exact hle

variable {scenario : GameScenario} {σ : Server} {S : CardGame}

/-- What the server has in its two maps for a side. -/
theorem Mirrors.points_le (h : Mirrors scenario σ S) (s : Side) :
    σ.game.penaltiesRound.value s ≤ 1495 ∧ σ.game.penalties.value s ≤ σ.game.roundNumber * 1495 := by
  constructor
  · rw [h.game.value, State.roundPoints]
    cases hclosed : S.closed with
    | true => exact Nat.zero_le _
    | false =>
        have hround := points_course_le h.sound.course S.deal.mode s
        have hdone : S.done.length < 13 := h.unfinished hclosed
        rw [if_neg (by simp)]
        omega
  · have hsum := List.sum_le_card_nsmul (S.past.map fun r => kierki.points r.deal.mode r.tricks s) 1495 fun x hx => by
      obtain ⟨r, hr, rfl⟩ := List.mem_map.mp hx
      obtain ⟨i, hi⟩ := List.mem_iff_getElem?.mp hr
      obtain ⟨-, hlen, hcourse⟩ := h.sound.past i r hi
      have hround := points_course_le hcourse r.deal.mode s
      rw [hlen] at hround
      exact hround
    rw [List.length_map, smul_eq_mul] at hsum
    rw [ScoreMap.value, h.game.penalties, Option.getD_some, h.game.roundNumber]
    exact hsum

end Bounds

namespace Server

open IOWorkerMgr

/-- A `SCORE` is about the round that the accepted card has finished. -/
theorem Accepted.score {scenario : GameScenario} {σ σ' : Server} {S : CardGame} {side : Side}
    {card : Card} (h : Accepted σ side card σ') (hmirrors : Mirrors scenario σ S)
    (hlegal : S.Legal kierki side card) {ix : Nat} {l : List (Side × Nat)}
    (hmsg : (ix, .score l) ∈ mailed σ σ') :
    ((S.put side card).collect kierki).done.length = TRICKS_PER_ROUND ∧
      kierki.seats ≤ (S.put side card).plays.length ∧
      Lists l (kierki.points S.deal.mode ((S.put side card).collect kierki).done) := by
  have hput : Matches (σ.game.putCard side card) (S.put side card) := hmirrors.game.putCard side card
  have hfull : (σ.game.putCard side card).table.length = 4 →
      kierki.seats ≤ (S.put side card).plays.length := by
    intro hlen
    rw [hput.table, List.length_map] at hlen
    exact hlen.ge
  -- the message is in the list of one of the outcomes, and there only among the scores
  have hjobs : ∀ {jobs : List (Option Nat × SendJob)} {out : List (Nat × SendJob)},
      Addressed jobs out → (ix, SendJob.score l) ∈ out → (some ix, SendJob.score l) ∈ jobs :=
    fun haddr => (haddr.mem_iff ix _).mp
  have hentries : (σ.game.putCard side card).table.length = 4 →
      (σ.game.putCard side card).takeTrick.trickNo = TRICKS_PER_ROUND + 1 →
      (some ix, SendJob.score l) ∈
        σ.scoreJobs (σ.game.putCard side card).takeTrick.updatePenalties →
      ((S.put side card).collect kierki).done.length = TRICKS_PER_ROUND ∧
        kierki.seats ≤ (S.put side card).plays.length ∧
        Lists l (kierki.points S.deal.mode ((S.put side card).collect kierki).done) := by
    intro hlen hno hmem
    have htrick := hput.takeTrick hlen hlegal.1 (hmirrors.sound.put_order hlegal)
    refine ⟨?_, hfull hlen, ?_⟩
    · rw [htrick.trickNo] at hno
      omega
    · rcases mem_scoreJobs hmem with heq | heq
      · rw [SendJob.score.inj heq]
        refine lists_entries fun s => ?_
        have hopen : ((S.put side card).collect kierki).closed = false := hlegal.1
        rw [(updatePenalties_find? _ s).1, htrick.value, State.roundPoints, hopen]
        rfl
      · cases heq
  cases h with
  | inTrick g mgr out hg _ hpost haddr =>
      rw [mailed_eq hpost.sent] at hmsg
      cases mem_promptJobs (hjobs haddr hmsg)
  | trickDone g₀ g mgr out hg₀ hlen hg hno hpost haddr =>
      rw [mailed_eq hpost.sent] at hmsg
      rcases List.mem_append.mp (hjobs haddr hmsg) with hmem | hmem
      · cases mem_toAll hmem
      · cases mem_promptJobs hmem
  | roundDone g₀ g₁ g r mgr out hg₀ hlen hg₁ hno hlast hr hg hpost haddr =>
      subst hg₀ hg₁
      rw [mailed_eq hpost.sent] at hmsg
      rcases List.mem_append.mp (hjobs haddr hmsg) with hmem | hmem
      · cases mem_toAll hmem
      rcases List.mem_append.mp hmem with hmem | hmem
      · exact hentries hlen hno hmem
      rcases List.mem_append.mp hmem with hmem | hmem
      · obtain ⟨s, hs⟩ := mem_dealJobs hmem
        cases hs
      · cases mem_promptJobs hmem
  | gameDone g₀ g₁ g mgr out σ' hg₀ hlen hg₁ hno hlast hg hpost haddr hfin =>
      subst hg₀ hg₁
      rw [mailed_eq (hfin.frame.2.2.trans hpost.sent)] at hmsg
      rcases List.mem_append.mp (hjobs haddr hmsg) with hmem | hmem
      · cases mem_toAll hmem
      · exact hentries hlen hno hmem

/-- **Conservation of penalties.**  Whenever a `SCORE` goes out, in any run, it lists each of the four
sides once, and if the deal of the round splits the deck the four entries add up to the stake of its
mode. -/
theorem penalties_conserved {scenario : GameScenario} {timeout : Int} {es : List Call}
    {σ σ' : Server} {e : Call} (h : run scenario timeout es = some σ) (hstep : σ.step e = some σ')
    {ix : Nat} {l : List (Side × Nat)} (hmsg : (ix, .score l) ∈ mailed σ σ') :
    ∃ r, scenario[σ.game.roundNumber]? = some r ∧ (l.map Prod.fst).Perm Side.sides_ ∧
      (r.SplitsDeck → ∑ s, amount l s = stake r.mode) := by
  obtain ⟨S, hmirrors, -⟩ := run_history h
  obtain ⟨b, heff⟩ := step_effect hstep
  rcases heff.accepts_cases with ⟨hnone, -⟩ | ⟨n, card, jx, side, rfl, haccept, -, -, hgood, hacc⟩
  · -- a call that accepts no card announces no result
    exfalso
    obtain ⟨out, hsent, hout⟩ := heff.emits fun n card ix side _ hgood => hmirrors.trickNo_ne hgood
    rw [mailed_eq hsent] at hmsg
    have hemits := hout _ hmsg
    generalize hm : (SendJob.score l) = msg at hemits
    cases hemits with
    | takenAgain _ _ _ _ htaken =>
        rw [hmirrors.game.takenInRound] at htaken
        obtain ⟨t, -, ht⟩ := List.mem_map.mp htaken
        cases hm.trans ht.symm
    | score _ _ _ _ _ _ haccept =>
        rw [hnone] at haccept
        cases haccept
    | _ => cases hm
  · have hlegal := (hmirrors.legal_iff side card).mpr ⟨hgood.2.1, hgood.2.2⟩
    obtain ⟨hdone, hfull, hlists⟩ := hacc.score hmirrors hlegal hmsg
    obtain ⟨r, hr, hdeal⟩ := deals_getElem?_eq_some.mp (hmirrors.sound.live hlegal.1)
    refine ⟨r, by rw [hmirrors.game.roundNumber]; exact hr, hlists.1, fun hdeck => ?_⟩
    rw [Finset.sum_congr rfl fun s _ => hlists.amount_eq s, ← hdeal]
    exact sum_points_stake (hmirrors.sound.collect hlegal hfull)
      (hmirrors.conserves.put hlegal.2.2.1).collect hdone rfl hdeal.symm hdeck

/-- **The maps of the source hold an `int`** for each side, and no run comes near its end: the points of a round stay
below 1500, so that it takes more than 1436000 rounds to leave the range. -/
theorem totals_int {scenario : GameScenario} {timeout : Int} {es : List Call} {σ : Server}
    (h : run scenario timeout es = some σ) (hlen : scenario.length ≤ 1436000) (s : Side) :
    σ.game.penaltiesRound.value s < 2 ^ 31 ∧ σ.game.penalties.value s < 2 ^ 31 := by
  obtain ⟨S, hmirrors, -⟩ := run_history h
  obtain ⟨hround, htotal⟩ := hmirrors.points_le s
  have hin : σ.game.roundNumber ≤ scenario.length := by
    have hle := hmirrors.sound.past_le
    rwa [← hmirrors.game.roundNumber, deals, List.length_map] at hle
  constructor <;> omega

theorem penalties_conserved_lastCard :
    ∃ σ σ' l, run [suitRound] 5 wholeRound.dropLast = some σ ∧
      σ.step (.playerTricked 13 ⟨.A, .colorS⟩ 4) = some σ' ∧ (1, .score l) ∈ mailed σ σ' ∧
      (l.map Prod.fst).Perm Side.sides_ ∧ ∑ s, amount l s = 13 := by
  have hfacts : ((run [suitRound] 5 wholeRound.dropLast).bind fun σ =>
      (σ.step (.playerTricked 13 ⟨.A, .colorS⟩ 4)).map fun σ' => (σ.game.roundNumber,
        decide ((1, .score [(.E, 0), (.W, 0), (.S, 0), (.N, 13)]) ∈ mailed σ σ'))) =
      some (0, true) := by
    decide +kernel
  obtain ⟨σ, hσ, hnext⟩ := Option.bind_eq_some_iff.mp hfacts
  obtain ⟨σ', hσ', heq⟩ := Option.map_eq_some_iff.mp hnext
  obtain ⟨hround, hmem⟩ := Prod.mk.inj heq
  have hmsg := of_decide_eq_true hmem
  obtain ⟨r, hr, hsides, hsum⟩ := penalties_conserved hσ hσ' hmsg
  rw [hround] at hr
  obtain rfl : suitRound = r := Option.some.inj hr
  exact ⟨σ, σ', _, hσ, hσ', hmsg, hsides, hsum (by decide +kernel)⟩

end Server

end Kierki
