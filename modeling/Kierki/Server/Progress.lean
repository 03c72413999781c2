import Kierki.Library.Progress
import Kierki.Server.Deals

/-!
# What a `TRICK` can come to

A card that is offered for a seat is accepted by the rules or refused without a trace, and the accepted
cards bring the game to its end: there is always a legal one, each leaves one card fewer to be played, and
with the last one the server calls `finalize`.
-/

namespace Kierki

open Fallible TrickGame

/-- Four sides put four cards to a trick. -/
theorem sum_count (seats : List Side) : ∑ s, seats.count s = seats.length := by
  have hcount := Multiset.sum_count_eq_card (m := (seats : Multiset Side)) fun s _ => Finset.mem_univ s
  simpa using hcount

namespace Server

/-- The cards that are still to be played: those in the hands, and the deals to come. -/
def cardsLeft (σ : Server) : Nat :=
  ∑ s, (σ.game.hands s).length + 52 * (σ.gameScenario.length - (σ.game.roundNumber + 1))

end Server

section Counting

variable {scenario : GameScenario} {σ σ' : Server} {S S' : CardGame}

/-- The cards of a round, wherever they are. -/
theorem Mirrors.hands_size (h : Mirrors scenario σ S) :
    ∑ s, (σ.game.hands s).length + 4 * S.done.length + S.plays.length = 52 := by
  have hall : ∑ s, ((S.hands s).length + S.done.length + (S.plays.map Play.seat).count s) = 52 := by
    rw [Finset.sum_congr rfl fun s _ => h.hand_size s]
    rfl
  rw [Finset.sum_add_distrib, Finset.sum_add_distrib, sum_count, List.length_map] at hall
  rw [h.game.hands, ← hall]
  simp [show Fintype.card Side = 4 from rfl]

theorem Mirrors.closed_iff (h : Mirrors scenario σ S) :
    S.closed = true ↔ σ.game.roundNumber = scenario.length := by
  rw [h.sound.closed_iff, h.game.roundNumber, deals, List.length_map]

/-- **Every card is played once**: the cards put so far and those left make up all deals. -/
theorem Mirrors.cardsLeft (h : Mirrors scenario σ S) :
    S.history.length + σ.cardsLeft = 52 * scenario.length := by
  have hsize := h.hands_size
  have hle := h.sound.past_le
  rw [h.sound.history_length, State.taken, Server.cardsLeft, h.scenario_eq, h.game.roundNumber]
  rw [deals, List.length_map] at hle
  have hsizes : kierki.size = 13 ∧ kierki.seats = 4 := ⟨rfl, rfl⟩
  rw [hsizes.1, hsizes.2]
  cases hclosed : S.closed with
  | true =>
      obtain ⟨hplays, hdone, -⟩ := h.sound.ended hclosed
      have hover := h.closed_iff.mp hclosed
      rw [h.game.roundNumber] at hover
      rw [hplays, hdone, hsizes.1, List.length_nil] at hsize
      simp only [if_true, hplays, List.length_nil]
      omega
  | false =>
      have hnot : S.past.length ≠ scenario.length := by
        intro heq
        rw [← h.game.roundNumber] at heq
        rw [h.closed_iff.mpr heq] at hclosed
        cases hclosed
      simp only [Bool.false_eq_true, if_false]
      omega

/-- **The player to move can put a card.** -/
theorem Mirrors.exists_legal (h : Mirrors scenario σ S) (hopen : σ.game.roundNumber ≠ scenario.length) :
    ∃ card ∈ σ.game.hands σ.game.nextMove,
      GameRules.isMoveLegal σ.game.nextMove card σ.game.hands σ.game.table = true := by
  have hlive : S.closed = false := by
    cases hclosed : S.closed with
    | false => rfl
    | true => exact absurd (h.closed_iff.mp hclosed) hopen
  obtain ⟨i, hi⟩ := h.deal
  obtain ⟨card, hlegal⟩ := h.sound.exists_legal h.unfinished hlive (deal_size hi _)
  obtain ⟨-, hgood⟩ := (h.legal_iff _ card).mp hlegal
  rw [← h.game.nextMove] at hgood
  exact ⟨card, (GameRules.isMoveLegal_iff.mp hgood).1, hgood⟩

/-- When the game is over, no card is admitted any more. -/
theorem Mirrors.over (h : Mirrors scenario σ S) (hover : σ.game.roundNumber = scenario.length) (n : Nat)
    (card : Card) (side : Side) : ¬ σ.admits n card side := by
  rintro ⟨-, hlegal⟩
  have hopen := ((h.legal_iff side card).mpr hlegal).1
  rw [h.closed_iff.mpr hover] at hopen
  cases hopen

/-- After the last card, and after no other one, the server calls `finalize`. -/
theorem Server.Accepted.exiting_cases {side : Side} {card : Card} (h : Server.Accepted σ side card σ')
    (hopen : σ.game.roundNumber ≠ σ.gameScenario.length) :
    (σ'.game.roundNumber ≠ σ.gameScenario.length ∧ σ'.exiting = σ.exiting) ∨
      (σ'.game.roundNumber = σ.gameScenario.length ∧ σ'.exiting = true) := by
  cases h with
  | inTrick g mgr out hg => exact .inl ⟨by rwa [hg], rfl⟩
  | trickDone g₀ g mgr out hg₀ _ hg => exact .inl ⟨by rwa [hg, hg₀], rfl⟩
  | roundDone g₀ g₁ g r mgr out _ _ _ _ hlast _ hg => exact .inl ⟨by rwa [hg], rfl⟩
  | gameDone g₀ g₁ g mgr out σ' _ _ _ _ hlast hg _ _ hfin =>
      refine .inr ⟨?_, ?_⟩
      · rw [hfin.frame.1, hg]
        exact hlast
      · exact hfin.rest.2.2

end Counting

namespace Server

section Faults

variable {σ : Server} {f : Fault}

/-- `sendJob` can only miss its addressee. -/
theorem sendJobs_error {jobs : List (Option Nat × SendJob)} (h : σ.sendJobs jobs = .error f) :
    f = .sendJobTarget := by
  have hloop : ∀ (jobs : List (Option Nat × SendJob)) (m : IOWorkerMgr),
      jobs.foldlM (fun m p => m.sendJob p.2 p.1) m = .error f → f = .sendJobTarget := by
    intro jobs
    induction jobs with
    | nil => exact fun m h => by cases h
    | cons p rest ih =>
        intro m h
        rw [List.foldlM_cons, bind_eq_error] at h
        rcases h with h | ⟨m₁, -, h⟩
        · simp only [IOWorkerMgr.sendJob, bind_eq_error, require_eq_error] at h
          rcases h with ⟨-, rfl⟩ | ⟨ix, -, ⟨-, rfl⟩ | ⟨q, -, h⟩⟩
          · rfl
          · rfl
          · cases h
        · exact ih m₁ h
  rw [sendJobs, bind_eq_error] at h
  rcases h with h | ⟨mgr, -, h⟩
  · exact hloop jobs σ.workerMgr h
  · cases h

/-- With a round to come, `prepareRound` finds it. -/
theorem roundEnded_error (hin : σ.game.roundNumber < σ.gameScenario.length)
    (h : σ.roundEnded = .error f) : f = .sendJobTarget := by
  have hnumber : σ.game.updatePenalties.leaveRound.roundNumber = σ.game.roundNumber + 1 :=
    (leaveRound_sameBoard σ.game).roundNumber
  unfold roundEnded at h
  rcases bind_eq_error.mp h with h | ⟨σ₁, hσ₁, h⟩
  · exact sendJobs_error h
  · obtain ⟨mgr, out, rfl, -, -⟩ := sendJobs_eq_ok hσ₁
    by_cases hlast : σ.game.updatePenalties.leaveRound.roundNumber = σ.gameScenario.length
    · rw [if_pos hlast] at h
      rcases bind_eq_error.mp h with h | ⟨σ₂, -, h⟩
      · obtain ⟨σ₂, hσ₂⟩ := finalize_ok { σ with
          game := σ.game.updatePenalties.leaveRound
          workerMgr := mgr }
        exact absurd (h.symm.trans hσ₂) (by simp)
      · cases h
    · rw [if_neg hlast] at h
      rcases bind_eq_error.mp h with h | ⟨g, -, h⟩
      · -- the next round is in the scenario
        exfalso
        unfold Game.prepareRound at h
        rcases bind_eq_error.mp h with h | ⟨r, -, h⟩
        · have hnone := List.getElem?_eq_none_iff.mp (require_eq_error.mp h).1
          rw [hnumber] at hlast
          have hout : σ.gameScenario.length ≤ σ.game.roundNumber + 1 := by rwa [← hnumber]
          omega
        · cases h
      · rcases bind_eq_error.mp h with h | ⟨σ₂, -, h⟩
        · exact sendJobs_error h
        · cases h

/-- A card that is offered while there is a round can only miss an addressee. -/
theorem offerCard_error {n : Nat} {card : Card} {side : Side}
    (hin : σ.admits n card side → σ.game.roundNumber < σ.gameScenario.length)
    (h : σ.offerCard n card side = .error f) : f = .sendJobTarget := by
  unfold offerCard at h
  by_cases hturn : n ≠ σ.game.trickNo ∨ σ.game.nextMove ≠ side
  · rw [if_pos hturn] at h
    exact sendJobs_error h
  rw [if_neg hturn] at h
  by_cases hlegal : GameRules.isMoveLegal side card σ.game.hands σ.game.table = false
  · rw [if_pos hlegal] at h
    exact sendJobs_error h
  rw [if_neg hlegal] at h
  simp only [not_or, not_not] at hturn
  have hround := hin ⟨hturn.1, hturn.2, by simpa using hlegal⟩
  by_cases hlen : (σ.game.putCard side card).table.length = 4
  · rw [if_pos hlen] at h
    rcases bind_eq_error.mp h with h | ⟨p, -, h⟩
    · unfold trickEnded at h
      rcases bind_eq_error.mp h with h | ⟨σ₁, hσ₁, h⟩
      · exact sendJobs_error h
      · obtain ⟨mgr, out, rfl, -, -⟩ := sendJobs_eq_ok hσ₁
        split at h
        · refine roundEnded_error ?_ h
          exact hround
        · cases h
    · obtain ⟨done, σ₁⟩ := p
      cases done with
      | true => cases h
      | false => exact sendJobs_error h
  · rw [if_neg hlen, ok_bind] at h
    exact sendJobs_error h

/-- `gameScenario[roundNumber]` stays in bounds as long as cards are admitted only in a round. -/
theorem playerTricked_ne_scenarioIndex {n : Nat} {card : Card} {ix : Nat}
    (hin : ∀ side, σ.admits n card side → σ.game.roundNumber < σ.gameScenario.length) :
    σ.playerTricked n card ix ≠ .error .scenarioIndex := by
  have hrole (role : WorkerStatus) : σ.workerMgr.setRole ix role ≠ .error .scenarioIndex := by
    unfold IOWorkerMgr.setRole
    split <;> simp
  -- only the end of a round looks up the next one
  have hoffer (side : Side) : σ.offerCard n card side ≠ .error .scenarioIndex := by
    intro h
    have heq := offerCard_error (hin side) h
    cases heq
  unfold playerTricked
  by_cases hpc : σ.playersConnected < 4
  · simp [hpc]
  rw [if_neg hpc]
  apply bind_ne_error (by simp [IOWorkerMgr.getRole])
  intro role _
  cases role with
  | servingUnknown =>
      apply bind_ne_error (hrole _)
      intro mgr _
      apply bind_ne_error
      · exact bind_ne_error (by simp) fun _ _ => by simp [pure_eq]
      · simp [pure_eq]
  | servingActive | cleanup =>
      apply bind_ne_error (by simp)
      intro side _
      exact bind_ne_error (hoffer side) fun _ _ => by simp [pure_eq]
  | servingProxy =>
      apply bind_ne_error (hrole _)
      intro mgr _
      obtain ⟨σ', hσ'⟩ := finalize_ok { σ with workerMgr := mgr }
      apply bind_ne_error (by simp [hσ'])
      simp [pure_eq]
  | cleanupUnknown | shutdown => simp [pure_eq]

end Faults

/-- After every run the game has as many cards on record as were accepted. -/
theorem run_counted {scenario : GameScenario} {timeout : Int} {es : List Call} {σ : Server}
    (h : run scenario timeout es = some σ) :
    ∃ S, Mirrors scenario σ S ∧ S.history.length = (moves scenario timeout es).length := by
  refine reference_induction (P := fun es _ S => S.history.length = (moves scenario timeout es).length)
    (fun r _ => ?_) (fun es σ e b σ' S hrun hrun' _ hP _ hnone => ?_)
    (fun es σ e b σ' S S' m hrun hrun' _ hP _ haccept hplay _ => ?_) h
  · simp [moves, State.history, State.tricks, State.start]
  · simpa [moves_concat hrun hrun', hnone] using hP
  · rw [moves_concat hrun hrun', haccept, State.play_history hplay, List.length_append,
      List.length_append, hP]
    rfl

/-- The game is over when the cards of all rounds have been accepted. -/
theorem run_over_iff {scenario : GameScenario} {timeout : Int} {es : List Call} {σ : Server}
    (h : run scenario timeout es = some σ) :
    σ.game.roundNumber = scenario.length ↔ (moves scenario timeout es).length = 52 * scenario.length := by
  obtain ⟨S, hmirrors, hcount⟩ := run_counted h
  have hend := (hmirrors.sound.history_le hmirrors.unfinished).2
  have hall : (deals scenario).length * kierki.size * kierki.seats = 52 * scenario.length := by
    rw [deals, List.length_map, show kierki.size = 13 from rfl, show kierki.seats = 4 from rfl]
    omega
  rw [← hmirrors.closed_iff, ← hend, hall, hcount]

/-- **The game never gets stuck and ends once.**  For every scenario with a round the server starts.
In every state that calls lead to, the player to move holds a card that the rules let it put, unless the
game is over; the accepted cards and those left are 52 for each round, and no `TRICK` makes
`prepareRound` look beyond the last round.  In every further call an accepted card leaves fewer cards,
`finalize` comes with the last one of all rounds and not before, and once the game is over no call
changes it. -/
theorem ends_once {scenario : GameScenario} {timeout : Int} (hne : scenario ≠ []) :
    (∃ σ₀, start scenario timeout = .ok σ₀) ∧
    ∀ es σ, run scenario timeout es = some σ →
      (σ.game.roundNumber ≠ scenario.length → ∃ card ∈ σ.game.hands σ.game.nextMove,
        GameRules.isMoveLegal σ.game.nextMove card σ.game.hands σ.game.table = true) ∧
      (moves scenario timeout es).length + σ.cardsLeft = 52 * scenario.length ∧
      (∀ n card ix, σ.handle (.playerTricked n card ix) ≠ .error .scenarioIndex) ∧
      ∀ e b σ', σ.handle e = .ok (b, σ') →
        (∀ m, σ.accepts e = some m → σ'.cardsLeft < σ.cardsLeft ∧
          (σ'.exiting = true ↔ σ.exiting = true ∨
            (moves scenario timeout (es ++ [e])).length = 52 * scenario.length)) ∧
        (σ'.game.roundNumber = scenario.length ↔
          (moves scenario timeout (es ++ [e])).length = 52 * scenario.length) ∧
        (σ.accepts e = none → σ'.game = σ.game) ∧
        (σ.game.roundNumber = scenario.length → σ'.game = σ.game) := by
  constructor
  · cases scenario with
    | nil => exact absurd rfl hne
    | cons r rounds => exact ⟨_, start_cons r rounds timeout⟩
  intro es σ h
  obtain ⟨S, hmirrors, hcount⟩ := run_counted h
  have hscenario := hmirrors.scenario_eq
  have hin : σ.game.roundNumber ≤ scenario.length := by
    have hle := hmirrors.sound.past_le
    rwa [← hmirrors.game.roundNumber, deals, List.length_map] at hle
  have hleft : (moves scenario timeout es).length + σ.cardsLeft = 52 * scenario.length := by
    rw [← hcount]
    exact hmirrors.cardsLeft
  have hover : ∀ n card side, σ.admits n card side → σ.game.roundNumber ≠ scenario.length :=
    fun n card side hgood heq => hmirrors.over heq n card side hgood
  refine ⟨hmirrors.exists_legal, hleft, fun n card ix => ?_, fun e b σ' he => ?_⟩
  · apply playerTricked_ne_scenarioIndex
    intro side hgood
    rw [hscenario]
    exact lt_of_le_of_ne hin (hover n card side hgood)
  · have h' : run scenario timeout (es ++ [e]) = some σ' := run_handle h he
    have hend := run_over_iff h'
    rcases (handle_effect he).accepts_cases with ⟨hnone, hgame, -⟩ |
      ⟨n, card, ix, side, -, hacc, -, -, hgood, haccepted⟩
    · -- no card is accepted
      refine ⟨fun m hacc => ?_, hend, fun _ => hgame, fun _ => hgame⟩
      rw [hnone] at hacc
      cases hacc
    · have hopen := hover n card side hgood
      refine ⟨fun m _ => ?_, hend, fun hnone => ?_, fun heq => absurd heq hopen⟩
      · obtain ⟨S', hmirrors', hcount'⟩ := run_counted h'
        have hleft' := hmirrors'.cardsLeft
        rw [hcount', moves_concat h h', hacc, List.length_append, Option.toList_some,
          List.length_singleton] at hleft'
        refine ⟨by omega, ?_⟩
        rw [← hend, ← hscenario]
        rcases haccepted.exiting_cases (by rwa [hscenario]) with ⟨hmore, hexit⟩ | ⟨hlast, hexit⟩
        · simp [hmore, hexit]
        · simp [hlast, hexit]
      · rw [hnone] at hacc
        cases hacc

/-- The ace of spades is the last card of the only round. -/
theorem ends_once_suitRound :
    (∃ σ₀, start [suitRound] 5 = .ok σ₀) ∧ ∃ σ σ', run [suitRound] 5 wholeRound.dropLast = some σ ∧
      σ.cardsLeft = 1 ∧ σ.exiting = false ∧ σ.handle (.playerTricked 13 ⟨.A, .colorS⟩ 4) = .ok (true, σ') ∧
      σ'.cardsLeft = 0 ∧ σ'.exiting = true ∧ σ'.game.roundNumber = 1 := by
  have hfacts : (run [suitRound] 5 wholeRound.dropLast).bind (fun σ =>
      (σ.handle (.playerTricked 13 ⟨.A, .colorS⟩ 4)).toOption.map fun p =>
        (σ.exiting, σ.accepts (.playerTricked 13 ⟨.A, .colorS⟩ 4), p.1)) =
      some (false, some (.W, ⟨.A, .colorS⟩), true) := by decide +kernel
  have hmoves : (moves [suitRound] 5 wholeRound.dropLast).length = 51 := by decide +kernel
  have hmoves' : (moves [suitRound] 5 wholeRound).length = 52 := by decide +kernel
  obtain ⟨σ, hσ, hlast⟩ := Option.bind_eq_some_iff.mp hfacts
  obtain ⟨⟨b, σ'⟩, hhandle, heq⟩ := Option.map_eq_some_iff.mp hlast
  simp only [Prod.mk.injEq] at heq
  obtain ⟨hexit, haccept, rfl⟩ := heq
  have hne : [suitRound] ≠ [] := by simp
  obtain ⟨hstart, hruns⟩ := @ends_once _ 5 hne
  obtain ⟨-, hleft, -, hcalls⟩ := hruns _ σ hσ
  rw [hmoves, List.length_singleton] at hleft
  have hok := Fallible.ok_of_toOption hhandle
  obtain ⟨haccepted, hover, -, -⟩ := hcalls _ _ _ hok
  obtain ⟨hless, hending⟩ := haccepted _ haccept
  have hall : (moves [suitRound] 5 (wholeRound.dropLast ++ [.playerTricked 13 ⟨.A, .colorS⟩ 4])).length =
      52 * [suitRound].length := hmoves'
  exact ⟨hstart, σ, σ', hσ, by omega, hexit, hok, by omega, hending.mpr (.inr hall), hover.mpr hall⟩

/-- What makes a `TRICK` right: its number, the turn, a card that is held, and the colour led. -/
def Rightful (σ : Server) (n : Nat) (card : Card) (side : Side) : Prop :=
  n = σ.game.trickNo ∧ side = σ.game.nextMove ∧ card ∈ σ.game.hands side ∧
    ∀ front ∈ σ.game.table.head?, card.col = front.col ∨ ∀ d ∈ σ.game.hands side, d.col ≠ front.col

instance (σ : Server) (n : Nat) (card : Card) (side : Side) : Decidable (σ.Rightful n card side) := by
  unfold Rightful
  infer_instance

theorem rightful_iff {σ : Server} {n : Nat} {card : Card} {side : Side} :
    σ.Rightful n card side ↔ σ.admits n card side := by
  rw [Rightful, admits, GameRules.isMoveLegal_iff, eq_comm (a := side)]

/-- The next accepted card ends a round that is not the last one. -/
def DealsNext (σ : Server) : Prop :=
  σ.game.table.length = 3 ∧ σ.game.trickNo = TRICKS_PER_ROUND ∧
    σ.game.roundNumber + 1 ≠ σ.gameScenario.length

instance (σ : Server) : Decidable σ.DealsNext := by
  unfold DealsNext
  infer_instance

/-- An accepted card leaves the hand of its side and no other hand changes, unless the next round is
dealt. -/
theorem Accepted.hands {σ σ' : Server} {side : Side} {card : Card} (h : Accepted σ side card σ') :
    (¬ σ.DealsNext → σ'.game.hands =
      Function.update σ.game.hands side ((σ.game.hands side).erase card)) ∧
    (σ.DealsNext → ∃ r, σ.gameScenario[σ.game.roundNumber + 1]? = some r ∧
      σ'.game.hands = r.deal) := by
  have hput : (σ.game.putCard side card).hands =
      Function.update σ.game.hands side ((σ.game.hands side).erase card) := by
    simp [Game.putCard, rmCardIfPresent_eq_erase]
  have htable : (σ.game.putCard side card).table.length = σ.game.table.length + 1 := by
    simp [Game.putCard]
  -- the cards stay where they are until the round is left
  have hleft : ∀ g : Game, g.updatePenalties.leaveRound.hands = g.hands ∧
      g.updatePenalties.leaveRound.roundNumber = g.roundNumber + 1 := fun g =>
    ⟨(leaveRound_sameBoard g).hands.trans (updatePenalties_sameBoard g).hands,
      (leaveRound_sameBoard g).roundNumber⟩
  cases h with
  | inTrick g mgr out hg hlen =>
      subst hg
      exact ⟨fun _ => hput, fun hnext => absurd (htable.trans (by rw [hnext.1])) hlen⟩
  | trickDone g₀ g mgr out hg₀ _ hg hno =>
      subst hg hg₀
      refine ⟨fun _ => hput, fun hnext => absurd ?_ hno⟩
      show σ.game.trickNo + 1 = TRICKS_PER_ROUND + 1
      rw [hnext.2.1]
  | roundDone g₀ g₁ g r mgr out hg₀ hlen hg₁ hno hlast hr hg =>
      subst hg hg₁ hg₀
      rw [(hleft _).2] at hlast hr
      refine ⟨fun hnot => absurd ⟨?_, ?_, hlast⟩ hnot, fun _ => ⟨r, hr, rfl⟩⟩
      · omega
      · exact Nat.succ.inj hno
  | gameDone g₀ g₁ g mgr out σ' hg₀ _ hg₁ _ hlast hg _ _ hfin =>
      subst hg hg₁ hg₀
      rw [(hleft _).2] at hlast
      refine ⟨fun _ => ?_, fun hnext => absurd hlast hnext.2.2⟩
      rw [hfin.frame.1]
      exact (hleft _).1.trans hput

/-- What a seated worker's `TRICK` is, once four players are connected: a card offered for its side. -/
theorem playerTricked_seated {σ : Server} {ix : Nat} {side : Side} (hfour : σ.playersConnected = 4)
    (hrole : σ.workerMgr.roles.find? ix = some .servingActive)
    (hside : σ.workerToSide.find? ix = some side) (n : Nat) (card : Card) :
    σ.playerTricked n card ix = (do return (true, ← σ.offerCard n card side)) := by
  unfold playerTricked
  rw [if_neg (by omega), IOWorkerMgr.getRole, hrole]
  simp only [require, ok_bind, hside]

/-- An accepted card is announced to the player who is next, and to everybody once the trick is full. -/
def HearsOf (σ : Server) (t : Side) : Prop := t = nxtSide σ.game.nextMove ∨ σ.game.table.length = 3

/-- A card that is accepted finds its addressees, if they are still there. -/
theorem offerCard_accepted_ne {σ : Server} {n : Nat} {card : Card} {side : Side} (hgood : σ.admits n card side)
    (hlive : ∀ t, σ.HearsOf t → ∃ jx, σ.activeSides t = some jx ∧ σ.workerMgr.Registered jx) :
    σ.offerCard n card side ≠ .error .sendJobTarget := by
  by_cases hfull : σ.game.table.length = 3
  · have htable : FullTable σ := fun t => hlive t (.inr hfull)
    exact htable.offerCard_ne n card side
  · -- the trick goes on, and the next player is asked
    obtain ⟨hn, hturn, hlegal⟩ := hgood
    have hlen : (σ.game.putCard side card).table.length ≠ 4 := by
      simpa [Game.putCard] using hfull
    have hnext : (σ.game.putCard side card).nextMove = nxtSide σ.game.nextMove := rfl
    unfold offerCard
    rw [if_neg (by simp [hn, hturn]), if_neg (by simp [hlegal])]
    dsimp only
    rw [if_neg hlen, ok_bind]
    have hprompt : ∃ σ', sendJobs { σ with game := σ.game.putCard side card }
        [(σ.activeSides (nxtSide σ.game.nextMove), (σ.game.putCard side card).msgTrick)] = .ok σ' :=
      sendJobs_ok (by simpa using hlive _ (.inl rfl))
    obtain ⟨σ', hσ'⟩ := hprompt
    simp [hnext, hσ']

/-- A card that is not admitted is answered with a `WRONG`. -/
theorem offerCard_wrong {σ : Server} {n : Nat} {card : Card} {side : Side} {ix : Nat}
    (hbad : ¬ σ.admits n card side) (hseat : σ.activeSides side = some ix) (hreg : σ.workerMgr.Registered ix) :
    ∃ mgr, σ.offerCard n card side = .ok { σ with workerMgr := mgr } ∧
      IOWorkerMgr.Posted σ.workerMgr mgr [(ix, .wrong σ.game.trickNo)] := by
  have haddressee : ∀ p ∈ [(σ.activeSides side, SendJob.wrong σ.game.trickNo)],
      ∃ jx, p.1 = some jx ∧ σ.workerMgr.Registered jx := by
    simpa using ⟨ix, hseat, hreg⟩
  obtain ⟨σ', hσ'⟩ := sendJobs_ok haddressee
  have hoffer : σ.offerCard n card side = .ok σ' := by
    rw [← hσ', offerCard]
    by_cases hturn : n ≠ σ.game.trickNo ∨ σ.game.nextMove ≠ side
    · rw [if_pos hturn]
    · rw [if_neg hturn, if_pos]
      simp only [not_or, not_not] at hturn
      simpa [admits, hturn.1, hturn.2] using hbad
  obtain ⟨jx, mgr, hjx, rfl, hpost⟩ := offerCard_rejected hoffer hbad
  obtain rfl : ix = jx := Option.some.inj (hseat.symm.trans hjx)
  exact ⟨mgr, hoffer, hpost⟩

/-- **A `TRICK` is accepted when it is right, and changes nothing when it is not.**  Four players are
connected and a seated worker sends the card.  If it is not rightful, game and deal stay as they are and
one `WRONG` with the number of the trick goes to that worker alone.  If it is, and the workers that are to
hear of it are still there, it is accepted: the card leaves the hand, once, and no other hand changes, unless
it was the last card of a round with another one to come, which is dealt at once. -/
theorem playerTricked_judged {scenario : GameScenario} {timeout : Int} {es : List Call} {σ : Server}
    {ix : Nat} {side : Side} (h : run scenario timeout es = some σ) (hfour : σ.playersConnected = 4)
    (hrole : σ.workerMgr.roles.find? ix = some .servingActive)
    (hside : σ.workerToSide.find? ix = some side) (n : Nat) (card : Card) :
    (¬ σ.Rightful n card side → ∃ σ', σ.handle (.playerTricked n card ix) = .ok (true, σ') ∧
      σ'.game = σ.game ∧ σ'.lastDeal = σ.lastDeal ∧
      IOWorkerMgr.Posted σ.workerMgr σ'.workerMgr [(ix, .wrong σ.game.trickNo)]) ∧
    (σ.Rightful n card side →
      (∀ t jx, σ.HearsOf t → σ.activeSides t = some jx → σ.workerMgr.Registered jx) →
      ∃ σ', σ.handle (.playerTricked n card ix) = .ok (true, σ') ∧ Accepted σ side card σ' ∧
        (¬ σ.DealsNext → σ'.game.hands =
          Function.update σ.game.hands side ((σ.game.hands side).erase card)) ∧
        (σ.DealsNext → ∃ r, scenario[σ.game.roundNumber + 1]? = some r ∧
          σ'.game.hands = r.deal)) := by
  have hbook : SeatBook σ := seatBook_run h
  obtain ⟨S, hmirrors, -⟩ := run_reference h
  have hseat : σ.activeSides side = some ix := by
    obtain ⟨t, ht⟩ := hbook.active ix hrole
    have htside := (hbook.seat t ix ht).1
    rw [hside] at htside
    rwa [Option.some.inj htside]
  have hcall := playerTricked_seated hfour hrole hside n card
  rw [rightful_iff]
  constructor
  · intro hbad
    have hreg : σ.workerMgr.Registered ix := (hbook.live ix _ hrole (.inr rfl)).1
    obtain ⟨mgr, hoffer, hpost⟩ := offerCard_wrong hbad hseat hreg
    refine ⟨{ σ with workerMgr := mgr }, ?_, rfl, rfl, hpost⟩
    rw [handle, hcall, hoffer]
    rfl
  · intro hgood hlive
    have hheard : ∀ t, σ.HearsOf t → ∃ jx, σ.activeSides t = some jx ∧ σ.workerMgr.Registered jx := by
      intro t ht
      obtain ⟨jx, hjx⟩ := hbook.full hfour.ge t
      exact ⟨jx, hjx, hlive t jx ht hjx⟩
    have hin : σ.game.roundNumber < σ.gameScenario.length := by
      have hle := hmirrors.sound.past_le
      rw [← hmirrors.game.roundNumber, deals, List.length_map] at hle
      rw [hmirrors.scenario_eq]
      exact lt_of_le_of_ne hle fun heq => hmirrors.over heq n card side hgood
    -- there is a next round whenever a card can still be put, so nothing is left that could throw
    cases hoffer : σ.offerCard n card side with
    | error f =>
        obtain rfl := offerCard_error (fun _ => hin) hoffer
        exact absurd hoffer (offerCard_accepted_ne hgood hheard)
    | ok σ' =>
        have hacc : Accepted σ side card σ' := offerCard_accepted hoffer hgood
        refine ⟨σ', ?_, hacc, ?_⟩
        · rw [handle, hcall, hoffer]
          rfl
        · rw [← hmirrors.scenario_eq]
          exact hacc.hands

/-- `N` leads the first trick; a card of `E` out of turn is refused. -/
theorem playerTricked_judged_fourPlayers :
    ∃ σ σ₁ σ₂, run [suitRound] 5 fourPlayers = some σ ∧
      σ.handle (.playerTricked 1 ⟨.v2, .colorD⟩ 2) = .ok (true, σ₁) ∧ σ₁.game = σ.game ∧
      σ.handle (.playerTricked 1 ⟨.v2, .colorC⟩ 1) = .ok (true, σ₂) ∧
      (σ₂.game.hands .N).length = 12 := by
  have hfacts : (run [suitRound] 5 fourPlayers).map (fun σ => decide (σ.playersConnected = 4 ∧
      σ.workerMgr.roles.find? 1 = some .servingActive ∧ σ.workerToSide.find? 1 = some .N ∧
      σ.workerMgr.roles.find? 2 = some .servingActive ∧ σ.workerToSide.find? 2 = some .E ∧
      ¬ σ.Rightful 1 ⟨.v2, .colorD⟩ .E ∧ σ.Rightful 1 ⟨.v2, .colorC⟩ .N ∧ ¬ σ.DealsNext ∧
      (∀ t, ∃ jx ∈ σ.activeSides t, (σ.workerMgr.workers.find? jx).isSome) ∧
      ((σ.game.hands .N).erase ⟨.v2, .colorC⟩).length = 12)) = some true := by
    decide +kernel
  obtain ⟨σ, hσ, heq⟩ := Option.map_eq_some_iff.mp hfacts
  obtain ⟨hfour, hrole₁, hside₁, hrole₂, hside₂, hbad, hgood, hnext, hlive, hlen⟩ :=
    of_decide_eq_true heq
  obtain ⟨σ₁, hσ₁, hgame, -⟩ := (playerTricked_judged hσ hfour hrole₂ hside₂ 1 _).1 hbad
  obtain ⟨σ₂, hσ₂, -, hhands, -⟩ := (playerTricked_judged hσ hfour hrole₁ hside₁ 1 _).2 hgood
    fun t jx _ hjx => by
      obtain ⟨kx, hkx, hreg⟩ := hlive t
      obtain rfl : jx = kx := Option.some.inj (hjx.symm.trans hkx)
      exact hreg
  refine ⟨σ, σ₁, σ₂, hσ, hσ₁, hgame, hσ₂, ?_⟩
  rw [hhands hnext, Function.update_self]
  exact hlen

/-- With the last card of a round that `W` plays, `N` gets a new hand. -/
theorem not_judged_lastCard :
    ∃ σ σ', run [suitRound, suitRound] 5 wholeRound.dropLast = some σ ∧ σ.playersConnected = 4 ∧
      σ.workerMgr.roles.find? 4 = some .servingActive ∧ σ.workerToSide.find? 4 = some .W ∧
      σ.Rightful 13 ⟨.A, .colorS⟩ .W ∧
      σ.handle (.playerTricked 13 ⟨.A, .colorS⟩ 4) = .ok (true, σ') ∧
      σ.game.hands .N = [] ∧ (σ'.game.hands .N).length = 13 := by
  have hfacts : (run [suitRound, suitRound] 5 wholeRound.dropLast).map (fun σ =>
      decide (σ.playersConnected = 4 ∧ σ.workerMgr.roles.find? 4 = some .servingActive ∧
        σ.workerToSide.find? 4 = some .W ∧ σ.Rightful 13 ⟨.A, .colorS⟩ .W ∧ σ.game.hands .N = [] ∧
        (σ.handle (.playerTricked 13 ⟨.A, .colorS⟩ 4)).map (fun p =>
          (p.1, (p.2.game.hands .N).length)) = .ok (true, 13))) = some true := by
    decide +kernel
  obtain ⟨σ, hσ, heq⟩ := Option.map_eq_some_iff.mp hfacts
  obtain ⟨hfour, hrole, hside, hgood, hempty, hcall⟩ := of_decide_eq_true heq
  cases hσ' : σ.handle (.playerTricked 13 ⟨.A, .colorS⟩ 4) with
  | error f => simp [hσ', Except.map] at hcall
  | ok p =>
      obtain ⟨b, σ'⟩ := p
      rw [hσ', Except.map, Except.ok.injEq, Prod.mk.injEq] at hcall
      obtain ⟨rfl, hlen⟩ := hcall
      exact ⟨σ, σ', hσ, hfour, hrole, hside, hgood, hσ', hempty, hlen⟩

end Server

end Kierki
