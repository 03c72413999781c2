import Kierki.Server.Seats
import Kierki.Server.Tricks

/-!
# Scores

What a side hears from `playerTricked` is, round by round, the thirteen tricks, the score of the round
and the totals.  The scorer of the reference game (`price`) says what the entries are.
-/

namespace Kierki

open TrickGame

/-- The messages that announce a result. -/
def SendJob.isAnnouncement : SendJob → Bool
  | .taken _ _ _ | .score _ | .total _ => true
  | _ => false

/-- Each of the four sides stands in the list exactly once, with its value. -/
def Lists (l : List (Side × Nat)) (value : Side → Nat) : Prop :=
  (l.map Prod.fst).Perm Side.sides_ ∧ ∀ p ∈ l, p.2 = value p.1

/-- What a list says about a side. -/
def amount (l : List (Side × Nat)) (s : Side) : Nat := ((l.filter fun p => p.1 = s).map Prod.snd).sum

theorem lists_entries {m : ScoreMap} {value : Side → Nat}
    (h : ∀ s, m.find? s = some (value s)) : Lists m.entries value := by
  constructor
  · refine (List.perm_ext_iff_of_nodup m.keys_nodup Side.sides_nodup).mpr fun s => ?_
    simp [← m.find?_isSome_iff, h, Side.mem_sides_]
  · rintro ⟨s, n⟩ hp
    exact Option.some.inj (((m.mem_entries_iff s n).mp hp).symm.trans (h s))

theorem Lists.amount_eq {l : List (Side × Nat)} {value : Side → Nat} (h : Lists l value) (s : Side) :
    amount l s = value s := by
  obtain ⟨hperm, hvalue⟩ := h
  have hvals : (l.filter fun p => p.1 = s).map Prod.snd =
      ((l.map Prod.fst).filter fun t => t = s).map value := by
    rw [List.filter_map, List.map_map]
    refine List.map_congr_left fun p hp => ?_
    exact hvalue p (List.mem_filter.mp hp).1
  have honce : ∀ s, Side.sides_.filter (fun t => t = s) = [s] := by decide
  rw [amount, hvals, ((hperm.filter _).map value).sum_eq, honce]
  simp

/-- The announcements about one finished round: its tricks, and the two lists that follow them. -/
structure Report where
  mode : RoundType
  tricks : List (Trick Side Card)
  score : List (Side × Nat)
  total : List (Side × Nat)

/-- The messages of a report. -/
def Report.messages (r : Report) : List SendJob :=
  r.tricks.map takenMsg ++ [.score r.score, .total r.total]

namespace Server

open IOWorkerMgr

/-- The announcements among the messages to the worker on side `s`. -/
def announced (σ : Server) (s : Side) (out : List (Nat × SendJob)) : List SendJob :=
  (out.filter fun p => decide (some p.1 = σ.activeSides s) && p.2.isAnnouncement).map Prod.snd

/-- What side `s` hears from `playerTricked`. -/
def heard (s : Side) (σ : Server) (e : Call) (σ' : Server) : List SendJob :=
  match e with
  | .playerTricked _ _ _ => σ.announced s (mailed σ σ')
  | _ => []

/-- With four players connected no worker has two sides. -/
theorem SeatBook.activeSides_injective {σ : Server} (h : SeatBook σ) (hpc : 4 ≤ σ.playersConnected) :
    Function.Injective σ.activeSides := by
  have hcard : (occupied σ.activeSides).card = 4 := by
    have hle := occupied_card_le σ.activeSides
    have hcount := h.count
    omega
  intro s t hst
  obtain ⟨ix, hs⟩ := occupied_card_eq_four hcard s
  have ht : σ.activeSides t = some ix := hst.symm.trans hs
  exact Option.some.inj ((h.seat s ix hs).1.symm.trans (h.seat t ix ht).1)

/-- Of messages that announce nothing, nothing is heard. -/
theorem announced_eq_nil {σ : Server} {s : Side} {out : List (Nat × SendJob)}
    (h : ∀ p ∈ out, p.2.isAnnouncement = false) : σ.announced s out = [] := by
  rw [announced, List.map_eq_nil_iff, List.filter_eq_nil_iff]
  intro p hp
  simp [h p hp]

/-- The announcements among the jobs for side `s`. -/
def announcedJobs (σ : Server) (s : Side) (jobs : List (Option Nat × SendJob)) : List SendJob :=
  (jobs.filter fun p => decide (p.1 = σ.activeSides s) && p.2.isAnnouncement).map Prod.snd

theorem announced_addressed {σ : Server} {s : Side} {out : List (Nat × SendJob)}
    {jobs : List (Option Nat × SendJob)} (h : Addressed jobs out) :
    σ.announced s out = σ.announcedJobs s jobs := by
  rw [announcedJobs, h, List.filter_map, List.map_map]
  rfl

@[simp] theorem announcedJobs_append (σ : Server) (s : Side) (jobs jobs' : List (Option Nat × SendJob)) :
    σ.announcedJobs s (jobs ++ jobs') = σ.announcedJobs s jobs ++ σ.announcedJobs s jobs' := by
  simp [announcedJobs]

section Jobs

variable {σ : Server} (hinj : Function.Injective σ.activeSides) (s : Side)

include hinj in
/-- Of a message for all sides, side `s` hears its own. -/
theorem announcedJobs_toAll {msg : SendJob} (hmsg : msg.isAnnouncement = true) :
    σ.announcedJobs s (σ.toAll msg) = [msg] := by
  simp only [announcedJobs, toAll, Side.sides_, List.map_cons, List.map_nil, List.filter_cons,
    List.filter_nil, hinj.eq_iff, hmsg, Bool.and_true]
  cases s <;> simp

include hinj in
theorem announcedJobs_scoreJobs (g : Game) :
    σ.announcedJobs s (σ.scoreJobs g) =
      [.score g.penaltiesRound.entries, .total g.penalties.entries] := by
  simp only [announcedJobs, scoreJobs, Side.sides_, List.flatMap_cons, List.flatMap_nil,
    List.append_nil, List.cons_append, List.nil_append, List.filter_cons, List.filter_nil,
    hinj.eq_iff, SendJob.isAnnouncement, Bool.and_true]
  cases s <;> simp

theorem announcedJobs_dealJobs (g : Game) : σ.announcedJobs s (σ.dealJobs g) = [] := by
  simp [announcedJobs, dealJobs, Side.sides_, Game.msgDeal, SendJob.isAnnouncement]

theorem announcedJobs_promptJobs (g : Game) : σ.announcedJobs s (σ.promptJobs g) = [] := by
  simp [announcedJobs, promptJobs, Game.msgTrick, SendJob.isAnnouncement]

end Jobs

/-- What side `s` hears of an accepted card: nothing in mid-trick, the trick that is over, and after the
last trick of a round also the score and the totals. -/
theorem Accepted.heard {σ σ' : Server} {side : Side} {card : Card} (h : Accepted σ side card σ')
    (hinj : Function.Injective σ.activeSides) (s : Side) :
    σ.announced s (mailed σ σ') =
      if (σ.game.putCard side card).table.length = 4 then
        (σ.game.putCard side card).msgTaken ::
          if (σ.game.putCard side card).takeTrick.trickNo = TRICKS_PER_ROUND + 1 then
            [.score (σ.game.putCard side card).takeTrick.updatePenalties.penaltiesRound.entries,
              .total (σ.game.putCard side card).takeTrick.updatePenalties.penalties.entries]
          else []
      else [] := by
  have htaken : (σ.game.putCard side card).msgTaken.isAnnouncement = true := rfl
  cases h with
  | inTrick g mgr out hg hlen hpost haddr =>
      rw [mailed_eq hpost.sent, announced_addressed haddr, announcedJobs_promptJobs,
        if_neg (hg ▸ hlen)]
  | trickDone g₀ g mgr out hg₀ hlen hg hno hpost haddr =>
      subst hg₀ hg
      rw [mailed_eq hpost.sent, announced_addressed haddr, announcedJobs_append,
        announcedJobs_toAll hinj s htaken, announcedJobs_promptJobs, if_pos hlen, if_neg hno]
      rfl
  | roundDone g₀ g₁ g r mgr out hg₀ hlen hg₁ hno _ _ hg hpost haddr =>
      subst hg₀ hg₁
      rw [mailed_eq hpost.sent, announced_addressed haddr]
      simp only [announcedJobs_append, announcedJobs_toAll hinj s htaken,
        announcedJobs_scoreJobs hinj, announcedJobs_dealJobs, announcedJobs_promptJobs, if_pos hlen,
        if_pos hno]
      rfl
  | gameDone g₀ g₁ g mgr out σ' hg₀ hlen hg₁ hno _ _ hpost haddr hfin =>
      subst hg₀ hg₁
      rw [mailed_eq (hfin.frame.2.2.trans hpost.sent), announced_addressed haddr]
      simp only [announcedJobs_append, announcedJobs_toAll hinj s htaken,
        announcedJobs_scoreJobs hinj, if_pos hlen, if_pos hno]
      rfl

/-- Of any other call nothing is heard. -/
theorem heard_quiet {scenario : GameScenario} {σ σ' : Server} {S : CardGame} {e : Call} {b : Bool}
    (h : Mirrors scenario σ S) (heff : Effect σ e b σ') (hnone : σ.accepts e = none) (s : Side) :
    Server.heard s σ e σ' = [] := by
  obtain ⟨out, hsent, hout⟩ := heff.emits fun n card ix side _ hgood => h.trickNo_ne hgood
  unfold Server.heard
  split
  · rename_i n card ix
    rw [mailed_eq hsent]
    refine announced_eq_nil fun p hp => ?_
    obtain ⟨jx, msg⟩ := p
    have hemits : Emits σ (.playerTricked n card ix) σ' msg := hout _ hp
    cases hemits with
    | wrong => rfl
    | taken _ _ _ _ _ haccept | score _ _ _ _ _ _ haccept | total _ _ _ _ _ _ haccept
    | nextDeal _ _ _ _ _ _ _ haccept | prompt _ _ _ _ _ haccept =>
        rw [hnone] at haccept
        cases haccept
  · rfl

/-- The reports are about the finished rounds. -/
structure Reported (S : CardGame) (reports : List Report) : Prop where
  length : reports.length = S.past.length
  rounds : ∀ (i : Nat) (rep : Report), reports[i]? = some rep → ∃ fin, S.past[i]? = some fin ∧
    rep.mode = fin.deal.mode ∧ rep.tricks = fin.tricks ∧
    Lists rep.score (kierki.points fin.deal.mode fin.tricks) ∧
    Lists rep.total fun s =>
      ((S.past.take (i + 1)).map fun r => kierki.points r.deal.mode r.tricks s).sum

theorem Reported.of_past {S S' : CardGame} {reports : List Report} (h : Reported S reports)
    (hpast : S'.past = S.past) : Reported S' reports := by
  obtain ⟨hlen, hrounds⟩ := h
  rw [← hpast] at hlen hrounds
  exact ⟨hlen, hrounds⟩

/-- The end of a round adds its report. -/
theorem Reported.concat {S S' : CardGame} {reports : List Report} (h : Reported S reports)
    {g : Game} {T : CardGame} (hg : Matches g T) (hopen : T.closed = false)
    (hT : T.past = S.past) (hpast : S'.past = S.past ++ [⟨T.deal, T.done⟩]) :
    Reported S' (reports ++ [⟨T.deal.mode, T.done, g.updatePenalties.penaltiesRound.entries,
      g.updatePenalties.penalties.entries⟩]) where
  length := by simp [hpast, h.length]
  rounds := by
    intro i rep hi
    rcases lt_trichotomy i reports.length with hlt | rfl | hgt
    · rw [List.getElem?_append_left hlt] at hi
      obtain ⟨fin, hfin, hmode, htricks, hscore, htotal⟩ := h.rounds i rep hi
      have hle : i + 1 ≤ S.past.length := by rw [← h.length]; omega
      refine ⟨fin, ?_, hmode, htricks, hscore, ?_⟩
      · rw [hpast, List.getElem?_append_left (by omega)]
        exact hfin
      · rw [hpast, List.take_append_of_le_length hle]
        exact htotal
    · obtain rfl := Option.some.inj (List.getElem?_concat_length.symm.trans hi)
      refine ⟨⟨T.deal, T.done⟩, ?_, rfl, rfl, lists_entries fun s => ?_, lists_entries fun s => ?_⟩
      · rw [hpast, h.length, List.getElem?_concat_length]
      · rw [(updatePenalties_find? g s).1, hg.value]
        simp [State.roundPoints, hopen]
      · rw [hg.total hopen, h.length, hpast, List.take_of_length_le (by simp)]
        simp [State.total, hT]
    · rw [List.getElem?_eq_none (by simp; omega)] at hi
      cases hi

/-- The tricks of the round that is still played. -/
def openTricks (S : CardGame) : List (Trick Side Card) := if S.closed then [] else S.done

/-- What is heard of an accepted card is what the move adds to the reports. -/
theorem reported_move {scenario : GameScenario} {σ σ' : Server} {S S' : CardGame}
    {side : Side} {card : Card} {reports : List Report} (h : Mirrors scenario σ S)
    (hacc : Accepted σ side card σ')
    (hinj : Function.Injective σ.activeSides)
    (hplay : S.play kierki (deals scenario) (side, card) = some S') (hrep : Reported S reports)
    (s : Side) :
    ∃ reports', Reported S' reports' ∧
      reports'.flatMap Report.messages ++ (openTricks S').map takenMsg =
        reports.flatMap Report.messages ++ (openTricks S).map takenMsg ++
          σ.announced s (mailed σ σ') := by
  have hput : Matches (σ.game.putCard side card) (S.put side card) := h.game.putCard side card
  obtain ⟨hlen, hmost⟩ := h.table_length side card
  have hno := h.takeTrick_trickNo side card
  have hlegal : S.Legal kierki side card := (State.play_eq_some hplay).1
  have hcases := kierki_play hplay
  have hopen : openTricks S = S.done := by rw [openTricks, hlegal.1, if_neg (by simp)]
  rw [hacc.heard hinj s, hopen]
  rcases hcases with ⟨hshort, rfl⟩ | ⟨hfull, hmore, rfl⟩ | ⟨hfull, hend, rfl⟩
  · -- the trick is not full, and nothing is heard
    refine ⟨reports, hrep.of_past rfl, ?_⟩
    rw [if_neg (by omega), List.append_nil, openTricks, State.put_closed, hlegal.1, if_neg (by simp)]
    rfl
  · -- a full trick is heard and joins those of the open round
    have htaken := h.msgTaken hlegal (by omega)
    have hnext : ¬ S.done.length + 2 = TRICKS_PER_ROUND + 1 := by
      have hthirteen : TRICKS_PER_ROUND = 13 := rfl
      omega
    refine ⟨reports, hrep.of_past rfl, ?_⟩
    rw [if_pos (by omega), hno, if_neg hnext, htaken]
    simp [openTricks, State.collect, hlegal.1]
  · -- the last trick closes the round: its tricks and the two scores make a report
    have htaken := h.msgTaken hlegal (by omega)
    have hlast : S.done.length + 2 = TRICKS_PER_ROUND + 1 := by
      have hbefore : S.done.length < 13 := h.unfinished hlegal.1
      have hthirteen : TRICKS_PER_ROUND = 13 := rfl
      omega
    have htrick := hput.takeTrick (by omega) hlegal.1 (h.sound.put_order hlegal)
    refine ⟨_, hrep.concat htrick hlegal.1 rfl (State.close_past _ _), ?_⟩
    have hnone : openTricks (((S.put side card).collect kierki).close (deals scenario)) = [] := by
      unfold openTricks State.close
      split <;> simp [State.start]
    rw [if_pos (by omega), hno, if_pos hlast, htaken, hnone]
    simp [Report.messages, State.collect]

/-- The reports account for all that a side hears. -/
theorem run_reported {scenario : GameScenario} {timeout : Int} {es : List Call} {σ : Server}
    (h : run scenario timeout es = some σ) (s : Side) :
    ∃ S, Mirrors scenario σ S ∧ S.history = plays scenario timeout es ∧
      ∃ reports, Reported S reports ∧
        reports.flatMap Report.messages ++ (openTricks S).map takenMsg =
          runRecord (heard s) scenario timeout es := by
  refine reference_induction (P := fun es _ S => S.history = plays scenario timeout es ∧
      ∃ reports, Reported S reports ∧
        reports.flatMap Report.messages ++ (openTricks S).map takenMsg =
          runRecord (heard s) scenario timeout es)
    (fun r _ => ?_) (fun es σ e b σ' S hrun hrun' hmirrors hP heff hnone => ?_)
    (fun es σ e b σ' S S' m hrun hrun' hmirrors hP heff haccept hplay _ => ?_) h
  · refine ⟨by simp [plays, State.history, State.tricks, State.start], [], ⟨rfl, by simp⟩, ?_⟩
    simp [openTricks, State.start]
  · obtain ⟨hhistory, reports, hrep, hheard⟩ := hP
    refine ⟨by simpa [plays_concat hrun hrun', hnone] using hhistory, reports, hrep, ?_⟩
    rw [runRecord_concat _ hrun hrun', heard_quiet hmirrors heff hnone, List.append_nil, hheard]
  · obtain ⟨hhistory, reports, hrep, hheard⟩ := hP
    refine ⟨?_, ?_⟩
    · rw [plays_concat hrun hrun', haccept, State.play_history hplay, hhistory, hmirrors.game.hands]
      rfl
    · rcases heff.accepts_cases with ⟨hnone, -⟩ |
        ⟨n, card, ix, side, rfl, haccept', hpc, -, -, hacc⟩
      · rw [hnone] at haccept
        cases haccept
      · obtain rfl : m = (side, card) := Option.some.inj (haccept.symm.trans haccept')
        have hinj := (seatBook_run hrun).activeSides_injective hpc
        obtain ⟨reports', hrep', hnew⟩ := reported_move hmirrors hacc hinj hplay hrep s
        refine ⟨reports', hrep', ?_⟩
        rw [runRecord_concat _ hrun hrun', ← hheard]
        exact hnew

/-- Report by report, what can be read off the tricks or the score can be read off the round. -/
theorem Reported.map_eq {β : Type} {S : CardGame} {reports : List Report} (h : Reported S reports)
    {f : Report → β} {f' : Finished Side Card RoundType → β}
    (hf : ∀ rep fin, rep.tricks = fin.tricks →
      Lists rep.score (kierki.points fin.deal.mode fin.tricks) → f rep = f' fin) :
    reports.map f = S.past.map f' := by
  refine List.ext_getElem? fun i => ?_
  rw [List.getElem?_map, List.getElem?_map]
  cases hi : reports[i]? with
  | none =>
      have hout : S.past.length ≤ i := by
        rw [← h.length]
        exact List.getElem?_eq_none_iff.mp hi
      rw [List.getElem?_eq_none hout]
      rfl
  | some rep =>
      obtain ⟨fin, hfin, -, htricks, hscore, -⟩ := h.rounds i rep hi
      rw [hfin, Option.map_some, Option.map_some, hf rep fin htricks hscore]

/-- **Scores.**  What a side hears from `playerTricked` is a sequence of finished rounds and the tricks
of the round that is still played, and these tricks account for the accepted cards.  A finished round
has its thirteen tricks in order, then a score that lists every side once with the price of the tricks
it took, then the totals that list every side once with the sum of its scores so far. -/
theorem scores_accounted {scenario : GameScenario} {timeout : Int} {es : List Call} {σ : Server}
    (h : run scenario timeout es = some σ) (s : Side) :
    ∃ (reports : List Report) (tricks : List (Trick Side Card)) (rest : List (Play Side Card)),
      runRecord (heard s) scenario timeout es =
        reports.flatMap Report.messages ++ tricks.map takenMsg ∧
      (reports.flatMap Report.tricks ++ tricks).flatMap Trick.plays ++ rest =
        plays scenario timeout es ∧
      rest.length < 4 ∧ tricks.length < TRICKS_PER_ROUND ∧
      ∀ (i : Nat) (rep : Report), reports[i]? = some rep →
        (∃ r, scenario[i]? = some r ∧ rep.mode = r.mode) ∧
        rep.tricks.map Trick.number = List.range' 1 TRICKS_PER_ROUND ∧
        (∀ t ∈ rep.tricks, t.cards.length = 4) ∧
        Lists rep.score (fun side => ((rep.tricks.filter fun t => t.taker = side).map fun t =>
          price rep.mode t.number t.cards).sum) ∧
        Lists rep.total fun side =>
          ((reports.take (i + 1)).map fun earlier => amount earlier.score side).sum := by
  obtain ⟨S, hmirrors, hhistory, reports, hrep, hheard⟩ := run_reported h s
  refine ⟨reports, openTricks S, S.plays, hheard.symm, ?_, hmirrors.sound.short, ?_, ?_⟩
  · have htricks : reports.flatMap Report.tricks = S.past.flatMap Finished.tricks := by
      rw [List.flatMap_def, List.flatMap_def, hrep.map_eq fun _ _ htricks _ => htricks]
    rw [← hhistory, State.history, State.tricks, htricks]
    rfl
  · unfold openTricks
    cases hclosed : S.closed with
    | true => simp [TRICKS_PER_ROUND]
    | false => exact hmirrors.unfinished hclosed
  · intro i rep hi
    obtain ⟨fin, hfin, hmode, htricks, hscore, htotal⟩ := hrep.rounds i rep hi
    obtain ⟨hdeal, hsize, hcourse⟩ := hmirrors.sound.past i fin hfin
    obtain ⟨r, hr, heq⟩ := deals_getElem?_eq_some.mp hdeal
    refine ⟨⟨r, hr, by rw [hmode, ← heq]; rfl⟩, ?_, fun t ht => ?_, ?_, ?_⟩
    · rw [htricks, hcourse.numbers kierki, hsize]
      rfl
    · rw [htricks] at ht
      obtain ⟨leader, hfair⟩ := hcourse.fair kierki ht
      have hlen := congrArg List.length hfair.order
      rw [List.length_map, List.length_iterate] at hlen
      rw [Trick.cards, List.length_map, hlen]
      rfl
    · rw [htricks, hmode]
      exact hscore
    · -- what a score lists for a side is what the points of the round are
      have hscores (side : Side) :
          (reports.take (i + 1)).map (fun earlier => amount earlier.score side) =
            (S.past.take (i + 1)).map fun r => kierki.points r.deal.mode r.tricks side := by
        rw [List.map_take, List.map_take, hrep.map_eq fun _ _ _ hscore => hscore.amount_eq side]
      simp only [hscores]
      exact htotal

theorem scores_accounted_wholeRound :
    ∃ (reports : List Report) (tricks : List (Trick Side Card)),
      runRecord (heard .E) [suitRound] 5 wholeRound =
        reports.flatMap Report.messages ++ tricks.map takenMsg ∧
      tricks.length < TRICKS_PER_ROUND ∧
      (runRecord (heard .E) [suitRound] 5 wholeRound).drop 13 =
        [.score [(.E, 0), (.W, 0), (.S, 0), (.N, 13)], .total [(.N, 13), (.S, 0), (.E, 0), (.W, 0)]] := by
  have hsome : (run [suitRound] 5 wholeRound).isSome := by decide +kernel
  obtain ⟨σ, hσ⟩ := Option.isSome_iff_exists.mp hsome
  obtain ⟨reports, tricks, -, hheard, -, -, hlen, -⟩ := scores_accounted hσ .E
  exact ⟨reports, tricks, hheard, hlen, by decide +kernel⟩

end Server
end Kierki
