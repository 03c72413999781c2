import Kierki.Server.Emitted
import Kierki.Server.Seats

/-!
# What a call delivers to one connection

`history σ ix` is the sequence of messages that were ever enqueued for worker `ix`, and `received` what
one call adds to it.  `Delivers σ s ix e σ' msgs` lists, for the worker `ix` that has side `s` after the
call `e`, what it can receive; `Effect.delivers` says that the list is complete.  A worker without a
side receives a `BUSY` at most.
-/

namespace Kierki

namespace Server

open IOWorkerMgr

/-- The messages for worker `ix`. -/
def inbox (out : List (Nat × SendJob)) (ix : Nat) : List SendJob :=
  (out.filter fun p => p.1 = ix).map Prod.snd

/-- Everything that was ever enqueued for worker `ix`. -/
def history (σ : Server) (ix : Nat) : List SendJob := inbox σ.workerMgr.sent ix

/-- What worker `ix` receives between two states. -/
def received (σ σ' : Server) (ix : Nat) : List SendJob := inbox (mailed σ σ') ix

@[simp] theorem inbox_nil (ix : Nat) : inbox [] ix = [] := rfl

@[simp] theorem inbox_append (out out' : List (Nat × SendJob)) (ix : Nat) :
    inbox (out ++ out') ix = inbox out ix ++ inbox out' ix := by
  simp [inbox]

theorem mem_inbox {out : List (Nat × SendJob)} {ix : Nat} {msg : SendJob} :
    msg ∈ inbox out ix ↔ (ix, msg) ∈ out := by
  unfold inbox
  rw [List.mem_map]
  constructor
  · rintro ⟨⟨jx, m⟩, hmem, hmsg⟩
    obtain ⟨hout, heq⟩ := List.mem_filter.mp hmem
    have hjx : jx = ix := of_decide_eq_true heq
    rwa [← hmsg, ← hjx]
  · exact fun hmem => ⟨(ix, msg), List.mem_filter.mpr ⟨hmem, by simp⟩, rfl⟩

/-- The jobs among a list of `sendJob` calls that are for worker `ix`. -/
def jobsFor (jobs : List (Option Nat × SendJob)) (ix : Nat) : List SendJob :=
  (jobs.filter fun p => p.1 = some ix).map Prod.snd

theorem inbox_addressed {jobs : List (Option Nat × SendJob)} {out : List (Nat × SendJob)}
    (h : Addressed jobs out) (ix : Nat) : inbox out ix = jobsFor jobs ix := by
  rw [jobsFor, h, List.filter_map, List.map_map, inbox]
  congr 2
  ext p
  simp

@[simp] theorem jobsFor_nil (ix : Nat) : jobsFor [] ix = [] := rfl

@[simp] theorem jobsFor_append (jobs jobs' : List (Option Nat × SendJob)) (ix : Nat) :
    jobsFor (jobs ++ jobs') ix = jobsFor jobs ix ++ jobsFor jobs' ix := by
  simp [jobsFor]

theorem jobsFor_cons (jx : Option Nat) (msg : SendJob) (jobs : List (Option Nat × SendJob))
    (ix : Nat) :
    jobsFor ((jx, msg) :: jobs) ix = (if jx = some ix then [msg] else []) ++ jobsFor jobs ix := by
  by_cases h : jx = some ix <;> simp [jobsFor, h]

/-- Jobs that all go to worker `jx`. -/
theorem jobsFor_map (msgs : List SendJob) (jx ix : Nat) :
    jobsFor (msgs.map fun msg => (some jx, msg)) ix = if jx = ix then msgs else [] := by
  induction msgs with
  | nil => simp
  | cons msg msgs ih =>
      rw [List.map_cons, jobsFor_cons, ih]
      by_cases h : jx = ix <;> simp [h]

/-- The prompt, if it is for side `s`. -/
def promptFor (g : Game) (s : Side) : List SendJob := if g.nextMove = s then [g.msgTrick] else []

theorem mem_promptFor {g : Game} {s : Side} {msg : SendJob} :
    msg ∈ promptFor g s ↔ g.nextMove = s ∧ msg = g.msgTrick := by
  unfold promptFor
  split
  case isTrue hturn => simp [hturn]
  case isFalse hturn => simp [hturn]

section Seated

variable {σ : Server} {s : Side} {ix : Nat} (hseat : ∀ t, σ.activeSides t = some ix ↔ t = s)

include hseat

theorem jobsFor_toAll (msg : SendJob) : jobsFor (σ.toAll msg) ix = [msg] := by
  simp only [jobsFor, toAll, Side.sides_, List.map_cons, List.map_nil, List.filter_cons,
    List.filter_nil, hseat]
  cases s <;> simp

theorem jobsFor_scoreJobs (g : Game) : jobsFor (σ.scoreJobs g) ix =
    [.score g.penaltiesRound.entries, .total g.penalties.entries] := by
  simp only [jobsFor, scoreJobs, Side.sides_, List.flatMap_cons, List.flatMap_nil, List.append_nil,
    List.cons_append, List.nil_append, List.filter_cons, List.filter_nil, hseat]
  cases s <;> simp

theorem jobsFor_dealJobs (g : Game) : jobsFor (σ.dealJobs g) ix = [g.msgDeal (g.hands s)] := by
  simp only [jobsFor, dealJobs, Side.sides_, List.map_cons, List.map_nil, List.filter_cons,
    List.filter_nil, hseat]
  cases s <;> simp

theorem jobsFor_promptJobs (g : Game) : jobsFor (σ.promptJobs g) ix = promptFor g s := by
  simp only [promptJobs, jobsFor_cons, hseat, jobsFor_nil, List.append_nil, promptFor]

end Seated

section Free

variable {σ : Server} {ix : Nat} (hfree : ∀ t, σ.activeSides t ≠ some ix)

include hfree

theorem jobsFor_toAll_free (msg : SendJob) : jobsFor (σ.toAll msg) ix = [] := by
  simp [jobsFor, toAll, hfree]

theorem jobsFor_scoreJobs_free (g : Game) : jobsFor (σ.scoreJobs g) ix = [] := by
  simp [jobsFor, scoreJobs, Side.sides_, hfree]

theorem jobsFor_dealJobs_free (g : Game) : jobsFor (σ.dealJobs g) ix = [] := by
  simp [jobsFor, dealJobs, hfree]

theorem jobsFor_promptJobs_free (g : Game) : jobsFor (σ.promptJobs g) ix = [] := by
  simp [promptJobs, jobsFor_cons, hfree]

end Free

/-- What side `s` receives of an accepted card, and the game it leads to. -/
inductive Announces (σ : Server) (side : Side) (card : Card) (s : Side) (σ' : Server) :
    List SendJob → Prop
  | inTrick (hlen : (σ.game.putCard side card).table.length ≠ 4)
      (hgame : σ'.game = σ.game.putCard side card) (hdeal : σ'.lastDeal = σ.lastDeal) :
      Announces σ side card s σ' (promptFor σ'.game s)
  | trickDone (hlen : (σ.game.putCard side card).table.length = 4)
      (hgame : σ'.game = (σ.game.putCard side card).takeTrick)
      (hno : σ'.game.trickNo ≠ TRICKS_PER_ROUND + 1) (hdeal : σ'.lastDeal = σ.lastDeal) :
      Announces σ side card s σ' ((σ.game.putCard side card).msgTaken :: promptFor σ'.game s)
  | roundDone (g : Game) (r : Round) (hlen : (σ.game.putCard side card).table.length = 4)
      (hno : (σ.game.putCard side card).takeTrick.trickNo = TRICKS_PER_ROUND + 1)
      (hg : g = (σ.game.putCard side card).takeTrick.updatePenalties)
      (hr : σ.gameScenario[g.leaveRound.roundNumber]? = some r)
      (hgame : σ'.game = g.leaveRound.prepare r) (hdeal : σ'.lastDeal = some r.deal) :
      Announces σ side card s σ' ((σ.game.putCard side card).msgTaken ::
        .score g.penaltiesRound.entries :: .total g.penalties.entries ::
          σ'.game.msgDeal (r.deal s) :: promptFor σ'.game s)
  | gameDone (g : Game) (hlen : (σ.game.putCard side card).table.length = 4)
      (hno : (σ.game.putCard side card).takeTrick.trickNo = TRICKS_PER_ROUND + 1)
      (hg : g = (σ.game.putCard side card).takeTrick.updatePenalties)
      (hlast : g.leaveRound.roundNumber = σ.gameScenario.length)
      (hgame : σ'.game = g.leaveRound) (hdeal : σ'.lastDeal = σ.lastDeal) :
      Announces σ side card s σ' [(σ.game.putCard side card).msgTaken,
        .score g.penaltiesRound.entries, .total g.penalties.entries]

/-- What the worker `ix`, which has side `s` in the state `σ'`, receives in the call that leads
there. -/
inductive Delivers (σ : Server) (s : Side) (ix : Nat) : Call → Server → List SendJob → Prop
  | quiet (e : Call) (σ' : Server) (hseat : σ.activeSides s = some ix)
      (hnone : σ.accepts e = none) (hgame : σ'.game = σ.game) (hdeal : σ'.lastDeal = σ.lastDeal) :
      Delivers σ s ix e σ' []
  | lobby (σ' : Server) (hseat : σ.activeSides s = none)
      (hrole : σ.workerMgr.roles.find? ix = some .servingUnknown) (hpc : σ.playersConnected + 1 ≠ 4)
      (hgame : σ'.game = σ.game) (hold : σ.lastDeal = none) (hdeal : σ'.lastDeal = none) :
      Delivers σ s ix (.playerIntro s ix) σ' []
  | firstDeal (side : Side) (jx : Nat) (σ' : Server)
      (hrole : σ.workerMgr.roles.find? jx = some .servingUnknown)
      (hfree : σ.activeSides side = none) (hpc : σ.playersConnected + 1 = 4)
      (hgame : σ'.game = σ.game) (hold : σ.lastDeal = none)
      (hdeal : σ'.lastDeal = some σ.game.hands)
      (hmine : if s = side then jx = ix else σ.activeSides s = some ix) :
      Delivers σ s ix (.playerIntro side jx) σ'
        (σ.game.msgDeal (σ.game.hands s) :: promptFor σ.game s)
  | rejoin (deal : TableState) (σ' : Server) (hseat : σ.activeSides s = none)
      (hrole : σ.workerMgr.roles.find? ix = some .servingUnknown)
      (hgame : σ'.game = σ.game) (hold : σ.lastDeal = some deal) (hdeal : σ'.lastDeal = some deal) :
      Delivers σ s ix (.playerIntro s ix) σ' (σ.game.msgDeal (deal s) :: (σ.game.takenInRound ++
        if σ.playersConnected + 1 = 4 then promptFor σ.game s else []))
  | resume (side : Side) (jx : Nat) (deal : TableState) (σ' : Server) (hne : s ≠ side)
      (hseat : σ.activeSides s = some ix) (hrole : σ.workerMgr.roles.find? jx = some .servingUnknown)
      (hfree : σ.activeSides side = none) (hpc : σ.playersConnected + 1 = 4)
      (hgame : σ'.game = σ.game) (hold : σ.lastDeal = some deal) (hdeal : σ'.lastDeal = some deal) :
      Delivers σ s ix (.playerIntro side jx) σ' (promptFor σ.game s)
  | wrong (n : Nat) (card : Card) (jx : Nat) (σ' : Server) (hseat : σ.activeSides s = some ix)
      (hpc : 4 ≤ σ.playersConnected) (hside : σ.sideOf jx = some s) (hbad : ¬ σ.admits n card s)
      (hgame : σ'.game = σ.game) (hdeal : σ'.lastDeal = σ.lastDeal) :
      Delivers σ s ix (.playerTricked n card jx) σ' [.wrong σ.game.trickNo]
  | timeout (σ' : Server) (hseat : σ.activeSides s = some ix) (hpc : 4 ≤ σ.playersConnected)
      (hexit : σ.exiting = false) (hturn : σ.game.nextMove = s) (hgame : σ'.game = σ.game)
      (hdeal : σ'.lastDeal = σ.lastDeal) :
      Delivers σ s ix (.handleTimeout ix) σ' [σ.game.msgTrick]
  | accepted (n : Nat) (card : Card) (jx : Nat) (side : Side) (σ' : Server) (msgs : List SendJob)
      (hseat : σ.activeSides s = some ix) (hpc : 4 ≤ σ.playersConnected)
      (hside : σ.sideOf jx = some side) (hgood : σ.admits n card side)
      (hacc : Accepted σ side card σ') (hmsgs : Announces σ side card s σ' msgs) :
      Delivers σ s ix (.playerTricked n card jx) σ' msgs

theorem history_eq {σ σ' : Server} {out : List (Nat × SendJob)}
    (h : σ'.workerMgr.sent = σ.workerMgr.sent ++ out) (ix : Nat) :
    σ'.history ix = σ.history ix ++ received σ σ' ix := by
  rw [history, h, inbox_append, received, mailed_eq h]
  rfl

theorem received_eq {σ σ' : Server} {out : List (Nat × SendJob)}
    {jobs : List (Option Nat × SendJob)} (h : σ'.workerMgr.sent = σ.workerMgr.sent ++ out)
    (haddr : Addressed jobs out) (ix : Nat) : received σ σ' ix = jobsFor jobs ix := by
  rw [received, mailed_eq h, inbox_addressed haddr]

theorem received_self (σ : Server) (ix : Nat) : received σ σ ix = [] := by
  simp [received, mailed]

/-- Nobody receives anything when nothing is posted. -/
theorem received_nothing {σ σ' : Server} (h : σ'.workerMgr.sent = σ.workerMgr.sent ++ [])
    (ix : Nat) : received σ σ' ix = [] := by
  rw [received, mailed_eq h]
  rfl

/-- A worker sits on one side only. -/
theorem SeatBook.side_unique {σ : Server} (h : SeatBook σ) {s : Side} {ix : Nat}
    (hseat : σ.activeSides s = some ix) (t : Side) : σ.activeSides t = some ix ↔ t = s := by
  constructor
  · intro ht
    exact Option.some.inj ((h.seat t ix ht).1.symm.trans (h.seat s ix hseat).1)
  · rintro rfl
    exact hseat

/-- With four players connected every side is occupied. -/
theorem SeatBook.full {σ : Server} (h : SeatBook σ) (hpc : 4 ≤ σ.playersConnected) (s : Side) :
    ∃ ix, σ.activeSides s = some ix := by
  have hle := occupied_card_le σ.activeSides
  have hcount := h.count
  exact occupied_card_eq_four (by omega) s

/-- A worker that has not spoken yet has no side. -/
theorem SeatBook.unknown_free {σ : Server} (h : SeatBook σ) {ix : Nat}
    (hrole : σ.workerMgr.roles.find? ix = some .servingUnknown) (t : Side) :
    σ.activeSides t ≠ some ix := by
  intro ht
  obtain ⟨-, role, hrole', hne⟩ := h.seat t ix ht
  exact hne (Option.some.inj (hrole'.symm.trans hrole))

/-- What an accepted card announces to a seated worker. -/
theorem Accepted.announces {σ σ' : Server} {side : Side} {card : Card}
    (h : Accepted σ side card σ') {s : Side} {ix : Nat}
    (hseat : ∀ t, σ.activeSides t = some ix ↔ t = s) :
    Announces σ side card s σ' (received σ σ' ix) := by
  cases h with
  | inTrick g mgr out hg hlen hpost haddr =>
      subst hg
      rw [received_eq hpost.sent haddr, jobsFor_promptJobs hseat]
      exact .inTrick hlen rfl rfl
  | trickDone g₀ g mgr out hg₀ hlen hg hno hpost haddr =>
      subst hg₀ hg
      rw [received_eq hpost.sent haddr, jobsFor_append, jobsFor_toAll hseat, jobsFor_promptJobs hseat]
      exact .trickDone hlen rfl hno rfl
  | roundDone g₀ g₁ g r mgr out hg₀ hlen hg₁ hno hlast hr hg hpost haddr =>
      subst hg₀ hg₁ hg
      rw [received_eq hpost.sent haddr]
      simp only [jobsFor_append, jobsFor_toAll hseat, jobsFor_scoreJobs hseat,
        jobsFor_dealJobs hseat, jobsFor_promptJobs hseat]
      exact .roundDone _ r hlen hno rfl hr rfl rfl
  | gameDone g₀ g₁ g mgr out σ' hg₀ hlen hg₁ hno hlast hg hpost haddr hfin =>
      subst hg₀ hg₁ hg
      rw [received_eq (hfin.frame.2.2.trans hpost.sent) haddr]
      simp only [jobsFor_append, jobsFor_toAll hseat, jobsFor_scoreJobs hseat]
      exact .gameDone _ hlen hno rfl hlast hfin.frame.1 hfin.rest.1

/-- **What a seated worker receives.** -/
theorem Effect.delivers {σ σ' : Server} {e : Call} {b : Bool} (h : Effect σ e b σ')
    (hbook : SeatBook σ) {s : Side} {ix : Nat} (hseat' : σ'.activeSides s = some ix) :
    Delivers σ s ix e σ' (received σ σ' ix) := by
  have hbook' := hbook.effect h
  rcases h.accepts_cases with ⟨hnone, -⟩ | ⟨n, card, jx, side, rfl, -, hpc, hside, hgood, hacc⟩
  case inr =>
    have hseat : σ.activeSides s = some ix := by rwa [hacc.sameSeats.activeSides] at hseat'
    exact .accepted n card jx side σ' _ hseat hpc hside hgood hacc
      (hacc.announces (hbook.side_unique hseat))
  -- a call that accepts no card: most of them send nothing to a seat
  have hquiet : σ.activeSides s = some ix → received σ σ' ix = [] → σ'.game = σ.game →
      σ'.lastDeal = σ.lastDeal → Delivers σ s ix e σ' (received σ σ' ix) := by
    intro hseat hnil hgame hdeal
    rw [hnil]
    exact .quiet e σ' hseat hnone hgame hdeal
  have hstays : ∀ {t : Side}, Function.update σ.activeSides t none s = some ix →
      σ.activeSides s = some ix := by
    intro t ht
    by_cases hs : s = t
    · simp [hs] at ht
    · simpa [hs] using ht
  cases h with
  | trickAccepted n card jx side σ' hpc hside hgood hacc => simp [accepts, hpc, hside, hgood] at hnone
  | introParked | trickParked | trickIgnored | timeoutIdle | wrongParked | exitRefused | exitDone
  | gate => exact hquiet hseat' (received_self σ ix) rfl rfl
  | introAgain side jx role mgr hrole hne hpc hpost hkill hwoken =>
      exact hquiet hseat' (received_nothing hpost.sent ix) rfl rfl
  | introBusy side jx kx mgr hrole hkx hpost =>
      refine hquiet hseat' ?_ rfl rfl
      have hne : jx ≠ ix := by
        rintro rfl
        exact hbook.unknown_free hrole s hseat'
      have hsent : received σ { σ with workerMgr := mgr } ix = inbox [(jx, .busy σ.sidesBusy)] ix := by
        rw [received, mailed_eq hpost.sent]
      rw [hsent, inbox, List.filter_cons_of_neg (by simpa using hne)]
      rfl
  | introLobby side jx hrole hfree hdeal hpc =>
      by_cases hs : s = side
      · subst hs
        obtain rfl : jx = ix := by simpa using hseat'
        rw [received_nothing (by simp [seated, IOWorkerMgr.withRole]) jx]
        exact .lobby _ hfree hrole hpc rfl hdeal hdeal
      · refine hquiet (by simpa [seated, hs] using hseat') ?_ rfl rfl
        exact received_nothing (by simp [seated, IOWorkerMgr.withRole]) ix
  | introFirstDeal side jx mgr out hrole hfree hdeal hpc hpost haddr =>
      have huniq : ∀ t, (σ.seated side jx).activeSides t = some ix ↔ t = s :=
        hbook'.side_unique hseat'
      rw [received_eq hpost.sent haddr, jobsFor_append, jobsFor_dealJobs huniq,
        jobsFor_promptJobs huniq]
      refine .firstDeal side jx _ hrole hfree hpc rfl hdeal rfl ?_
      by_cases hs : s = side
      · subst hs
        simpa using hseat'
      · simpa [seated, hs] using hseat'
  | introRejoin side jx deal mgr out hrole hfree hdeal hpc hpost haddr =>
      rw [received_eq hpost.sent haddr, jobsFor_cons, jobsFor_map]
      by_cases hs : s = side
      · subst hs
        obtain rfl : jx = ix := by simpa [seated] using hseat'
        have hjoin : Delivers σ s jx (.playerIntro s jx)
            { σ.seated s jx with workerMgr := mgr } _ := .rejoin deal _ hfree hrole rfl hdeal hdeal
        simpa [hpc] using hjoin
      · have hold : σ.activeSides s = some ix := by simpa [seated, hs] using hseat'
        have hne : jx ≠ ix := by
          rintro rfl
          exact hbook.unknown_free hrole s hold
        have hnil := hquiet hold (by
          rw [received_eq hpost.sent haddr, jobsFor_cons, jobsFor_map]
          simp [hne]) rfl rfl
        rw [received_eq hpost.sent haddr, jobsFor_cons, jobsFor_map] at hnil
        exact hnil
  | introResume side jx deal mgr out hrole hfree hdeal hpc hpost haddr hwoken =>
      have huniq : ∀ t, (σ.seated side jx).activeSides t = some ix ↔ t = s :=
        hbook'.side_unique hseat'
      rw [received_eq hpost.sent haddr, jobsFor_cons, jobsFor_append, jobsFor_map,
        jobsFor_promptJobs huniq]
      by_cases hs : s = side
      · subst hs
        obtain rfl : jx = ix := by simpa [seated] using hseat'
        have hjoin : Delivers σ s jx (.playerIntro s jx)
            { σ.seated s jx with workerMgr := mgr } _ := .rejoin deal _ hfree hrole rfl hdeal hdeal
        simpa [hpc] using hjoin
      · have hold : σ.activeSides s = some ix := by simpa [seated, hs] using hseat'
        have hne : jx ≠ ix := by
          rintro rfl
          exact hbook.unknown_free hrole s hold
        have hjoin : Delivers σ s ix (.playerIntro side jx)
            { σ.seated side jx with workerMgr := mgr } _ :=
          .resume side jx deal _ hs hold hrole hfree hpc rfl hdeal hdeal
        simpa [hne] using hjoin
  | trickUnknown n card jx mgr hpc hrole hpost hkill hwoken =>
      exact hquiet hseat' (received_nothing hpost.sent ix) rfl rfl
  | trickProxy n card jx σ' hpc hrole hfin =>
      refine hquiet (by rwa [hfin.sameSeats.activeSides] at hseat') ?_ hfin.frame.1 hfin.rest.1
      exact received_nothing (by rw [hfin.frame.2.2, List.append_nil]; rfl) ix
  | trickRejected n card jx kx side mgr hpc hside hbad hkx hpost =>
      have hsent : received σ { σ with workerMgr := mgr } ix = inbox [(kx, .wrong σ.game.trickNo)] ix := by
        rw [received, mailed_eq hpost.sent]
      by_cases hs : s = side
      · subst hs
        obtain rfl : kx = ix := Option.some.inj (hkx.symm.trans hseat')
        have hwrong : Delivers σ s kx (.playerTricked n card jx) { σ with workerMgr := mgr } _ :=
          .wrong n card jx _ hkx hpc hside hbad rfl rfl
        rw [hsent]
        simpa [inbox] using hwrong
      · have hne : kx ≠ ix := by
          rintro rfl
          exact hs ((hbook.side_unique hkx s).mp hseat').symm.symm
        refine hquiet hseat' ?_ rfl rfl
        rw [hsent, inbox, List.filter_cons_of_neg (by simpa using hne)]
        rfl
  | timeoutKill jx mgr hexit hrole hpost hkill hwoken =>
      exact hquiet hseat' (received_nothing hpost.sent ix) rfl rfl
  | timeoutPrompt jx mgr hexit hpc hrole hside hpost =>
      have hsent : received σ { σ with workerMgr := mgr } ix = inbox [(jx, σ.game.msgTrick)] ix := by
        rw [received, mailed_eq hpost.sent]
      by_cases hne : jx = ix
      · subst hne
        have hturn : σ.game.nextMove = s :=
          Option.some.inj (hside.symm.trans (hbook.seat s jx hseat').1)
        have hprompt : Delivers σ s jx (.handleTimeout jx) { σ with workerMgr := mgr } _ :=
          .timeout _ hseat' hpc hexit hturn rfl rfl
        rw [hsent]
        simpa [inbox] using hprompt
      · refine hquiet hseat' ?_ rfl rfl
        rw [hsent, inbox, List.filter_cons_of_neg (by simpa using hne)]
        rfl
  | wrongKill jx mgr hgo hpost hkill hwoken =>
      exact hquiet hseat' (received_nothing hpost.sent ix) rfl rfl
  | exitInternal errs jx hasWork σ' herr hfin =>
      refine hquiet (by rwa [hfin.sameSeats.activeSides] at hseat') ?_ hfin.frame.1 hfin.rest.1
      exact received_nothing (by rw [hfin.frame.2.2, List.append_nil]) ix
  | exitUnknown errs jx hasWork herr hrole =>
      exact hquiet hseat' (received_nothing (by simp) ix) rfl rfl
  | exitLeave errs jx hasWork t herr hrole hside hlater =>
      refine hquiet (hstays hseat') (received_nothing (by simp [IOWorkerMgr.withRole]) ix) rfl rfl
  | exitLeaveErased errs jx hasWork t herr hrole hside hnow =>
      refine hquiet (hstays hseat') (received_nothing (by simp [unseated]) ix) rfl rfl
  | exitErased errs jx hasWork role herr hrole hclean hnow =>
      exact hquiet hseat' (received_nothing (by simp) ix) rfl rfl
  | exitProxy errs jx hasWork σ' herr hrole hfin =>
      refine hquiet (by rwa [hfin.sameSeats.activeSides] at hseat') ?_ hfin.frame.1 hfin.rest.1
      exact received_nothing (by rw [hfin.frame.2.2, List.append_nil, erased_sent]) ix
  | connected => exact hquiet hseat' (received_nothing (by simp [forwardConnection, spawnNewWorker]) ix) rfl rfl
  | popped jx q job rest hq hjobs =>
      exact hquiet hseat' (received_nothing (List.append_nil _).symm ix) rfl rfl
  | piped jx => exact hquiet hseat' (received_nothing (List.append_nil _).symm ix) rfl rfl
  | cleared => exact hquiet hseat' (received_nothing (by simp) ix) rfl rfl

/-- An accepted card announces nothing to a worker without a side. -/
theorem Accepted.received_free {σ σ' : Server} {side : Side} {card : Card}
    (h : Accepted σ side card σ') {ix : Nat} (hfree : ∀ t, σ.activeSides t ≠ some ix) :
    received σ σ' ix = [] := by
  cases h with
  | inTrick g mgr out hg hlen hpost haddr =>
      rw [received_eq hpost.sent haddr, jobsFor_promptJobs_free hfree]
  | trickDone g₀ g mgr out hg₀ hlen hg hno hpost haddr =>
      rw [received_eq hpost.sent haddr, jobsFor_append, jobsFor_toAll_free hfree,
        jobsFor_promptJobs_free hfree]
      rfl
  | roundDone g₀ g₁ g r mgr out hg₀ hlen hg₁ hno hlast hr hg hpost haddr =>
      rw [received_eq hpost.sent haddr]
      simp only [jobsFor_append, jobsFor_toAll_free hfree, jobsFor_scoreJobs_free hfree,
        jobsFor_dealJobs_free hfree, jobsFor_promptJobs_free hfree, List.append_nil]
  | gameDone g₀ g₁ g mgr out σ' hg₀ hlen hg₁ hno hlast hg hpost haddr hfin =>
      rw [received_eq (hfin.frame.2.2.trans hpost.sent) haddr]
      simp only [jobsFor_append, jobsFor_toAll_free hfree, jobsFor_scoreJobs_free hfree,
        List.append_nil]

/-- **A worker without a side** receives nothing but a `BUSY`, with its role taken away. -/
theorem Effect.received_free {σ σ' : Server} {e : Call} {b : Bool} (h : Effect σ e b σ')
    (hbook : SeatBook σ) {ix : Nat} (hfree' : ∀ t, σ'.activeSides t ≠ some ix) :
    ∀ msg ∈ received σ σ' ix, ∃ sides, msg = .busy sides ∧
      σ'.workerMgr.roles.find? ix = some .cleanupUnknown := by
  have hnothing : received σ σ' ix = [] → ∀ msg ∈ received σ σ' ix, ∃ sides, msg = .busy sides ∧
      σ'.workerMgr.roles.find? ix = some .cleanupUnknown := by
    intro hnil
    simp [hnil]
  have hsingle : ∀ {mgr : IOWorkerMgr} {jx : Nat} {msg : SendJob},
      σ'.workerMgr = mgr → mgr.sent = σ.workerMgr.sent ++ [(jx, msg)] → jx ≠ ix →
        received σ σ' ix = [] := by
    intro mgr jx msg hmgr hsent hne
    rw [received, mailed_eq (hmgr ▸ hsent), inbox, List.filter_cons_of_neg (by simpa using hne)]
    rfl
  -- messages go to workers with a side, or to the one that is refused; a kill order is no message
  cases h with
  | introParked | trickParked | trickIgnored | timeoutIdle | wrongParked | exitRefused | exitDone
  | gate => exact hnothing (received_self σ ix)
  | introAgain side jx role mgr hrole hne hpc hpost hkill hwoken =>
      exact hnothing (received_nothing hpost.sent ix)
  | introBusy side jx kx mgr hrole hkx hpost =>
      intro msg hmsg
      rw [received, mailed_eq hpost.sent, mem_inbox, List.mem_singleton] at hmsg
      obtain ⟨rfl, rfl⟩ := Prod.mk.inj hmsg
      exact ⟨_, rfl, by simp [hpost.roles, IOWorkerMgr.withRole]⟩
  | introLobby side jx hrole hfree hdeal hpc =>
      exact hnothing (received_nothing (by simp [seated, IOWorkerMgr.withRole]) ix)
  | introFirstDeal side jx mgr out hrole hfree hdeal hpc hpost haddr =>
      have hnobody : ∀ t, (σ.seated side jx).activeSides t ≠ some ix := hfree'
      refine hnothing ?_
      rw [received_eq hpost.sent haddr, jobsFor_append, jobsFor_dealJobs_free hnobody,
        jobsFor_promptJobs_free hnobody]
      rfl
  | introRejoin side jx deal mgr out hrole hfree hdeal hpc hpost haddr =>
      have hne : jx ≠ ix := by
        rintro rfl
        exact hfree' side (seated_activeSides_self σ side jx)
      refine hnothing ?_
      rw [received_eq hpost.sent haddr, jobsFor_cons, jobsFor_map]
      simp [hne]
  | introResume side jx deal mgr out hrole hfree hdeal hpc hpost haddr hwoken =>
      have hne : jx ≠ ix := by
        rintro rfl
        exact hfree' side (seated_activeSides_self σ side jx)
      have hnobody : ∀ t, (σ.seated side jx).activeSides t ≠ some ix := hfree'
      refine hnothing ?_
      rw [received_eq hpost.sent haddr, jobsFor_cons, jobsFor_append, jobsFor_map,
        jobsFor_promptJobs_free hnobody]
      simp [hne]
  | trickUnknown n card jx mgr hpc hrole hpost hkill hwoken =>
      exact hnothing (received_nothing hpost.sent ix)
  | trickProxy n card jx σ' hpc hrole hfin =>
      exact hnothing (received_nothing (by rw [hfin.frame.2.2, List.append_nil]; rfl) ix)
  | trickRejected n card jx kx side mgr hpc hside hbad hkx hpost =>
      refine hnothing (hsingle rfl hpost.sent ?_)
      rintro rfl
      exact hfree' side hkx
  | trickAccepted n card jx side σ' hpc hside hgood hacc =>
      exact hnothing (hacc.received_free (by rwa [hacc.sameSeats.activeSides] at hfree'))
  | timeoutKill jx mgr hexit hrole hpost hkill hwoken =>
      exact hnothing (received_nothing hpost.sent ix)
  | timeoutPrompt jx mgr hexit hpc hrole hside hpost =>
      refine hnothing (hsingle rfl hpost.sent ?_)
      rintro rfl
      obtain ⟨t, ht⟩ := hbook.active jx hrole
      exact hfree' t ht
  | wrongKill jx mgr hgo hpost hkill hwoken =>
      exact hnothing (received_nothing hpost.sent ix)
  | exitInternal errs jx hasWork σ' herr hfin =>
      exact hnothing (received_nothing (by rw [hfin.frame.2.2, List.append_nil]) ix)
  | exitUnknown errs jx hasWork herr hrole => exact hnothing (received_nothing (by simp) ix)
  | exitLeave errs jx hasWork t herr hrole hside hlater =>
      exact hnothing (received_nothing (by simp [IOWorkerMgr.withRole]) ix)
  | exitLeaveErased errs jx hasWork t herr hrole hside hnow =>
      exact hnothing (received_nothing (by simp [unseated]) ix)
  | exitErased errs jx hasWork role herr hrole hclean hnow =>
      exact hnothing (received_nothing (by simp) ix)
  | exitProxy errs jx hasWork σ' herr hrole hfin =>
      exact hnothing (received_nothing (by rw [hfin.frame.2.2, List.append_nil, erased_sent]) ix)
  | connected => exact hnothing (received_nothing (by simp [forwardConnection, spawnNewWorker]) ix)
  | popped jx q job rest hq hjobs => exact hnothing (received_nothing (List.append_nil _).symm ix)
  | piped jx => exact hnothing (received_nothing (List.append_nil _).symm ix)
  | cleared => exact hnothing (received_nothing (by simp) ix)

end Server

end Kierki
