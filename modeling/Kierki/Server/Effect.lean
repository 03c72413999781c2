import Kierki.Server.Mail

/-!
# What one call can do

`Effect σ e b σ'` lists the outcomes of a call that does not end the process, one constructor for each
path through a handler, with the guards of the path and the state it leaves.  `handle_effect` says
that the list is complete; the invariants are proved by cases on it and never unfold a handler.
-/

namespace Kierki

open Fallible

namespace Server

open IOWorkerMgr

/-- One message for each side. -/
def toAll (σ : Server) (msg : SendJob) : List (Option Nat × SendJob) :=
  Side.sides_.map fun s => (σ.activeSides s, msg)

/-- The score and the total of a finished round, for each side. -/
def scoreJobs (σ : Server) (g : Game) : List (Option Nat × SendJob) :=
  Side.sides_.flatMap fun s =>
    [(σ.activeSides s, SendJob.score g.penaltiesRound.entries),
      (σ.activeSides s, SendJob.total g.penalties.entries)]

/-- Each side's hand as a deal. -/
def dealJobs (σ : Server) (g : Game) : List (Option Nat × SendJob) :=
  Side.sides_.map fun s => (σ.activeSides s, g.msgDeal (g.hands s))

/-- The prompt for the player whose turn it is. -/
def promptJobs (σ : Server) (g : Game) : List (Option Nat × SendJob) :=
  [(σ.activeSides g.nextMove, g.msgTrick)]

/-- The state after `shutDown`. -/
def erased (σ : Server) (ix : Nat) : Server :=
  { σ with workerMgr := (σ.workerMgr.withRole ix .shutdown).eraseWorker ix }

@[simp] theorem erased_sent (σ : Server) (ix : Nat) :
    (σ.erased ix).workerMgr.sent = σ.workerMgr.sent := eraseWorker_sent _ ix

/-- The state after `takeSeat`. -/
def seated (σ : Server) (side : Side) (ix : Nat) : Server :=
  { σ with
    activeSides := Function.update σ.activeSides side (some ix)
    workerToSide := σ.workerToSide.insert ix side
    workerMgr := σ.workerMgr.withRole ix .servingActive
    playersConnected := σ.playersConnected + 1 }

@[simp] theorem seated_lastDeal (σ : Server) (side : Side) (ix : Nat) :
    (σ.seated side ix).lastDeal = σ.lastDeal := rfl

@[simp] theorem seated_game (σ : Server) (side : Side) (ix : Nat) :
    (σ.seated side ix).game = σ.game := rfl

@[simp] theorem seated_activeSides_self (σ : Server) (side : Side) (ix : Nat) :
    (σ.seated side ix).activeSides side = some ix := by
  simp [seated]

/-- The state in which `grandExitCallback` has freed the seat of `ix`. -/
def unseated (σ : Server) (s : Side) (ix : Nat) : Server :=
  { σ with
    playersConnected := σ.playersConnected - 1
    activeSides := Function.update σ.activeSides s none
    zombieWorkerToSide := σ.zombieWorkerToSide.insert ix s
    workerToSide := σ.workerToSide.erase ix }

/-- The outcomes of `finalize`. -/
inductive Finalized (σ : Server) : Server → Prop
  | again (hexit : σ.exiting = true) : Finalized σ σ
  | now (hexit : σ.exiting = false) (mgr : IOWorkerMgr)
      (hpost : Posted σ.workerMgr.releaseCleaner mgr [])
      (hkill : ∀ ix, mgr.Registered ix → ix ∉ mgr.toErase → mgr.Killed ix ∧ 0 < mgr.unread ix) :
      Finalized σ { σ with exiting := true, workerMgr := mgr }

/-- The outcomes of an accepted card: the trick goes on, the trick is over, the round is over, the
game is over. -/
inductive Accepted (σ : Server) (side : Side) (card : Card) : Server → Prop
  | inTrick (g : Game) (mgr : IOWorkerMgr) (out : List (Nat × SendJob))
      (hg : g = σ.game.putCard side card) (hlen : g.table.length ≠ 4)
      (hpost : Posted σ.workerMgr mgr out) (haddr : Addressed (σ.promptJobs g) out) :
      Accepted σ side card { σ with game := g, workerMgr := mgr }
  | trickDone (g₀ g : Game) (mgr : IOWorkerMgr) (out : List (Nat × SendJob))
      (hg₀ : g₀ = σ.game.putCard side card) (hlen : g₀.table.length = 4) (hg : g = g₀.takeTrick)
      (hno : g.trickNo ≠ TRICKS_PER_ROUND + 1) (hpost : Posted σ.workerMgr mgr out)
      (haddr : Addressed (σ.toAll g₀.msgTaken ++ σ.promptJobs g) out) :
      Accepted σ side card { σ with game := g, workerMgr := mgr }
  | roundDone (g₀ g₁ g : Game) (r : Round) (mgr : IOWorkerMgr) (out : List (Nat × SendJob))
      (hg₀ : g₀ = σ.game.putCard side card) (hlen : g₀.table.length = 4)
      (hg₁ : g₁ = g₀.takeTrick.updatePenalties)
      (hno : g₀.takeTrick.trickNo = TRICKS_PER_ROUND + 1)
      (hlast : g₁.leaveRound.roundNumber ≠ σ.gameScenario.length)
      (hr : σ.gameScenario[g₁.leaveRound.roundNumber]? = some r)
      (hg : g = g₁.leaveRound.prepare r) (hpost : Posted σ.workerMgr mgr out)
      (haddr : Addressed (σ.toAll g₀.msgTaken ++ (σ.scoreJobs g₁ ++ (σ.dealJobs g ++ σ.promptJobs g)))
        out) :
      Accepted σ side card { σ with game := g, workerMgr := mgr, lastDeal := some r.deal }
  | gameDone (g₀ g₁ g : Game) (mgr : IOWorkerMgr) (out : List (Nat × SendJob)) (σ' : Server)
      (hg₀ : g₀ = σ.game.putCard side card) (hlen : g₀.table.length = 4)
      (hg₁ : g₁ = g₀.takeTrick.updatePenalties)
      (hno : g₀.takeTrick.trickNo = TRICKS_PER_ROUND + 1)
      (hlast : g₁.leaveRound.roundNumber = σ.gameScenario.length)
      (hg : g = g₁.leaveRound) (hpost : Posted σ.workerMgr mgr out)
      (haddr : Addressed (σ.toAll g₀.msgTaken ++ σ.scoreJobs g₁) out)
      (hfin : Finalized { σ with game := g, workerMgr := mgr } σ') :
      Accepted σ side card σ'

/-- The side for which worker `ix` plays: its seat, or the seat it had when its connection ended. -/
def sideOf (σ : Server) (ix : Nat) : Option Side :=
  match σ.workerMgr.roles.find? ix with
  | some .servingActive => σ.workerToSide.find? ix
  | some .cleanup => σ.zombieWorkerToSide.find? ix
  | _ => none

/-- The test of `playerTricked`: the number of the trick, the turn and the rules. -/
def admits (σ : Server) (trickNo : Nat) (card : Card) (side : Side) : Prop :=
  trickNo = σ.game.trickNo ∧ σ.game.nextMove = side ∧
    GameRules.isMoveLegal side card σ.game.hands σ.game.table = true

instance (σ : Server) (trickNo : Nat) (card : Card) (side : Side) :
    Decidable (σ.admits trickNo card side) := by
  unfold admits
  infer_instance

/-- The card that a call puts on the table, with the side that plays it. -/
def accepts (σ : Server) : Call → Option (Side × Card)
  | .playerTricked n card ix =>
      if 4 ≤ σ.playersConnected then
        (σ.sideOf ix).bind fun side => if σ.admits n card side then some (side, card) else none
      else none
  | _ => none

/-- The outcomes of a call. -/
inductive Effect (σ : Server) : Call → Bool → Server → Prop
  | introParked (side : Side) (ix : Nat) (role : WorkerStatus)
      (hrole : σ.workerMgr.roles.find? ix = some role) (hne : role ≠ .servingUnknown)
      (hpc : σ.playersConnected < 4) :
      Effect σ (.playerIntro side ix) false σ
  | introAgain (side : Side) (ix : Nat) (role : WorkerStatus) (mgr : IOWorkerMgr)
      (hrole : σ.workerMgr.roles.find? ix = some role) (hne : role ≠ .servingUnknown)
      (hpc : 4 ≤ σ.playersConnected) (hpost : Posted (σ.workerMgr.withRole ix .cleanup) mgr [])
      (hkill : mgr.Killed ix) (hwoken : 0 < mgr.unread ix) :
      Effect σ (.playerIntro side ix) true { σ with workerMgr := mgr }
  | introBusy (side : Side) (ix jx : Nat) (mgr : IOWorkerMgr)
      (hrole : σ.workerMgr.roles.find? ix = some .servingUnknown)
      (hseat : σ.activeSides side = some jx)
      (hpost : Posted (σ.workerMgr.withRole ix .cleanupUnknown) mgr [(ix, .busy σ.sidesBusy)]) :
      Effect σ (.playerIntro side ix) true { σ with workerMgr := mgr }
  | introLobby (side : Side) (ix : Nat) (hrole : σ.workerMgr.roles.find? ix = some .servingUnknown)
      (hseat : σ.activeSides side = none) (hdeal : σ.lastDeal = none)
      (hpc : σ.playersConnected + 1 ≠ 4) :
      Effect σ (.playerIntro side ix) true (σ.seated side ix)
  | introFirstDeal (side : Side) (ix : Nat) (mgr : IOWorkerMgr) (out : List (Nat × SendJob))
      (hrole : σ.workerMgr.roles.find? ix = some .servingUnknown)
      (hseat : σ.activeSides side = none) (hdeal : σ.lastDeal = none)
      (hpc : σ.playersConnected + 1 = 4) (hpost : Posted (σ.seated side ix).workerMgr mgr out)
      (haddr : Addressed ((σ.seated side ix).dealJobs σ.game ++ (σ.seated side ix).promptJobs σ.game)
        out) :
      Effect σ (.playerIntro side ix) true
        { σ.seated side ix with workerMgr := mgr, lastDeal := some σ.game.hands }
  | introRejoin (side : Side) (ix : Nat) (deal : TableState) (mgr : IOWorkerMgr)
      (out : List (Nat × SendJob)) (hrole : σ.workerMgr.roles.find? ix = some .servingUnknown)
      (hseat : σ.activeSides side = none) (hdeal : σ.lastDeal = some deal)
      (hpc : σ.playersConnected + 1 ≠ 4) (hpost : Posted (σ.seated side ix).workerMgr mgr out)
      (haddr : Addressed ((some ix, σ.game.msgDeal (deal side)) ::
        σ.game.takenInRound.map fun msg => (some ix, msg)) out) :
      Effect σ (.playerIntro side ix) true { σ.seated side ix with workerMgr := mgr }
  | introResume (side : Side) (ix : Nat) (deal : TableState) (mgr : IOWorkerMgr)
      (out : List (Nat × SendJob)) (hrole : σ.workerMgr.roles.find? ix = some .servingUnknown)
      (hseat : σ.activeSides side = none) (hdeal : σ.lastDeal = some deal)
      (hpc : σ.playersConnected + 1 = 4) (hpost : Posted (σ.seated side ix).workerMgr mgr out)
      (haddr : Addressed ((some ix, σ.game.msgDeal (deal side)) ::
        (σ.game.takenInRound.map (fun msg => (some ix, msg)) ++ (σ.seated side ix).promptJobs σ.game))
        out)
      (hwoken : ∀ jx role, mgr.roles.find? jx = some role →
        role = .servingActive ∨ role = .cleanupUnknown ∨ role = .servingUnknown → 0 < mgr.unread jx) :
      Effect σ (.playerIntro side ix) true { σ.seated side ix with workerMgr := mgr }
  | trickParked (n : Nat) (card : Card) (ix : Nat) (hpc : σ.playersConnected < 4) :
      Effect σ (.playerTricked n card ix) false σ
  | trickUnknown (n : Nat) (card : Card) (ix : Nat) (mgr : IOWorkerMgr)
      (hpc : 4 ≤ σ.playersConnected) (hrole : σ.workerMgr.roles.find? ix = some .servingUnknown)
      (hpost : Posted (σ.workerMgr.withRole ix .cleanupUnknown) mgr []) (hkill : mgr.Killed ix)
      (hwoken : 0 < mgr.unread ix) :
      Effect σ (.playerTricked n card ix) true { σ with workerMgr := mgr }
  | trickProxy (n : Nat) (card : Card) (ix : Nat) (σ' : Server)
      (hpc : 4 ≤ σ.playersConnected) (hrole : σ.workerMgr.roles.find? ix = some .servingProxy)
      (hfin : Finalized { σ with workerMgr := σ.workerMgr.withRole ix .cleanupUnknown } σ') :
      Effect σ (.playerTricked n card ix) true σ'
  | trickIgnored (n : Nat) (card : Card) (ix : Nat) (role : WorkerStatus)
      (hpc : 4 ≤ σ.playersConnected) (hrole : σ.workerMgr.roles.find? ix = some role)
      (hdone : role = .cleanupUnknown ∨ role = .shutdown) :
      Effect σ (.playerTricked n card ix) true σ
  | trickRejected (n : Nat) (card : Card) (ix jx : Nat) (side : Side) (mgr : IOWorkerMgr)
      (hpc : 4 ≤ σ.playersConnected) (hside : σ.sideOf ix = some side) (hbad : ¬ σ.admits n card side)
      (hseat : σ.activeSides side = some jx)
      (hpost : Posted σ.workerMgr mgr [(jx, .wrong σ.game.trickNo)]) :
      Effect σ (.playerTricked n card ix) true { σ with workerMgr := mgr }
  | trickAccepted (n : Nat) (card : Card) (ix : Nat) (side : Side) (σ' : Server)
      (hpc : 4 ≤ σ.playersConnected) (hside : σ.sideOf ix = some side) (hgood : σ.admits n card side)
      (hacc : Accepted σ side card σ') :
      Effect σ (.playerTricked n card ix) true σ'
  | timeoutIdle (ix : Nat)
      (hidle : σ.exiting = true ∨ (∃ role, σ.workerMgr.roles.find? ix = some role ∧
        role ≠ .servingUnknown)) :
      Effect σ (.handleTimeout ix) true σ
  | timeoutKill (ix : Nat) (mgr : IOWorkerMgr) (hexit : σ.exiting = false)
      (hrole : σ.workerMgr.roles.find? ix = some .servingUnknown)
      (hpost : Posted σ.workerMgr mgr []) (hkill : mgr.Killed ix) (hwoken : 0 < mgr.unread ix) :
      Effect σ (.handleTimeout ix) true { σ with workerMgr := mgr }
  | timeoutPrompt (ix : Nat) (mgr : IOWorkerMgr) (hexit : σ.exiting = false)
      (hpc : 4 ≤ σ.playersConnected) (hrole : σ.workerMgr.roles.find? ix = some .servingActive)
      (hside : σ.workerToSide.find? ix = some σ.game.nextMove)
      (hpost : Posted σ.workerMgr mgr [(ix, σ.game.msgTrick)]) :
      Effect σ (.handleTimeout ix) true { σ with workerMgr := mgr }
  | wrongParked (ix : Nat) (hpc : σ.playersConnected < 4) (hexit : σ.exiting = false) :
      Effect σ (.handleWrongMessage ix) false σ
  | wrongKill (ix : Nat) (mgr : IOWorkerMgr) (hgo : 4 ≤ σ.playersConnected ∨ σ.exiting = true)
      (hpost : Posted σ.workerMgr mgr []) (hkill : mgr.Killed ix) (hwoken : 0 < mgr.unread ix) :
      Effect σ (.handleWrongMessage ix) true { σ with workerMgr := mgr }
  | exitInternal (errs : List IOErrClass) (ix : Nat) (hasWork : Bool) (σ' : Server)
      (herr : .internal ∈ errs) (hfin : Finalized { σ with exitCode := 1 } σ') :
      Effect σ (.grandExitCallback errs ix hasWork) true σ'
  | exitUnknown (errs : List IOErrClass) (ix : Nat) (hasWork : Bool) (herr : .internal ∉ errs)
      (hrole : σ.workerMgr.roles.find? ix = some .servingUnknown) :
      Effect σ (.grandExitCallback errs ix hasWork) true (σ.erased ix)
  | exitLeave (errs : List IOErrClass) (ix : Nat) (hasWork : Bool) (s : Side)
      (herr : .internal ∉ errs) (hrole : σ.workerMgr.roles.find? ix = some .servingActive)
      (hside : σ.workerToSide.find? ix = some s)
      (hlater : hasWork = true ∨ (σ.playersConnected - 1 < 3 ∧ σ.exiting = false)) :
      Effect σ (.grandExitCallback errs ix hasWork) false
        { σ.unseated s ix with workerMgr := σ.workerMgr.withRole ix .cleanup }
  | exitLeaveErased (errs : List IOErrClass) (ix : Nat) (hasWork : Bool) (s : Side)
      (herr : .internal ∉ errs) (hrole : σ.workerMgr.roles.find? ix = some .servingActive)
      (hside : σ.workerToSide.find? ix = some s)
      (hnow : hasWork = false ∧ (3 ≤ σ.playersConnected - 1 ∨ σ.exiting = true)) :
      Effect σ (.grandExitCallback errs ix hasWork) true ((σ.unseated s ix).erased ix)
  | exitRefused (errs : List IOErrClass) (ix : Nat) (hasWork : Bool) (role : WorkerStatus)
      (herr : .internal ∉ errs) (hrole : σ.workerMgr.roles.find? ix = some role)
      (hclean : role = .cleanup ∨ role = .cleanupUnknown)
      (hlater : σ.playersConnected ≠ 4 ∨ hasWork = true) :
      Effect σ (.grandExitCallback errs ix hasWork) false σ
  | exitErased (errs : List IOErrClass) (ix : Nat) (hasWork : Bool) (role : WorkerStatus)
      (herr : .internal ∉ errs) (hrole : σ.workerMgr.roles.find? ix = some role)
      (hclean : role = .cleanup ∨ role = .cleanupUnknown)
      (hnow : σ.playersConnected = 4 ∧ hasWork = false) :
      Effect σ (.grandExitCallback errs ix hasWork) true (σ.erased ix)
  | exitDone (errs : List IOErrClass) (ix : Nat) (hasWork : Bool) (herr : .internal ∉ errs)
      (hrole : σ.workerMgr.roles.find? ix = some .shutdown) :
      Effect σ (.grandExitCallback errs ix hasWork) true σ
  | exitProxy (errs : List IOErrClass) (ix : Nat) (hasWork : Bool) (σ' : Server)
      (herr : .internal ∉ errs) (hrole : σ.workerMgr.roles.find? ix = some .servingProxy)
      (hfin : Finalized (σ.erased ix) σ') :
      Effect σ (.grandExitCallback errs ix hasWork) true σ'
  | gate : Effect σ .execMutexed σ.execMutexed σ
  | connected : Effect σ .forwardConnection true σ.forwardConnection
  | popped (ix : Nat) (q : JobQueue) (job : SendJob) (rest : List SendJob)
      (hq : σ.workerMgr.workers.find? ix = some q) (hjobs : q.jobsPending = job :: rest) :
      Effect σ (.popNextJob ix) true
        { σ with workerMgr := { σ.workerMgr with
          workers := σ.workerMgr.workers.insert ix { q with jobsPending := rest } } }
  | piped (ix : Nat) :
      Effect σ (.handlePipe ix) true { σ with workerMgr := σ.workerMgr.handlePipe ix }
  | cleared :
      Effect σ .waitForClearing true { σ with workerMgr := σ.workerMgr.waitForClearing }

theorem finalize_eq_ok {σ σ' : Server} (h : σ.finalize = .ok σ') : Finalized σ σ' := by
  unfold finalize at h
  cases hexit : σ.exiting with
  | true =>
      obtain rfl : σ = σ' := by simpa [hexit] using h
      exact .again hexit
  | false =>
      simp only [hexit, Bool.false_eq_true, if_false, bind_eq_ok, pure_eq_ok_iff] at h
      obtain ⟨mgr, hmgr, rfl⟩ := h
      obtain ⟨hpost, hkill⟩ := finish_eq_ok hmgr
      refine .now hexit mgr hpost fun ix hreg hne => ?_
      exact hkill ix ((hpost.registered ix).mp hreg) (by rwa [← hpost.toErase])

theorem finalize_ok (σ : Server) : ∃ σ', σ.finalize = .ok σ' := by
  obtain ⟨mgr, hmgr⟩ := finish_ok σ.workerMgr.releaseCleaner
  cases hexit : σ.exiting with
  | true => exact ⟨σ, by simp [finalize, hexit]⟩
  | false => exact ⟨{ σ with exiting := true, workerMgr := mgr }, by simp [finalize, hexit, hmgr]⟩

theorem shutDown_eq_ok {σ σ' : Server} {ix : Nat} (h : σ.shutDown ix = .ok σ') :
    σ' = σ.erased ix := by
  unfold shutDown at h
  simp only [bind_eq_ok, setRole_eq_ok, pure_eq_ok_iff] at h
  obtain ⟨mgr, ⟨-, rfl⟩, rfl⟩ := h
  rfl

theorem takeSeat_eq_ok {σ σ' : Server} {side : Side} {ix : Nat}
    (h : σ.takeSeat side ix = .ok σ') : σ' = σ.seated side ix := by
  unfold takeSeat at h
  simp only [bind_eq_ok, setRole_eq_ok, pure_eq_ok_iff] at h
  obtain ⟨mgr, ⟨-, rfl⟩, rfl⟩ := h
  rfl

theorem firstDeal_eq_ok {σ σ' : Server} (h : σ.firstDeal = .ok σ') :
    ∃ mgr out, σ' = { σ with workerMgr := mgr, lastDeal := some σ.game.hands } ∧
      Posted σ.workerMgr mgr out ∧ Addressed (σ.dealJobs σ.game ++ σ.promptJobs σ.game) out := by
  unfold firstDeal at h
  simp only [bind_eq_ok] at h
  obtain ⟨σ₁, hσ₁, hσ₂⟩ := h
  obtain ⟨mgr₁, out₁, rfl, hpost₁, haddr₁⟩ := sendJobs_eq_ok hσ₁
  obtain ⟨mgr₂, out₂, rfl, hpost₂, haddr₂⟩ := sendJobs_eq_ok hσ₂
  exact ⟨mgr₂, out₁ ++ out₂, rfl, hpost₁.trans hpost₂, haddr₁.append haddr₂⟩

theorem rejoin_eq_ok {σ σ' : Server} {side : Side} {ix : Nat} {deal : TableState}
    (h : σ.rejoin side ix deal = .ok σ') :
    ∃ mgr out, σ' = { σ with workerMgr := mgr } ∧ Posted σ.workerMgr mgr out ∧
      Addressed ((σ.activeSides side, σ.game.msgDeal (deal side)) ::
        (σ.game.takenInRound.map (fun msg => (some ix, msg)) ++
          if σ.playersConnected = 4 then σ.promptJobs σ.game else [])) out ∧
      (σ.playersConnected = 4 → ∀ jx role, mgr.roles.find? jx = some role →
        role = .servingActive ∨ role = .cleanupUnknown ∨ role = .servingUnknown →
          0 < mgr.unread jx) := by
  unfold rejoin at h
  simp only [bind_eq_ok] at h
  obtain ⟨σ₁, hσ₁, σ₂, hσ₂, hσ₃⟩ := h
  obtain ⟨mgr₁, out₁, rfl, hpost₁, haddr₁⟩ := sendJobs_eq_ok hσ₁
  obtain ⟨mgr₂, out₂, rfl, hpost₂, haddr₂⟩ := sendJobs_eq_ok hσ₂
  by_cases hpc : σ.playersConnected = 4
  · rw [if_pos hpc] at hσ₃
    obtain ⟨mgr₃, out₃, rfl, hpost₃, haddr₃⟩ := sendJobs_eq_ok hσ₃
    obtain ⟨hpostA, hwokenA⟩ := posted_signalRole mgr₂ .servingActive
    obtain ⟨hpostC, hwokenC⟩ := posted_signalRole (mgr₂.signalRole .servingActive) .cleanupUnknown
    obtain ⟨hpostU, hwokenU⟩ := posted_signalRole
      ((mgr₂.signalRole .servingActive).signalRole .cleanupUnknown) .servingUnknown
    refine ⟨mgr₃, out₁ ++ (out₂ ++ out₃), rfl, ?_, ?_, fun _ jx role hrole hsig => ?_⟩
    · exact hpost₁.trans (hpost₂.trans (hpostA.trans (hpostC.trans (hpostU.trans hpost₃))))
    · rw [if_pos hpc]
      exact haddr₁.append (haddr₂.append haddr₃)
    · -- each of the three calls wakes its role, and no later message takes a byte away
      have hroles : mgr₂.roles.find? jx = some role := by
        rw [← hrole, hpost₃.roles, hpostU.roles, hpostC.roles, hpostA.roles]
      refine lt_of_lt_of_le ?_ (hpost₃.unread jx)
      rcases hsig with rfl | rfl | rfl
      · exact ((hwokenA jx hroles).trans_le (hpostC.unread jx)).trans_le (hpostU.unread jx)
      · exact (hwokenC jx (by rw [hpostA.roles]; exact hroles)).trans_le (hpostU.unread jx)
      · exact hwokenU jx (by rw [hpostC.roles, hpostA.roles]; exact hroles)
  · rw [if_neg hpc] at hσ₃
    obtain rfl : _ = σ' := by simpa using hσ₃
    refine ⟨mgr₂, out₁ ++ out₂, rfl, hpost₁.trans hpost₂, ?_, fun h => absurd h hpc⟩
    rw [if_neg hpc, List.append_nil]
    exact haddr₁.append haddr₂

theorem playerIntro_effect {σ σ' : Server} {side : Side} {ix : Nat} {b : Bool}
    (h : σ.playerIntro side ix = .ok (b, σ')) : Effect σ (.playerIntro side ix) b σ' := by
  unfold playerIntro at h
  simp only [bind_eq_ok, getRole_eq_ok] at h
  obtain ⟨role, hrole, h⟩ := h
  by_cases hne : role = .servingUnknown
  · subst hne
    rw [if_neg (by simp)] at h
    cases hseat : σ.activeSides side with
    | some jx =>
        simp only [hseat, bind_eq_ok, setRole_eq_ok, pure_eq_ok_iff, Prod.mk.injEq] at h
        obtain ⟨mgr₀, ⟨-, rfl⟩, σ₁, hσ₁, rfl, rfl⟩ := h
        obtain ⟨mgr, out, rfl, hpost, haddr⟩ := sendJobs_eq_ok hσ₁
        obtain ⟨i, hi, rfl⟩ := addressed_singleton haddr
        obtain rfl : ix = i := Option.some.inj hi
        exact .introBusy side ix jx mgr hrole hseat hpost
    | none =>
        simp only [hseat, bind_eq_ok] at h
        obtain ⟨σ₁, hσ₁, h⟩ := h
        obtain rfl := takeSeat_eq_ok hσ₁
        cases hdeal : σ.lastDeal with
        | none =>
            simp only [seated_lastDeal, hdeal] at h
            -- the first deal waits for the fourth player
            by_cases hpc : (σ.seated side ix).playersConnected = 4
            · rw [if_pos hpc] at h
              simp only [bind_eq_ok, pure_eq_ok_iff, Prod.mk.injEq] at h
              obtain ⟨σ₂, hσ₂, rfl, rfl⟩ := h
              obtain ⟨mgr, out, rfl, hpost, haddr⟩ := firstDeal_eq_ok hσ₂
              exact .introFirstDeal side ix mgr out hrole hseat hdeal hpc hpost haddr
            · rw [if_neg hpc] at h
              obtain ⟨rfl, rfl⟩ : true = b ∧ σ.seated side ix = σ' := by simpa using h
              exact .introLobby side ix hrole hseat hdeal hpc
        | some deal =>
            simp only [seated_lastDeal, hdeal, bind_eq_ok, pure_eq_ok_iff, Prod.mk.injEq] at h
            obtain ⟨σ₂, hσ₂, rfl, rfl⟩ := h
            obtain ⟨mgr, out, rfl, hpost, haddr, hwoken⟩ := rejoin_eq_ok hσ₂
            rw [seated_activeSides_self] at haddr
            -- the replay goes out at once, and the prompt with the fourth player
            by_cases hpc : (σ.seated side ix).playersConnected = 4
            · rw [if_pos hpc] at haddr
              exact .introResume side ix deal mgr out hrole hseat hdeal hpc hpost haddr (hwoken hpc)
            · rw [if_neg hpc, List.append_nil] at haddr
              exact .introRejoin side ix deal mgr out hrole hseat hdeal hpc hpost haddr
  · rw [if_pos hne] at h
    -- a second `IAM` is parked in the lobby and in a pause, and ends the connection at a full table
    by_cases hpc : σ.playersConnected < 4
    · rw [if_pos hpc] at h
      obtain ⟨rfl, rfl⟩ : false = b ∧ σ = σ' := by simpa using h
      exact .introParked side ix role hrole hne hpc
    · rw [if_neg hpc] at h
      simp only [bind_eq_ok, setRole_eq_ok, pure_eq_ok_iff, Prod.mk.injEq] at h
      obtain ⟨mgr, hmgr, _, ⟨-, rfl⟩, rfl, rfl⟩ := h
      obtain ⟨-, hpost, hkill, hwoken⟩ := sendKill_eq_ok hmgr
      exact .introAgain side ix role _ hrole hne (by omega) (hpost.withRole ix .cleanup) hkill hwoken

theorem prepareRound_eq_ok {scenario : GameScenario} {g g' : Game}
    (h : g.prepareRound scenario = .ok g') :
    ∃ r, scenario[g.roundNumber]? = some r ∧ g' = g.prepare r := by
  unfold Game.prepareRound at h
  simp only [bind_eq_ok, require_eq_ok, pure_eq_ok_iff] at h
  obtain ⟨r, hr, rfl⟩ := h
  exact ⟨r, hr, rfl⟩

/-- The end of a round: the scores go out, and then the next round is dealt or the game is over. -/
theorem roundEnded_eq_ok {σ σ' : Server} {done : Bool} (h : σ.roundEnded = .ok (done, σ')) :
    (done = false ∧ ∃ r g₁ g mgr out, g₁ = σ.game.updatePenalties ∧
        g₁.leaveRound.roundNumber ≠ σ.gameScenario.length ∧
        σ.gameScenario[g₁.leaveRound.roundNumber]? = some r ∧ g = g₁.leaveRound.prepare r ∧
        σ' = { σ with game := g, workerMgr := mgr, lastDeal := some r.deal } ∧
        Posted σ.workerMgr mgr out ∧ Addressed (σ.scoreJobs g₁ ++ σ.dealJobs g) out) ∨
      (done = true ∧ ∃ g₁ g mgr out, g₁ = σ.game.updatePenalties ∧
        g₁.leaveRound.roundNumber = σ.gameScenario.length ∧ g = g₁.leaveRound ∧
        Posted σ.workerMgr mgr out ∧ Addressed (σ.scoreJobs g₁) out ∧
        Finalized { σ with game := g, workerMgr := mgr } σ') := by
  unfold roundEnded at h
  simp only [bind_eq_ok] at h
  obtain ⟨σ₁, hσ₁, h⟩ := h
  obtain ⟨mgr₁, out₁, rfl, hpost₁, haddr₁⟩ := sendJobs_eq_ok hσ₁
  by_cases hlast : σ.game.updatePenalties.leaveRound.roundNumber = σ.gameScenario.length
  · rw [if_pos hlast] at h
    simp only [bind_eq_ok, pure_eq_ok_iff, Prod.mk.injEq] at h
    obtain ⟨σ₂, hfin, rfl, rfl⟩ := h
    exact .inr ⟨rfl, _, _, mgr₁, out₁, rfl, hlast, rfl, hpost₁, haddr₁, finalize_eq_ok hfin⟩
  · rw [if_neg hlast] at h
    simp only [bind_eq_ok, pure_eq_ok_iff, Prod.mk.injEq] at h
    obtain ⟨g, hg, σ₂, hσ₂, rfl, rfl⟩ := h
    obtain ⟨r, hr, rfl⟩ := prepareRound_eq_ok hg
    obtain ⟨mgr₂, out₂, rfl, hpost₂, haddr₂⟩ := sendJobs_eq_ok hσ₂
    exact .inl ⟨rfl, r, _, _, mgr₂, out₁ ++ out₂, rfl, hlast, hr, rfl, rfl,
      hpost₁.trans hpost₂, haddr₁.append haddr₂⟩

/-- An admitted card is accepted, in one of the four ways. -/
theorem offerCard_accepted {σ σ' : Server} {n : Nat} {card : Card} {side : Side}
    (h : σ.offerCard n card side = .ok σ') (hgood : σ.admits n card side) :
    Accepted σ side card σ' := by
  obtain ⟨hn, hturn, hlegal⟩ := hgood
  unfold offerCard at h
  rw [if_neg (by simp [hn, hturn]), if_neg (by simp [hlegal])] at h
  by_cases hlen : (σ.game.putCard side card).table.length = 4
  · rw [if_pos hlen] at h
    simp only [trickEnded, bind_eq_ok, Prod.exists] at h
    obtain ⟨done, σ₂, ⟨σ₁, hσ₁, h₂⟩, h⟩ := h
    obtain ⟨mgr₁, out₁, rfl, hpost₁, haddr₁⟩ := sendJobs_eq_ok hσ₁
    -- the number behind the last trick ends the round, and the last round the game
    by_cases hno : (σ.game.putCard side card).takeTrick.trickNo = TRICKS_PER_ROUND + 1
    · rw [if_pos hno] at h₂
      rcases roundEnded_eq_ok h₂ with
        ⟨rfl, r, g₁, g, mgr₂, out₂, hg₁, hlast, hr, hg, rfl, hpost₂, haddr₂⟩ |
        ⟨rfl, g₁, g, mgr₂, out₂, hg₁, hlast, hg, hpost₂, haddr₂, hfin⟩
      · rw [if_neg (by simp)] at h
        obtain ⟨mgr₃, out₃, rfl, hpost₃, haddr₃⟩ := sendJobs_eq_ok h
        refine .roundDone _ g₁ g r mgr₃ (out₁ ++ (out₂ ++ out₃)) rfl hlen hg₁ hno hlast hr hg
          (hpost₁.trans (hpost₂.trans hpost₃)) ?_
        have hmid := haddr₂.append haddr₃
        rw [List.append_assoc] at hmid
        exact haddr₁.append hmid
      · rw [if_pos rfl] at h
        obtain rfl : σ₂ = σ' := by simpa using h
        exact .gameDone _ g₁ g mgr₂ (out₁ ++ out₂) σ₂ rfl hlen hg₁ hno hlast hg
          (hpost₁.trans hpost₂) (haddr₁.append haddr₂) hfin
    · rw [if_neg hno] at h₂
      obtain ⟨rfl, rfl⟩ : false = done ∧ _ = σ₂ := by simpa using h₂
      rw [if_neg (by simp)] at h
      obtain ⟨mgr₂, out₂, rfl, hpost₂, haddr₂⟩ := sendJobs_eq_ok h
      exact .trickDone _ _ mgr₂ (out₁ ++ out₂) rfl hlen rfl hno (hpost₁.trans hpost₂)
        (haddr₁.append haddr₂)
  · -- the trick goes on, and only the prompt is sent
    rw [if_neg hlen] at h
    simp only [ok_bind, Bool.false_eq_true, if_false] at h
    obtain ⟨mgr, out, rfl, hpost, haddr⟩ := sendJobs_eq_ok h
    exact .inTrick _ mgr out rfl hlen hpost haddr

/-- A card that is not admitted is answered by one `WRONG` to the seat of its side. -/
theorem offerCard_rejected {σ σ' : Server} {n : Nat} {card : Card} {side : Side}
    (h : σ.offerCard n card side = .ok σ') (hbad : ¬ σ.admits n card side) :
    ∃ jx mgr, σ.activeSides side = some jx ∧ σ' = { σ with workerMgr := mgr } ∧
      Posted σ.workerMgr mgr [(jx, .wrong σ.game.trickNo)] := by
  have hwrong : σ.sendJobs [(σ.activeSides side, .wrong σ.game.trickNo)] = .ok σ' := by
    unfold offerCard at h
    by_cases hturn : n ≠ σ.game.trickNo ∨ σ.game.nextMove ≠ side
    · rwa [if_pos hturn] at h
    · have hillegal : GameRules.isMoveLegal side card σ.game.hands σ.game.table = false := by
        simp only [not_or, not_not] at hturn
        by_contra hlegal
        exact hbad ⟨hturn.1, hturn.2, by simpa using hlegal⟩
      rwa [if_neg hturn, if_pos hillegal] at h
  obtain ⟨mgr, out, rfl, hpost, haddr⟩ := sendJobs_eq_ok hwrong
  obtain ⟨jx, hjx, rfl⟩ := addressed_singleton haddr
  exact ⟨jx, mgr, hjx, rfl, hpost⟩

theorem offerCard_effect {σ σ' : Server} {n : Nat} {card : Card} {ix : Nat} {side : Side}
    (hpc : 4 ≤ σ.playersConnected) (hside : σ.sideOf ix = some side)
    (h : σ.offerCard n card side = .ok σ') : Effect σ (.playerTricked n card ix) true σ' := by
  by_cases hgood : σ.admits n card side
  · exact .trickAccepted n card ix side σ' hpc hside hgood (offerCard_accepted h hgood)
  · obtain ⟨jx, mgr, hseat, rfl, hpost⟩ := offerCard_rejected h hgood
    exact .trickRejected n card ix jx side mgr hpc hside hgood hseat hpost

theorem playerTricked_effect {σ σ' : Server} {n : Nat} {card : Card} {ix : Nat} {b : Bool}
    (h : σ.playerTricked n card ix = .ok (b, σ')) : Effect σ (.playerTricked n card ix) b σ' := by
  unfold playerTricked at h
  by_cases hpc : σ.playersConnected < 4
  · rw [if_pos hpc] at h
    obtain ⟨rfl, rfl⟩ : false = b ∧ σ = σ' := by simpa using h
    exact .trickParked n card ix hpc
  · rw [if_neg hpc] at h
    have hfour : 4 ≤ σ.playersConnected := by omega
    simp only [bind_eq_ok, getRole_eq_ok] at h
    obtain ⟨role, hrole, h⟩ := h
    cases role with
    | servingUnknown =>
        simp only [bind_eq_ok, setRole_eq_ok, pure_eq_ok_iff, Prod.mk.injEq] at h
        obtain ⟨_, ⟨-, rfl⟩, mgr, hmgr, rfl, rfl⟩ := h
        obtain ⟨-, hpost, hkill, hwoken⟩ := sendKill_eq_ok hmgr
        exact .trickUnknown n card ix mgr hfour hrole hpost hkill hwoken
    | servingActive =>
        simp only [bind_eq_ok, require_eq_ok, pure_eq_ok_iff, Prod.mk.injEq] at h
        obtain ⟨side, hside, _, h, rfl, rfl⟩ := h
        exact offerCard_effect hfour (by simp [sideOf, hrole, hside]) h
    | servingProxy =>
        simp only [bind_eq_ok, setRole_eq_ok, pure_eq_ok_iff, Prod.mk.injEq] at h
        obtain ⟨_, ⟨-, rfl⟩, _, hfin, rfl, rfl⟩ := h
        exact .trickProxy n card ix _ hfour hrole (finalize_eq_ok hfin)
    -- a worker on its way out still plays for the side it had
    | cleanup =>
        simp only [bind_eq_ok, require_eq_ok, pure_eq_ok_iff, Prod.mk.injEq] at h
        obtain ⟨side, hside, _, h, rfl, rfl⟩ := h
        exact offerCard_effect hfour (by simp [sideOf, hrole, hside]) h
    | cleanupUnknown =>
        obtain ⟨rfl, rfl⟩ : true = b ∧ σ = σ' := by simpa using h
        exact .trickIgnored n card ix _ hfour hrole (.inl rfl)
    | shutdown =>
        obtain ⟨rfl, rfl⟩ : true = b ∧ σ = σ' := by simpa using h
        exact .trickIgnored n card ix _ hfour hrole (.inr rfl)

theorem handleTimeout_effect {σ σ' : Server} {ix : Nat} (h : σ.handleTimeout ix = .ok σ') :
    Effect σ (.handleTimeout ix) true σ' := by
  unfold handleTimeout at h
  by_cases hexit : σ.exiting = true
  · rw [if_pos hexit] at h
    obtain rfl : σ = σ' := by simpa using h
    exact .timeoutIdle ix (.inl hexit)
  · rw [if_neg hexit] at h
    have hlive : σ.exiting = false := by simpa using hexit
    simp only [bind_eq_ok, getRole_eq_ok] at h
    obtain ⟨role, hrole, h⟩ := h
    -- only a stranger is killed, and only the player to move is asked again
    have hidle (hne : role ≠ .servingUnknown) : Effect σ (.handleTimeout ix) true σ :=
      .timeoutIdle ix (.inr ⟨role, hrole, hne⟩)
    cases role with
    | servingUnknown =>
        simp only [bind_eq_ok, pure_eq_ok_iff] at h
        obtain ⟨mgr, hmgr, rfl⟩ := h
        obtain ⟨-, hpost, hkill, hwoken⟩ := sendKill_eq_ok hmgr
        exact .timeoutKill ix mgr hlive hrole hpost hkill hwoken
    | servingActive =>
        simp only [bind_eq_ok, require_eq_ok] at h
        obtain ⟨side, hside, h⟩ := h
        by_cases hturn : σ.game.nextMove ≠ side
        · rw [if_pos hturn] at h
          obtain rfl : σ = σ' := by simpa using h
          exact hidle (by simp)
        · rw [if_neg hturn] at h
          by_cases hpc : σ.playersConnected < 4
          · rw [if_pos hpc] at h
            obtain rfl : σ = σ' := by simpa using h
            exact hidle (by simp)
          · rw [if_neg hpc] at h
            obtain ⟨mgr, out, rfl, hpost, haddr⟩ := sendJobs_eq_ok h
            obtain ⟨i, hi, rfl⟩ := addressed_singleton haddr
            obtain rfl : ix = i := Option.some.inj hi
            obtain rfl : σ.game.nextMove = side := not_not.mp hturn
            exact .timeoutPrompt ix mgr hlive (by omega) hrole hside hpost
    | servingProxy | cleanup | cleanupUnknown | shutdown =>
        obtain rfl : σ = σ' := by simpa using h
        exact hidle (by simp)

theorem handleWrongMessage_effect {σ σ' : Server} {ix : Nat} {b : Bool}
    (h : σ.handleWrongMessage ix = .ok (b, σ')) : Effect σ (.handleWrongMessage ix) b σ' := by
  unfold handleWrongMessage at h
  by_cases hpark : σ.playersConnected < 4 ∧ σ.exiting = false
  · rw [if_pos hpark] at h
    obtain ⟨rfl, rfl⟩ : false = b ∧ σ = σ' := by simpa using h
    exact .wrongParked ix hpark.1 hpark.2
  · rw [if_neg hpark] at h
    simp only [bind_eq_ok, pure_eq_ok_iff, Prod.mk.injEq] at h
    obtain ⟨mgr, hmgr, rfl, rfl⟩ := h
    obtain ⟨-, hpost, hkill, hwoken⟩ := sendKill_eq_ok hmgr
    refine .wrongKill ix mgr ?_ hpost hkill hwoken
    by_cases hpc : σ.playersConnected < 4
    · exact .inr (by simpa [hpc] using hpark)
    · exact .inl (by omega)

/-- The loop over the errors stops at an internal one and changes nothing otherwise. -/
theorem exitErrors_eq_ok {σ σ' : Server} {errs : List IOErrClass} {ended : Bool}
    (h : σ.exitErrors errs = .ok (ended, σ')) :
    (ended = false ∧ .internal ∉ errs ∧ σ' = σ) ∨
      (ended = true ∧ .internal ∈ errs ∧ Finalized { σ with exitCode := 1 } σ') := by
  induction errs with
  | nil =>
      obtain ⟨rfl, rfl⟩ : false = ended ∧ σ = σ' := by simpa [exitErrors] using h
      exact .inl ⟨rfl, by simp, rfl⟩
  | cons err errs ih =>
      simp only [exitErrors, handleSysErr] at h
      by_cases herr : err = .internal
      · simp only [herr, if_true, bind_eq_ok, pure_eq_ok_iff, Prod.exists, Prod.mk.injEq] at h
        obtain ⟨_, _, ⟨σ₁, hσ₁, rfl, rfl⟩, h⟩ := h
        rw [if_pos rfl] at h
        obtain ⟨rfl, rfl⟩ : true = ended ∧ σ₁ = σ' := by simpa using h
        exact .inr ⟨rfl, by simp [herr], finalize_eq_ok hσ₁⟩
      · rw [if_neg herr, ok_bind] at h
        rcases ih (by simpa using h) with ⟨hended, hne, hσ'⟩ | ⟨hended, hin, hfin⟩
        · exact .inl ⟨hended, by simp [hne, Ne.symm herr], hσ'⟩
        · exact .inr ⟨hended, List.mem_cons_of_mem _ hin, hfin⟩

theorem grandExitCallback_effect {σ σ' : Server} {errs : List IOErrClass} {ix : Nat}
    {hasWork b : Bool} (h : σ.grandExitCallback errs ix hasWork = .ok (b, σ')) :
    Effect σ (.grandExitCallback errs ix hasWork) b σ' := by
  unfold grandExitCallback at h
  simp only [bind_eq_ok, Prod.exists] at h
  obtain ⟨ended, σ₁, herrs, h⟩ := h
  rcases exitErrors_eq_ok herrs with ⟨rfl, herr, rfl⟩ | ⟨rfl, herr, hfin⟩
  · rw [if_neg (by simp)] at h
    simp only [bind_eq_ok, getRole_eq_ok] at h
    obtain ⟨role, hrole, h⟩ := h
    -- the two clean-up roles wait for a full table and an empty queue
    have hcleanup (hclean : role = .cleanup ∨ role = .cleanupUnknown)
        (h : (if σ₁.playersConnected = 4 ∧ hasWork = false then do
          return (true, ← σ₁.shutDown ix) else return (false, σ₁)) = Except.ok (b, σ')) :
        Effect σ₁ (.grandExitCallback errs ix hasWork) b σ' := by
      by_cases hnow : σ₁.playersConnected = 4 ∧ hasWork = false
      · rw [if_pos hnow] at h
        simp only [bind_eq_ok, pure_eq_ok_iff, Prod.mk.injEq] at h
        obtain ⟨_, hdown, rfl, rfl⟩ := h
        obtain rfl := shutDown_eq_ok hdown
        exact .exitErased errs ix hasWork role herr hrole hclean hnow
      · rw [if_neg hnow] at h
        obtain ⟨rfl, rfl⟩ : false = b ∧ σ₁ = σ' := by simpa using h
        refine .exitRefused errs ix hasWork role herr hrole hclean ?_
        by_cases hpc : σ₁.playersConnected = 4
        · exact .inr (by simpa [hpc] using hnow)
        · exact .inl hpc
    cases role with
    | servingUnknown =>
        simp only [bind_eq_ok, pure_eq_ok_iff, Prod.mk.injEq] at h
        obtain ⟨_, hdown, rfl, rfl⟩ := h
        obtain rfl := shutDown_eq_ok hdown
        exact .exitUnknown errs ix hasWork herr hrole
    | servingActive =>
        simp only [bind_eq_ok, require_eq_ok] at h
        obtain ⟨s, hside, h⟩ := h
        -- a player leaves its side at once; its worker goes now, or stays as `CLEANUP`
        by_cases hlater : hasWork = true ∨ (σ₁.playersConnected - 1 < 3 ∧ σ₁.exiting = false)
        · rw [if_pos hlater] at h
          simp only [bind_eq_ok, setRole_eq_ok, pure_eq_ok_iff, Prod.mk.injEq] at h
          obtain ⟨_, ⟨-, rfl⟩, rfl, rfl⟩ := h
          exact .exitLeave errs ix hasWork s herr hrole hside hlater
        · rw [if_neg hlater] at h
          simp only [bind_eq_ok, pure_eq_ok_iff, Prod.mk.injEq] at h
          obtain ⟨_, hdown, rfl, rfl⟩ := h
          obtain rfl := shutDown_eq_ok hdown
          refine .exitLeaveErased errs ix hasWork s herr hrole hside ?_
          simp only [not_or, not_and, Bool.not_eq_true, Bool.not_eq_false] at hlater
          refine ⟨hlater.1, ?_⟩
          by_cases hpc : σ₁.playersConnected - 1 < 3
          · exact .inr (hlater.2 hpc)
          · exact .inl (by omega)
    | servingProxy =>
        simp only [bind_eq_ok, pure_eq_ok_iff, Prod.mk.injEq] at h
        obtain ⟨_, hdown, _, hfin, rfl, rfl⟩ := h
        obtain rfl := shutDown_eq_ok hdown
        exact .exitProxy errs ix hasWork _ herr hrole (finalize_eq_ok hfin)
    | cleanup => exact hcleanup (.inl rfl) h
    | cleanupUnknown => exact hcleanup (.inr rfl) h
    | shutdown =>
        obtain ⟨rfl, rfl⟩ : true = b ∧ σ₁ = σ' := by simpa using h
        exact .exitDone errs ix hasWork herr hrole
  · -- an internal error ends the server before the role is looked at
    rw [if_pos rfl] at h
    obtain ⟨rfl, rfl⟩ : true = b ∧ σ₁ = σ' := by simpa using h
    exact .exitInternal errs ix hasWork σ₁ herr hfin

/-- **Completeness of the list of outcomes.** -/
theorem handle_effect {σ σ' : Server} {e : Call} {b : Bool} (h : σ.handle e = .ok (b, σ')) :
    Effect σ e b σ' := by
  cases e with
  | playerIntro side ix => exact playerIntro_effect h
  | playerTricked n card ix => exact playerTricked_effect h
  | handleTimeout ix =>
      simp only [handle, bind_eq_ok, pure_eq_ok_iff, Prod.mk.injEq] at h
      obtain ⟨_, h, rfl, rfl⟩ := h
      exact handleTimeout_effect h
  | handleWrongMessage ix => exact handleWrongMessage_effect h
  | grandExitCallback errs ix hasWork => exact grandExitCallback_effect h
  | execMutexed =>
      obtain ⟨rfl, rfl⟩ : σ.execMutexed = b ∧ σ = σ' := by simpa [handle] using h
      exact .gate
  | forwardConnection =>
      obtain ⟨rfl, rfl⟩ : true = b ∧ σ.forwardConnection = σ' := by simpa [handle] using h
      exact .connected
  | popNextJob ix =>
      simp only [handle, IOWorkerMgr.popNextJob, bind_eq_ok, require_eq_ok, pure_eq_ok_iff,
        Prod.exists, Prod.mk.injEq] at h
      obtain ⟨_, ⟨q, hq, job, q', hpop, rfl⟩, rfl, rfl⟩ := h
      unfold JobQueue.popNextJob at hpop
      -- an empty queue has no next job, so the call does not answer
      cases hjobs : q.jobsPending with
      | nil => simp [hjobs] at hpop
      | cons job' rest =>
          obtain ⟨rfl, rfl⟩ : job' = job ∧ { q with jobsPending := rest } = q' := by
            simpa [hjobs] using hpop
          exact .popped ix q job' rest hq hjobs
  | handlePipe ix =>
      obtain ⟨rfl, rfl⟩ : true = b ∧ { σ with workerMgr := σ.workerMgr.handlePipe ix } = σ' := by
        simpa [handle] using h
      exact .piped ix
  | waitForClearing =>
      obtain ⟨rfl, rfl⟩ : true = b ∧ { σ with workerMgr := σ.workerMgr.waitForClearing } = σ' := by
        simpa [handle] using h
      exact .cleared

theorem step_eq_some {σ σ' : Server} {e : Call} :
    σ.step e = some σ' ↔ ∃ b, σ.handle e = .ok (b, σ') := by
  unfold step
  cases h : σ.handle e with
  | error f => simp
  | ok r =>
      obtain ⟨b, σ₁⟩ := r
      simp [eq_comm]

theorem step_effect {σ σ' : Server} {e : Call} (h : σ.step e = some σ') :
    ∃ b, Effect σ e b σ' := by
  obtain ⟨b, hb⟩ := step_eq_some.mp h
  exact ⟨b, handle_effect hb⟩

theorem Finalized.frame {σ σ' : Server} (h : Finalized σ σ') :
    σ'.game = σ.game ∧ σ'.gameScenario = σ.gameScenario ∧
      σ'.workerMgr.sent = σ.workerMgr.sent := by
  cases h with
  | again _ => exact ⟨rfl, rfl, rfl⟩
  | now _ mgr hpost _ => exact ⟨rfl, rfl, by rw [hpost.sent, List.append_nil]; rfl⟩

theorem Finalized.rest {σ σ' : Server} (h : Finalized σ σ') :
    σ'.lastDeal = σ.lastDeal ∧ σ'.playersConnected = σ.playersConnected ∧ σ'.exiting = true := by
  cases h with
  | again hexit => exact ⟨rfl, rfl, hexit⟩
  | now _ mgr _ _ => exact ⟨rfl, rfl, rfl⟩

theorem Accepted.gameScenario {σ σ' : Server} {side : Side} {card : Card}
    (h : Accepted σ side card σ') : σ'.gameScenario = σ.gameScenario := by
  cases h with
  | gameDone g₀ g₁ g mgr out σ' _ _ _ _ _ _ _ _ hfin => exact hfin.frame.2.1
  | _ => rfl

/-- A call accepts a card, or it leaves the game alone. -/
theorem Effect.accepts_cases {σ σ' : Server} {e : Call} {b : Bool} (h : Effect σ e b σ') :
    (σ.accepts e = none ∧ σ'.game = σ.game ∧ σ'.gameScenario = σ.gameScenario) ∨
      ∃ n card ix side, e = .playerTricked n card ix ∧ σ.accepts e = some (side, card) ∧
        4 ≤ σ.playersConnected ∧ σ.sideOf ix = some side ∧ σ.admits n card side ∧
        Accepted σ side card σ' := by
  cases h with
  | trickAccepted n card ix side σ' hpc hside hgood hacc =>
      exact .inr ⟨n, card, ix, side, rfl, by simp [accepts, hpc, hside, hgood], hpc, hside, hgood, hacc⟩
  | trickParked n card ix hpc => exact .inl ⟨by simp [accepts, not_le.mpr hpc], rfl, rfl⟩
  | trickUnknown n card ix mgr hpc hrole _ _ _ =>
      exact .inl ⟨by simp [accepts, sideOf, hrole], rfl, rfl⟩
  | trickProxy n card ix σ' hpc hrole hfin =>
      exact .inl ⟨by simp [accepts, sideOf, hrole], hfin.frame.1, hfin.frame.2.1⟩
  | trickIgnored n card ix role hpc hrole hdone =>
      exact .inl ⟨by rcases hdone with rfl | rfl <;> simp [accepts, sideOf, hrole], rfl, rfl⟩
  | trickRejected n card ix jx side mgr hpc hside hbad _ _ =>
      exact .inl ⟨by simp [accepts, hside, hbad], rfl, rfl⟩
  | exitInternal errs ix hasWork σ' _ hfin => exact .inl ⟨rfl, hfin.frame.1, hfin.frame.2.1⟩
  | exitProxy errs ix hasWork σ' _ _ hfin => exact .inl ⟨rfl, hfin.frame.1, hfin.frame.2.1⟩
  | _ => exact .inl ⟨rfl, rfl, rfl⟩

/-- The state in which the threads start, once the first round is there. -/
def started (scenario : GameScenario) (timeout : Int) (r : Round) : Server :=
  { new scenario timeout with
    game := Game.new.prepare r
    workerMgr := IOWorkerMgr.new.spawnNewWorker .servingProxy }

theorem start_cons (r : Round) (rounds : GameScenario) (timeout : Int) :
    start (r :: rounds) timeout = .ok (started (r :: rounds) timeout r) := rfl

theorem start_eq_ok {scenario : GameScenario} {timeout : Int} {σ : Server}
    (h : start scenario timeout = .ok σ) :
    ∃ r, scenario[0]? = some r ∧ σ = started scenario timeout r := by
  unfold start at h
  simp only [bind_eq_ok, pure_eq_ok_iff] at h
  obtain ⟨g, hg, rfl⟩ := h
  obtain ⟨r, hr, rfl⟩ := prepareRound_eq_ok hg
  exact ⟨r, hr, rfl⟩

theorem run_eq_some {scenario : GameScenario} {timeout : Int} {es : List Call} {σ : Server} :
    run scenario timeout es = some σ ↔
      ∃ σ₀, start scenario timeout = .ok σ₀ ∧ Execution.exec step σ₀ es = some σ := by
  unfold run
  cases start scenario timeout <;> simp

@[simp] theorem runRecord_nil {β : Type} (f : Server → Call → Server → List β)
    (scenario : GameScenario) (timeout : Int) : runRecord f scenario timeout [] = [] := by
  unfold runRecord
  cases start scenario timeout <;> rfl

theorem run_concat {scenario : GameScenario} {timeout : Int} {es : List Call} {e : Call}
    {σ σ' : Server} (h : run scenario timeout es = some σ)
    (h' : run scenario timeout (es ++ [e]) = some σ') : σ.step e = some σ' := by
  obtain ⟨σ₀, h₀, hes⟩ := run_eq_some.mp h
  obtain ⟨σ₀', h₀', hes'⟩ := run_eq_some.mp h'
  obtain rfl : σ₀ = σ₀' := Except.ok.inj (h₀.symm.trans h₀')
  rw [Execution.exec_concat, hes] at hes'
  exact hes'

/-- One more call. -/
theorem run_handle {scenario : GameScenario} {timeout : Int} {es : List Call} {e : Call} {b : Bool}
    {σ σ' : Server} (h : run scenario timeout es = some σ) (he : σ.handle e = .ok (b, σ')) :
    run scenario timeout (es ++ [e]) = some σ' := by
  obtain ⟨σ₀, h₀, hes⟩ := run_eq_some.mp h
  have hstep : σ.step e = some σ' := step_eq_some.mpr ⟨b, he⟩
  exact run_eq_some.mpr ⟨σ₀, h₀, Execution.exec_concat_eq_some.mpr ⟨σ, hes, hstep⟩⟩

theorem runRecord_concat {β : Type} (f : Server → Call → Server → List β) {scenario : GameScenario}
    {timeout : Int} {es : List Call} {e : Call} {σ σ' : Server}
    (h : run scenario timeout es = some σ) (h' : run scenario timeout (es ++ [e]) = some σ') :
    runRecord f scenario timeout (es ++ [e]) = runRecord f scenario timeout es ++ f σ e σ' := by
  have hstep := run_concat h h'
  obtain ⟨σ₀, h₀, hes⟩ := run_eq_some.mp h
  simp only [runRecord, h₀]
  exact Execution.record_concat f hes hstep

/-- **Induction over runs of the server**: a property of the calls so far and the state they lead to
holds of every run once it holds at the start and every outcome of a call keeps it. -/
theorem run_induction {scenario : GameScenario} {timeout : Int} {P : List Call → Server → Prop}
    (hstart : ∀ r, scenario[0]? = some r → P [] (started scenario timeout r))
    (hstep : ∀ es σ e b σ', run scenario timeout es = some σ →
      run scenario timeout (es ++ [e]) = some σ' → P es σ → Effect σ e b σ' → P (es ++ [e]) σ')
    {es : List Call} {σ : Server} (h : run scenario timeout es = some σ) :
    P es σ := by
  obtain ⟨σ₀, h₀, hes⟩ := run_eq_some.mp h
  obtain ⟨r, hr, rfl⟩ := start_eq_ok h₀
  refine Execution.exec_induction (hstart r hr) (fun es σ e σ' hes hP he => ?_) es σ hes
  obtain ⟨b, heff⟩ := step_effect he
  exact hstep es σ e b σ' (run_eq_some.mpr ⟨_, h₀, hes⟩)
    (run_eq_some.mpr ⟨_, h₀, Execution.exec_concat_eq_some.mpr ⟨σ, hes, he⟩⟩) hP heff

/-- The same for a predicate on states. -/
theorem run_invariant {scenario : GameScenario} {timeout : Int} {Inv : Server → Prop}
    (hstart : ∀ r, scenario[0]? = some r → Inv (started scenario timeout r))
    (hstep : ∀ σ e b σ', Inv σ → Effect σ e b σ' → Inv σ') {es : List Call} {σ : Server}
    (h : run scenario timeout es = some σ) : Inv σ :=
  run_induction (P := fun _ σ => Inv σ) hstart
    (fun _ σ e b σ' _ _ hinv heff => hstep σ e b σ' hinv heff) h

end Server
end Kierki
