import Kierki.Library.Locks
import Kierki.Server.Effect

/-!
# Mutexes and failing system calls

The methods of `IOWorkerMgr` and the handlers of the server once more, with `gameStateMutex` and
`threadsStructuresMutex` as mutexes that are not recursive, and with `pipe` and `write` as calls that can
fail.  As in the source, the manager reports a failure to `pipeCb`, a parameter that `Server` sets to
`handleSysErr(info, false)`.

`follows_handle` says that a handler does what `Server.handle` says until such a call fails.  What it
does from there on is to lock `gameStateMutex`, which it holds.
-/

namespace Kierki

open Locks Fallible

/-- The two mutexes. -/
inductive Mutex
  | gameStateMutex | threadsStructuresMutex
  deriving DecidableEq, Repr

/-- The order in which they may be taken. -/
def Mutex.rank : Mutex → Nat
  | gameStateMutex => 0
  | threadsStructuresMutex => 1

/-- Programs of the server. -/
abbrev Locked := Prog Server Mutex Fault

namespace Locking

/-- A plain step of the manager. -/
def onMgr {α : Type} (f : IOWorkerMgr → Except Fault (α × IOWorkerMgr)) : Locked α :=
  Prog.lift fun σ => do
    let (a, mgr) ← f σ.workerMgr
    return (a, { σ with workerMgr := mgr })

section Manager

-- the callback for a failed `pipe` or `write`
variable (pipeCb : Locked Unit)

/-- `signal`. -/
def signal (ix : Nat) (locked : Bool) : Locked Unit :=
  let body : Locked Unit := do
    if ← Prog.sysCall then onMgr fun m => .ok ((), m.signal ix) else pipeCb
  if locked then body else Prog.guarded .threadsStructuresMutex body

/-- `scheduleDeath` of a worker. -/
def scheduleDeath (m : IOWorkerMgr) (ix : Nat) : Except Fault IOWorkerMgr := do
  let worker ← require .sendKillTarget (m.workers.find? ix)
  return { m with workers := m.workers.insert ix worker.setKillOrder }

/-- `sendKill`. -/
def sendKill (ix : Nat) (locked : Bool) : Locked Unit :=
  let body : Locked Unit := do
    onMgr fun m => do return ((), ← scheduleDeath m ix)
    signal pipeCb ix true
  if locked then body else Prog.guarded .threadsStructuresMutex body

/-- `finish`. -/
def finish : Locked Unit :=
  Prog.guarded .threadsStructuresMutex do
    let σ ← Prog.getState
    σ.workerMgr.workers.keys.forM fun ix => do
      let σ ← Prog.getState
      if ix ∈ σ.workerMgr.toErase then pure () else sendKill pipeCb ix true

/-- `newJob` of a worker. -/
def newJob (m : IOWorkerMgr) (job : SendJob) (ix : Option Nat) :
    Except Fault (Nat × IOWorkerMgr) := do
  let ix ← require .sendJobTarget ix
  let worker ← require .sendJobTarget (m.workers.find? ix)
  return (ix, { m with
    workers := m.workers.insert ix (worker.pushNextJob job)
    sent := m.sent ++ [(ix, job)] })

/-- `sendJob`. -/
def sendJob (job : SendJob) (ix : Option Nat) : Locked Unit :=
  Prog.guarded .threadsStructuresMutex do
    let ix ← onMgr fun m => newJob m job ix
    signal pipeCb ix true

/-- `signalRole`. -/
def signalRole (role : WorkerStatus) : Locked Unit :=
  Prog.guarded .threadsStructuresMutex do
    let σ ← Prog.getState
    σ.workerMgr.roles.entries.forM fun it =>
      if it.2 = role then signal pipeCb it.1 true else pure ()

/-- `spawnNewWorker`. -/
def spawnNewWorker (role : WorkerStatus) : Locked Unit :=
  Prog.guarded .threadsStructuresMutex do
    if ← Prog.sysCall then pure () else pipeCb
    onMgr fun m => .ok ((), m.spawnNewWorker role)

end Manager

/-- `eraseWorker`. -/
def eraseWorker (ix : Nat) : Locked Unit :=
  Prog.guarded .threadsStructuresMutex (onMgr fun m => .ok ((), m.eraseWorker ix))

/-- `releaseCleaner`. -/
def releaseCleaner : Locked Unit :=
  Prog.guarded .threadsStructuresMutex (onMgr fun m => .ok ((), m.releaseCleaner))

/-- `setRole`. -/
def setRole (ix : Nat) (role : WorkerStatus) : Locked Unit :=
  Prog.guarded .threadsStructuresMutex (onMgr fun m => do return ((), ← m.setRole ix role))

/-- `getRole`. -/
def getRole (ix : Nat) : Locked WorkerStatus :=
  Prog.guarded .threadsStructuresMutex (onMgr fun m => do return (← m.getRole ix, m))

/-- One turn of the loop of `waitForClearing`, behind `acquire`. -/
def waitForClearing : Locked Unit :=
  Prog.guarded .threadsStructuresMutex (onMgr fun m => .ok ((), m.waitForClearing))

section Handlers

variable (pipeCb : Locked Unit)

/-- `finalize`. -/
def finalize : Locked Unit := do
  let σ ← Prog.getState
  if σ.exiting then pure ()
  else do
    Prog.setState { σ with exiting := true }
    releaseCleaner
    finish pipeCb

/-- `handleSysErr`. -/
def handleSysErr (errType : IOErrClass) (locked : Bool) : Locked Bool :=
  let body : Locked Bool :=
    if errType = .internal then do
      let σ ← Prog.getState
      Prog.setState { σ with exitCode := 1 }
      finalize pipeCb
      return true
    else return false
  if locked then body else Prog.guarded .gameStateMutex body

/-- Calls of `sendJob`, one after the other. -/
def sendJobs (jobs : List (Option Nat × SendJob)) : Locked Unit :=
  jobs.forM fun p => sendJob pipeCb p.2 p.1

/-- The end of a round inside `playerTricked`. -/
def roundEnded : Locked Bool := do
  let σ ← Prog.getState
  let game := σ.game.updatePenalties
  Prog.setState { σ with game := game }
  sendJobs pipeCb (Side.sides_.flatMap fun s =>
    [(σ.activeSides s, .score game.penaltiesRound.entries), (σ.activeSides s, .total game.penalties.entries)])
  let σ ← Prog.getState
  Prog.setState { σ with game := σ.game.leaveRound }
  let σ ← Prog.getState
  if σ.game.roundNumber = σ.gameScenario.length then do
    finalize pipeCb
    return true
  else do
    Prog.lift fun σ => do
      let game ← σ.game.prepareRound σ.gameScenario
      return ((), { σ with game := game, lastDeal := some game.hands })
    let σ ← Prog.getState
    sendJobs pipeCb (Side.sides_.map fun s => (σ.activeSides s, σ.game.msgDeal (σ.game.hands s)))
    return false

/-- The end of a trick inside `playerTricked`. -/
def trickEnded : Locked Bool := do
  let σ ← Prog.getState
  let msgTaken := σ.game.msgTaken
  Prog.setState { σ with game := σ.game.takeTrick }
  sendJobs pipeCb (Side.sides_.map fun s => (σ.activeSides s, msgTaken))
  let σ ← Prog.getState
  if σ.game.trickNo = TRICKS_PER_ROUND + 1 then roundEnded pipeCb else return false

/-- `playerTricked` after the `switch`. -/
def offerCard (trickNoArg : Nat) (card : Card) (side : Side) : Locked Unit := do
  let σ ← Prog.getState
  if trickNoArg ≠ σ.game.trickNo ∨ σ.game.nextMove ≠ side then
    sendJobs pipeCb [(σ.activeSides side, .wrong σ.game.trickNo)]
  else if GameRules.isMoveLegal side card σ.game.hands σ.game.table = false then
    sendJobs pipeCb [(σ.activeSides side, .wrong σ.game.trickNo)]
  else do
    Prog.setState { σ with game := σ.game.putCard side card }
    let σ ← Prog.getState
    let done ← if σ.game.table.length = 4 then trickEnded pipeCb else pure false
    if done then return ()
    else do
      let σ ← Prog.getState
      sendJobs pipeCb [(σ.activeSides σ.game.nextMove, σ.game.msgTrick)]

/-- `playerTricked`. -/
def playerTricked (trickNoArg : Nat) (card : Card) (workerIx : Nat) : Locked Bool :=
  Prog.guarded .gameStateMutex do
    let σ ← Prog.getState
    if σ.playersConnected < 4 then return false
    else do
      match ← getRole workerIx with
      | .servingUnknown => do
          setRole workerIx .cleanupUnknown
          sendKill pipeCb workerIx false
          return true
      | .servingActive => do
          let side ← Prog.lift fun σ => do return (← require .noSide (σ.workerToSide.find? workerIx), σ)
          offerCard pipeCb trickNoArg card side
          return true
      | .servingProxy => do
          setRole workerIx .cleanupUnknown
          finalize pipeCb
          return true
      | .cleanup => do
          let side ← Prog.lift fun σ => do
            return (← require .noZombieSide (σ.zombieWorkerToSide.find? workerIx), σ)
          offerCard pipeCb trickNoArg card side
          return true
      | .cleanupUnknown => return true
      | .shutdown => return true

/-- The seating branch of `playerIntro` before any deal. -/
def firstDeal : Locked Unit := do
  let σ ← Prog.getState
  Prog.setState { σ with lastDeal := some σ.game.hands }
  sendJobs pipeCb (Side.sides_.map fun s => (σ.activeSides s, σ.game.msgDeal (σ.game.hands s)))
  let σ ← Prog.getState
  sendJobs pipeCb [(σ.activeSides σ.game.nextMove, σ.game.msgTrick)]

/-- The seating branch of `playerIntro` once a deal is out. -/
def rejoin (side : Side) (workerIx : Nat) (deal : TableState) : Locked Unit := do
  let σ ← Prog.getState
  sendJobs pipeCb [(σ.activeSides side, σ.game.msgDeal (deal side))]
  let σ ← Prog.getState
  sendJobs pipeCb (σ.game.takenInRound.map fun msg => (some workerIx, msg))
  let σ ← Prog.getState
  if σ.playersConnected = 4 then do
    signalRole pipeCb .servingActive
    signalRole pipeCb .cleanupUnknown
    signalRole pipeCb .servingUnknown
    let σ ← Prog.getState
    sendJobs pipeCb [(σ.activeSides σ.game.nextMove, σ.game.msgTrick)]
  else pure ()

/-- The worker gets the free side. -/
def takeSeat (side : Side) (workerIx : Nat) : Locked Unit := do
  setRole workerIx .servingActive
  let σ ← Prog.getState
  Prog.setState { σ with
    activeSides := Function.update σ.activeSides side (some workerIx)
    workerToSide := σ.workerToSide.insert workerIx side
    playersConnected := σ.playersConnected + 1 }

/-- `playerIntro`. -/
def playerIntro (side : Side) (workerIx : Nat) : Locked Bool :=
  Prog.guarded .gameStateMutex do
    let role ← getRole workerIx
    let σ ← Prog.getState
    if role ≠ .servingUnknown then
      if σ.playersConnected < 4 then return false
      else do
        sendKill pipeCb workerIx false
        setRole workerIx .cleanup
        return true
    else
      match σ.activeSides side with
      | none => do
          takeSeat side workerIx
          let σ ← Prog.getState
          match σ.lastDeal with
          | none =>
              if σ.playersConnected = 4 then do
                firstDeal pipeCb
                return true
              else return true
          | some deal => do
              rejoin pipeCb side workerIx deal
              return true
      | some _ => do
          setRole workerIx .cleanupUnknown
          let σ ← Prog.getState
          sendJobs pipeCb [(some workerIx, .busy σ.sidesBusy)]
          return true

/-- `forwardConnection`. -/
def forwardConnection : Locked Bool :=
  Prog.guarded .gameStateMutex do
    spawnNewWorker pipeCb .servingUnknown
    return true

/-- `setRole(ix, SHUTDOWN)` and `eraseWorker(ix)`, in either order. -/
def shutDown (workerIx : Nat) : Locked Unit := do
  setRole workerIx .shutdown
  eraseWorker workerIx

/-- The loop of `grandExitCallback` over the errors. -/
def exitErrors : List IOErrClass → Locked Bool
  | [] => return false
  | err :: errs => do
      if ← handleSysErr pipeCb err true then return true else exitErrors errs

/-- `grandExitCallback`. -/
def grandExitCallback (errArr : List IOErrClass) (workerIx : Nat) (hasWork : Bool) : Locked Bool :=
  Prog.guarded .gameStateMutex do
    if ← exitErrors pipeCb errArr then return true
    else do
      match ← getRole workerIx with
      | .servingUnknown => do
          shutDown workerIx
          return true
      | .servingActive => do
          let s ← Prog.lift fun σ => do return (← require .noSide (σ.workerToSide.find? workerIx), σ)
          let σ ← Prog.getState
          Prog.setState { σ with
            playersConnected := σ.playersConnected - 1
            activeSides := Function.update σ.activeSides s none
            zombieWorkerToSide := σ.zombieWorkerToSide.insert workerIx s
            workerToSide := σ.workerToSide.erase workerIx }
          let σ ← Prog.getState
          if hasWork = true ∨ (σ.playersConnected < 3 ∧ σ.exiting = false) then do
            setRole workerIx .cleanup
            return false
          else do
            shutDown workerIx
            return true
      | .cleanup | .cleanupUnknown => do
          let σ ← Prog.getState
          if σ.playersConnected = 4 ∧ hasWork = false then do
            shutDown workerIx
            return true
          else return false
      | .shutdown => return true
      | .servingProxy => do
          shutDown workerIx
          finalize pipeCb
          return true

/-- `execMutexed`.  The closure of `handleQueue` sends and closes on the worker's own fields; however
these calls come out, it takes no mutex and leaves the server alone. -/
def execMutexed : Locked Bool :=
  Prog.guarded .gameStateMutex do
    let σ ← Prog.getState
    return σ.execMutexed

/-- `handleTimeout`. -/
def handleTimeout (workerIx : Nat) : Locked Unit :=
  Prog.guarded .gameStateMutex do
    let σ ← Prog.getState
    if σ.exiting then return ()
    else do
      if (← getRole workerIx) = .servingUnknown then sendKill pipeCb workerIx false
      else if (← getRole workerIx) = .servingActive then do
        let side ← Prog.lift fun σ => do return (← require .noSide (σ.workerToSide.find? workerIx), σ)
        if σ.game.nextMove ≠ side then return ()
        else if σ.playersConnected < 4 then return ()
        else sendJobs pipeCb [(some workerIx, σ.game.msgTrick)]
      else return ()

/-- `handleWrongMessage`. -/
def handleWrongMessage (ix : Nat) : Locked Bool :=
  Prog.guarded .gameStateMutex do
    let σ ← Prog.getState
    if σ.playersConnected < 4 ∧ σ.exiting = false then return false
    else do
      sendKill pipeCb ix false
      return true

/-- One call.  A worker's own thread takes jobs and reads its pipe without either mutex. -/
def handle : Server.Call → Locked Bool
  | .playerIntro side ix => playerIntro pipeCb side ix
  | .playerTricked n card ix => playerTricked pipeCb n card ix
  | .handleTimeout ix => do
      handleTimeout pipeCb ix
      return true
  | .handleWrongMessage ix => handleWrongMessage pipeCb ix
  | .grandExitCallback errs ix hasWork => grandExitCallback pipeCb errs ix hasWork
  | .execMutexed => execMutexed
  | .forwardConnection => forwardConnection pipeCb
  | .popNextJob ix => onMgr fun m => do return (true, ← m.popNextJob ix)
  | .handlePipe ix => onMgr fun m => .ok (true, m.handlePipe ix)
  | .waitForClearing => do
      waitForClearing
      return true

end Handlers

/-- The callback that the constructor of `Server` gives to the manager, `handleSysErr(info, false)` on an
internal error.  It reaches the methods of the manager, which may call it back; `depth` bounds how often. -/
def pipeCb : Nat → Locked Unit
  | 0 => Prog.stop .tooDeep
  | depth + 1 => do
      let _ ← handleSysErr (pipeCb depth) .internal false
      return ()

/-- `Server::run` up to `waitForClearing`. -/
def start (cb : Locked Unit) : Locked Unit := do
  Prog.lift fun σ => do return ((), { σ with game := ← σ.game.prepareRound σ.gameScenario })
  spawnNewWorker cb .servingProxy

section Following

variable {cb : Locked Unit} {s : Server}

/-- A plain result of the manager as one of the server. -/
theorem follows_onMgr {H : List Mutex} {α γ : Type} {f : IOWorkerMgr → Except Fault (α × IOWorkerMgr)}
    {x : Except Fault γ} {v : γ → α} {g : γ → IOWorkerMgr}
    (hf : f s.workerMgr = x >>= fun m => .ok (v m, g m)) :
    Follows Mutex.rank H s (onMgr f) (x >>= fun m => .ok (v m, { s with workerMgr := g m })) := by
  have hlift : Follows Mutex.rank H s (onMgr f) _ := Follows.lift _
  rw [hf] at hlift
  cases x with
  | error e => exact hlift
  | ok m => exact hlift

theorem game_below : ∀ m ∈ [Mutex.gameStateMutex], m.rank < Mutex.threadsStructuresMutex.rank := by
  simp [Mutex.rank]

/-- A `write` to a pipe, with the callback stuck. -/
theorem follows_signal {H : List Mutex} (hcb : Stuck Mutex.rank H s cb) (ix : Nat) :
    Follows Mutex.rank H s (signal cb ix true) (.ok ((), { s with workerMgr := s.workerMgr.signal ix })) := by
  refine Follows.sysCall ?_ hcb
  show Follows Mutex.rank H s (onMgr fun m => .ok ((), m.signal ix)) _
  exact follows_onMgr (x := .ok s.workerMgr) (v := fun _ => ()) (g := fun m => m.signal ix) rfl

-- the callback is stuck in every scope of the manager
variable (hcb : ∀ s : Server, Stuck Mutex.rank [.threadsStructuresMutex, .gameStateMutex] s cb)

include hcb

theorem follows_sendKill (ix : Nat) :
    Follows Mutex.rank [.threadsStructuresMutex, .gameStateMutex] s (sendKill cb ix true)
      (s.workerMgr.sendKill ix >>= fun m => .ok ((), { s with workerMgr := m })) := by
  have hkill : s.workerMgr.sendKill ix = scheduleDeath s.workerMgr ix >>= fun m => .ok (m.signal ix) := by
    unfold IOWorkerMgr.sendKill scheduleDeath
    cases s.workerMgr.workers.find? ix <;> rfl
  rw [hkill, bind_assoc]
  exact (follows_onMgr (x := scheduleDeath s.workerMgr ix) (v := fun _ => ()) (g := id) rfl).bind_call
    fun m _ => follows_signal (hcb _) ix

theorem follows_sendKill_guarded (ix : Nat) :
    Follows Mutex.rank [.gameStateMutex] s (sendKill cb ix false)
      (s.workerMgr.sendKill ix >>= fun m => .ok ((), { s with workerMgr := m })) :=
  (follows_sendKill hcb ix).guarded game_below

theorem follows_sendJob (job : SendJob) (ix : Option Nat) :
    Follows Mutex.rank [.gameStateMutex] s (sendJob cb job ix)
      (s.workerMgr.sendJob job ix >>= fun m => .ok ((), { s with workerMgr := m })) := by
  have hsend : s.workerMgr.sendJob job ix =
      newJob s.workerMgr job ix >>= fun p => .ok (p.2.signal p.1) := by
    unfold IOWorkerMgr.sendJob newJob
    cases ix with
    | none => rfl
    | some ix =>
        cases hfind : s.workerMgr.workers.find? ix with
        | none => simp [require, hfind]; rfl
        | some q => simp [require, hfind]
  rw [hsend, bind_assoc]
  refine Follows.guarded game_below ?_
  exact (follows_onMgr (x := newJob s.workerMgr job ix) (v := Prod.fst) (g := Prod.snd)
    (bind_pure _).symm).bind_call fun p _ => follows_signal (hcb _) p.1

theorem follows_finish : Follows Mutex.rank [.gameStateMutex] s (finish cb)
    (s.workerMgr.finish >>= fun m => .ok ((), { s with workerMgr := m })) := by
  refine Follows.guarded game_below (Follows.getState ?_)
  refine Follows.forM (e := fun m => { s with workerMgr := m }) (fun ix m => ?_) _ s.workerMgr
  refine Follows.getState ?_
  unfold IOWorkerMgr.finishOne
  by_cases hmem : ix ∈ m.toErase
  · rw [if_pos hmem, if_pos hmem]
    exact Follows.pure ()
  · rw [if_neg hmem, if_neg hmem]
    exact follows_sendKill (s := { s with workerMgr := m }) hcb ix

theorem follows_signalRole (role : WorkerStatus) :
    Follows Mutex.rank [.gameStateMutex] s (signalRole cb role)
      (.ok ((), { s with workerMgr := s.workerMgr.signalRole role })) := by
  refine Follows.guarded game_below (Follows.getState ?_)
  have hloop : Follows Mutex.rank [.threadsStructuresMutex, .gameStateMutex] s
      (s.workerMgr.roles.entries.forM fun it => if it.2 = role then signal cb it.1 true else pure ()) _ :=
    Follows.forM (e := fun m => { s with workerMgr := m })
      (g := fun m it => .ok (if it.2 = role then m.signal it.1 else m)) (fun it m => ?_)
      s.workerMgr.roles.entries s.workerMgr
  · rw [show (fun (m : IOWorkerMgr) (it : Nat × WorkerStatus) =>
        (Except.ok (if it.2 = role then m.signal it.1 else m) : Except Fault IOWorkerMgr)) =
        fun m it => pure (if it.2 = role then m.signal it.1 else m) from rfl, List.foldlM_pure] at hloop
    exact hloop
  · by_cases hrole : it.2 = role
    · simp only [if_pos hrole]
      exact follows_signal (hcb _) it.1
    · simp only [if_neg hrole]
      exact Follows.pure ()

theorem follows_spawnNewWorker (role : WorkerStatus) :
    Follows Mutex.rank [.gameStateMutex] s (spawnNewWorker cb role)
      (.ok ((), { s with workerMgr := s.workerMgr.spawnNewWorker role })) := by
  refine Follows.guarded game_below (Follows.sysCall ?_ ((hcb s).bind _))
  show Follows Mutex.rank _ s (onMgr fun m => .ok ((), m.spawnNewWorker role)) _
  exact follows_onMgr (x := .ok s.workerMgr) (v := fun _ => ()) (g := fun m => m.spawnNewWorker role) rfl

omit hcb

theorem follows_eraseWorker (ix : Nat) : Follows Mutex.rank [.gameStateMutex] s (eraseWorker ix)
    (.ok ((), { s with workerMgr := s.workerMgr.eraseWorker ix })) :=
  Follows.guarded game_below (follows_onMgr (x := .ok s.workerMgr) (v := fun _ => ())
    (g := fun m => m.eraseWorker ix) rfl)

theorem follows_releaseCleaner : Follows Mutex.rank [.gameStateMutex] s releaseCleaner
    (.ok ((), { s with workerMgr := s.workerMgr.releaseCleaner })) :=
  Follows.guarded game_below (follows_onMgr (x := .ok s.workerMgr) (v := fun _ => ())
    (g := fun m => m.releaseCleaner) rfl)

theorem follows_setRole (ix : Nat) (role : WorkerStatus) :
    Follows Mutex.rank [.gameStateMutex] s (setRole ix role)
      (s.workerMgr.setRole ix role >>= fun m => .ok ((), { s with workerMgr := m })) :=
  Follows.guarded game_below (follows_onMgr (v := fun _ => ()) (g := id) rfl)

theorem follows_getRole (ix : Nat) : Follows Mutex.rank [.gameStateMutex] s (getRole ix)
    (s.workerMgr.getRole ix >>= fun role => .ok (role, s)) :=
  Follows.guarded game_below (follows_onMgr (v := id) (g := fun _ => s.workerMgr) rfl)

end Following

section Handlers

variable {cb : Locked Unit} {s : Server}
  (hcb : ∀ s : Server, Stuck Mutex.rank [.threadsStructuresMutex, .gameStateMutex] s cb)

include hcb

theorem follows_finalize : Follows Mutex.rank [.gameStateMutex] s (finalize cb)
    (s.finalize >>= fun σ => .ok ((), σ)) := by
  refine Follows.getState ?_
  unfold Server.finalize
  by_cases hexit : s.exiting = true
  · rw [if_pos hexit, if_pos hexit]
    exact Follows.pure ()
  · rw [if_neg hexit, if_neg hexit, bind_assoc]
    exact Follows.setState (follows_releaseCleaner.bind_ok (follows_finish hcb))

theorem follows_handleSysErr (errType : IOErrClass) :
    Follows Mutex.rank [.gameStateMutex] s (handleSysErr cb errType true) (s.handleSysErr errType) := by
  unfold handleSysErr Server.handleSysErr
  simp only [if_true]
  by_cases herr : errType = .internal
  · rw [if_pos herr, if_pos herr]
    refine Follows.getState (Follows.setState ?_)
    exact (follows_finalize hcb).bind_call fun σ _ => Follows.pure true
  · rw [if_neg herr, if_neg herr]
    exact Follows.pure false

theorem follows_exitErrors (errs : List IOErrClass) :
    Follows Mutex.rank [.gameStateMutex] s (exitErrors cb errs) (s.exitErrors errs) := by
  induction errs generalizing s with
  | nil => exact Follows.pure false
  | cons err errs ih =>
      refine (follows_handleSysErr hcb err).bind (q := fun ended σ =>
        if ended then .ok (true, σ) else σ.exitErrors errs) fun ended σ _ => ?_
      cases ended with
      | true => exact Follows.pure true
      | false => exact ih

theorem follows_sendJobs (jobs : List (Option Nat × SendJob)) :
    Follows Mutex.rank [.gameStateMutex] s (sendJobs cb jobs)
      (s.sendJobs jobs >>= fun σ => .ok ((), σ)) := by
  unfold Server.sendJobs
  rw [bind_assoc]
  exact Follows.forM (e := fun m => { s with workerMgr := m })
    (fun p m => follows_sendJob (s := { s with workerMgr := m }) hcb p.2 p.1) jobs s.workerMgr

theorem follows_roundEnded :
    Follows Mutex.rank [.gameStateMutex] s (roundEnded cb) s.roundEnded := by
  refine Follows.getState (Follows.setState ?_)
  refine (follows_sendJobs hcb _).bind_call fun σ _ => ?_
  refine Follows.getState (Follows.setState (Follows.getState ?_))
  show Follows _ _ _ (if _ then _ else _) (if _ then _ else _)
  by_cases hlast : σ.game.leaveRound.roundNumber = σ.gameScenario.length
  · rw [if_pos hlast, if_pos hlast]
    exact (follows_finalize hcb).bind_call fun τ _ => Follows.pure true
  · rw [if_neg hlast, if_neg hlast]
    refine (Follows.lift _).bind_call (x := σ.game.leaveRound.prepareRound σ.gameScenario)
      (v := fun _ => ()) fun game _ => ?_
    refine Follows.getState ?_
    exact (follows_sendJobs hcb _).bind_call fun τ _ => Follows.pure false

theorem follows_trickEnded :
    Follows Mutex.rank [.gameStateMutex] s (trickEnded cb) s.trickEnded := by
  refine Follows.getState (Follows.setState ?_)
  refine (follows_sendJobs hcb _).bind_call fun σ _ => Follows.getState ?_
  by_cases hround : σ.game.trickNo = TRICKS_PER_ROUND + 1
  · rw [if_pos hround, if_pos hround]
    exact follows_roundEnded hcb
  · rw [if_neg hround, if_neg hround]
    exact Follows.pure false

theorem follows_offerCard (n : Nat) (card : Card) (side : Side) :
    Follows Mutex.rank [.gameStateMutex] s (offerCard cb n card side)
      (s.offerCard n card side >>= fun σ => .ok ((), σ)) := by
  refine Follows.getState ?_
  unfold Server.offerCard
  split
  · exact follows_sendJobs hcb _
  split
  · exact follows_sendJobs hcb _
  refine Follows.setState (Follows.getState ?_)
  -- what comes behind the end of a trick, or behind a card that does not end one
  have hnext : ∀ (done : Bool) (σ : Server), Follows Mutex.rank [.gameStateMutex] σ
      (if done = true then pure () else do
        let σ ← Prog.getState
        sendJobs cb [(σ.activeSides σ.game.nextMove, σ.game.msgTrick)])
      ((if done = true then pure σ else
        σ.sendJobs [(σ.activeSides σ.game.nextMove, σ.game.msgTrick)]) >>= fun σ => .ok ((), σ)) := by
    intro done σ
    cases done with
    | true => exact Follows.pure ()
    | false => exact Follows.getState (follows_sendJobs hcb _)
  show Follows _ _ _ (if _ then _ else _) ((if _ then _ else _) >>= _)
  by_cases hfull : (s.game.putCard side card).table.length = 4
  · rw [if_pos hfull, if_pos hfull, bind_assoc]
    exact (follows_trickEnded hcb).bind fun done σ _ => hnext done σ
  · rw [if_neg hfull, if_neg hfull]
    exact (Follows.pure false).bind_ok (hnext false _)

theorem follows_playerTricked (n : Nat) (card : Card) (ix : Nat) :
    Follows Mutex.rank [] s (playerTricked cb n card ix) (s.playerTricked n card ix) := by
  refine Follows.guarded (by simp) (Follows.getState ?_)
  unfold Server.playerTricked
  by_cases hpc : s.playersConnected < 4
  · rw [if_pos hpc, if_pos hpc]
    exact Follows.pure false
  rw [if_neg hpc, if_neg hpc]
  refine (follows_getRole ix).bind_call fun role _ => ?_
  cases role with
  | servingUnknown =>
      refine (follows_setRole ix .cleanupUnknown).bind_call fun mgr _ => ?_
      exact (follows_sendKill_guarded hcb ix).bind_call fun mgr' _ => Follows.pure true
  | servingActive =>
      refine (Follows.lift _).bind_call (x := require Fault.noSide (s.workerToSide.find? ix))
        (v := id) fun side _ => ?_
      exact (follows_offerCard hcb n card side).bind_call fun σ _ => Follows.pure true
  | servingProxy =>
      refine (follows_setRole ix .cleanupUnknown).bind_call fun mgr _ => ?_
      exact (follows_finalize hcb).bind_call fun σ _ => Follows.pure true
  | cleanup =>
      refine (Follows.lift _).bind_call (x := require Fault.noZombieSide (s.zombieWorkerToSide.find? ix))
        (v := id) fun side _ => ?_
      exact (follows_offerCard hcb n card side).bind_call fun σ _ => Follows.pure true
  | cleanupUnknown | shutdown => exact Follows.pure true

theorem follows_firstDeal : Follows Mutex.rank [.gameStateMutex] s (firstDeal cb)
    (s.firstDeal >>= fun σ => .ok ((), σ)) := by
  refine Follows.getState (Follows.setState ?_)
  unfold Server.firstDeal
  rw [bind_assoc]
  refine (follows_sendJobs hcb _).bind_call fun σ _ => ?_
  exact Follows.getState (follows_sendJobs hcb _)

theorem follows_rejoin (side : Side) (ix : Nat) (deal : TableState) :
    Follows Mutex.rank [.gameStateMutex] s (rejoin cb side ix deal)
      (s.rejoin side ix deal >>= fun σ => .ok ((), σ)) := by
  refine Follows.getState ?_
  unfold Server.rejoin
  rw [bind_assoc]
  refine (follows_sendJobs hcb _).bind_call fun σ _ => Follows.getState ?_
  rw [bind_assoc]
  refine (follows_sendJobs hcb _).bind_call fun τ _ => Follows.getState ?_
  by_cases hfull : τ.playersConnected = 4
  · rw [if_pos hfull, if_pos hfull]
    refine (follows_signalRole hcb .servingActive).bind_ok ?_
    refine (follows_signalRole hcb .cleanupUnknown).bind_ok ?_
    refine (follows_signalRole hcb .servingUnknown).bind_ok ?_
    exact Follows.getState (follows_sendJobs hcb _)
  · rw [if_neg hfull, if_neg hfull]
    exact Follows.pure ()

omit hcb in
theorem follows_takeSeat (side : Side) (ix : Nat) :
    Follows Mutex.rank [.gameStateMutex] s (takeSeat side ix)
      (s.takeSeat side ix >>= fun σ => .ok ((), σ)) := by
  unfold Server.takeSeat
  rw [bind_assoc]
  refine (follows_setRole ix .servingActive).bind_call fun mgr _ => ?_
  exact Follows.getState ((Follows.setState (k := pure) (Follows.pure ())))

theorem follows_playerIntro (side : Side) (ix : Nat) :
    Follows Mutex.rank [] s (playerIntro cb side ix) (s.playerIntro side ix) := by
  refine Follows.guarded (by simp) ?_
  unfold Server.playerIntro
  refine (follows_getRole ix).bind_call fun role _ => Follows.getState ?_
  by_cases hrole : role ≠ .servingUnknown
  · rw [if_pos hrole, if_pos hrole]
    by_cases hpc : s.playersConnected < 4
    · rw [if_pos hpc, if_pos hpc]
      exact Follows.pure false
    rw [if_neg hpc, if_neg hpc]
    refine (follows_sendKill_guarded hcb ix).bind_call fun mgr _ => ?_
    exact (follows_setRole ix .cleanup).bind_call fun mgr' _ => Follows.pure true
  rw [if_neg hrole, if_neg hrole]
  cases s.activeSides side with
  | none =>
      refine (follows_takeSeat side ix).bind_call fun σ _ => Follows.getState ?_
      cases σ.lastDeal with
      | none =>
          by_cases hfull : σ.playersConnected = 4
          · simp only [if_pos hfull]
            exact (follows_firstDeal hcb).bind_call fun τ _ => Follows.pure true
          · simp only [if_neg hfull]
            exact Follows.pure true
      | some deal => exact (follows_rejoin hcb side ix deal).bind_call fun τ _ => Follows.pure true
  | some ix' =>
      refine (follows_setRole ix .cleanupUnknown).bind_call fun mgr _ => Follows.getState ?_
      exact (follows_sendJobs hcb _).bind_call fun τ _ => Follows.pure true

theorem follows_forwardConnection :
    Follows Mutex.rank [] s (forwardConnection cb) (.ok (true, s.forwardConnection)) :=
  Follows.guarded (by simp) ((follows_spawnNewWorker hcb .servingUnknown).bind_ok (Follows.pure true))

omit hcb in
theorem follows_shutDown (ix : Nat) : Follows Mutex.rank [.gameStateMutex] s (shutDown ix)
    (s.shutDown ix >>= fun σ => .ok ((), σ)) := by
  unfold Server.shutDown
  rw [bind_assoc]
  exact (follows_setRole ix .shutdown).bind_call fun mgr _ => follows_eraseWorker ix

theorem follows_grandExitCallback (errs : List IOErrClass) (ix : Nat) (hasWork : Bool) :
    Follows Mutex.rank [] s (grandExitCallback cb errs ix hasWork)
      (s.grandExitCallback errs ix hasWork) := by
  refine Follows.guarded (by simp) ?_
  refine (follows_exitErrors hcb errs).bind_next fun ended σ _ => ?_
  cases ended with
  | true => exact Follows.pure true
  | false =>
      refine (follows_getRole ix).bind_call fun role _ => ?_
      cases role with
      | servingUnknown => exact (follows_shutDown ix).bind_call fun τ _ => Follows.pure true
      | servingActive =>
          refine (Follows.lift _).bind_call (x := require Fault.noSide (σ.workerToSide.find? ix))
            (v := id) fun side _ => ?_
          refine Follows.getState (Follows.setState (Follows.getState ?_))
          by_cases hleft : hasWork = true ∨ (σ.playersConnected - 1 < 3 ∧ σ.exiting = false)
          · simp only [if_pos hleft]
            exact (follows_setRole ix .cleanup).bind_call fun mgr _ => Follows.pure false
          · simp only [if_neg hleft]
            exact (follows_shutDown ix).bind_call fun τ _ => Follows.pure true
      | cleanup | cleanupUnknown =>
          refine Follows.getState ?_
          by_cases hdone : σ.playersConnected = 4 ∧ hasWork = false
          · simp only [if_pos hdone]
            exact (follows_shutDown ix).bind_call fun τ _ => Follows.pure true
          · simp only [if_neg hdone]
            exact Follows.pure false
      | shutdown => exact Follows.pure true
      | servingProxy =>
          refine (follows_shutDown ix).bind_call fun τ _ => ?_
          exact (follows_finalize hcb).bind_call fun τ' _ => Follows.pure true

omit hcb in
theorem follows_execMutexed :
    Follows Mutex.rank [] s execMutexed (.ok (s.execMutexed, s)) :=
  Follows.guarded (by simp) (Follows.getState (Follows.pure s.execMutexed))

theorem follows_handleTimeout (ix : Nat) : Follows Mutex.rank [] s (handleTimeout cb ix)
    (s.handleTimeout ix >>= fun σ => .ok ((), σ)) := by
  refine Follows.guarded (by simp) (Follows.getState ?_)
  unfold Server.handleTimeout
  by_cases hexit : s.exiting = true
  · rw [if_pos hexit, if_pos hexit]
    exact Follows.pure ()
  rw [if_neg hexit, if_neg hexit, bind_assoc]
  refine (follows_getRole ix).bind_call fun role hrole => ?_
  -- the source asks for the role again before it compares with the second status
  have hagain : ∀ (k : WorkerStatus → Locked Unit) {r : Except Fault (Unit × Server)},
      Follows Mutex.rank [.gameStateMutex] s (k role) r →
      Follows Mutex.rank [.gameStateMutex] s (getRole ix >>= k) r := by
    intro k r hk
    have hget := follows_getRole (s := s) ix
    rw [hrole] at hget
    exact hget.bind_ok hk
  cases role with
  | servingUnknown =>
      rw [if_pos rfl]
      show Follows _ _ _ _ ((s.workerMgr.sendKill ix >>= fun mgr => pure _) >>= _)
      rw [bind_assoc]
      exact follows_sendKill_guarded hcb ix
  | servingActive =>
      rw [if_neg (by decide)]
      refine hagain _ ?_
      rw [if_pos rfl]
      show Follows _ _ _ _ ((require Fault.noSide (s.workerToSide.find? ix) >>= _) >>= _)
      rw [bind_assoc]
      refine (Follows.lift _).bind_call (x := require Fault.noSide (s.workerToSide.find? ix))
        (v := fun side => side) fun side _ => ?_
      by_cases hturn : s.game.nextMove ≠ side
      · rw [if_pos hturn, if_pos hturn]
        exact Follows.pure ()
      rw [if_neg hturn, if_neg hturn]
      by_cases hwait : s.playersConnected < 4
      · rw [if_pos hwait, if_pos hwait]
        exact Follows.pure ()
      · rw [if_neg hwait, if_neg hwait]
        exact follows_sendJobs hcb _
  | servingProxy | cleanup | cleanupUnknown | shutdown =>
      rw [if_neg (by decide)]
      refine hagain _ ?_
      rw [if_neg (by decide)]
      exact Follows.pure ()

theorem follows_handleWrongMessage (ix : Nat) :
    Follows Mutex.rank [] s (handleWrongMessage cb ix) (s.handleWrongMessage ix) := by
  refine Follows.guarded (by simp) (Follows.getState ?_)
  unfold Server.handleWrongMessage
  by_cases hwait : s.playersConnected < 4 ∧ s.exiting = false
  · rw [if_pos hwait, if_pos hwait]
    exact Follows.pure false
  · rw [if_neg hwait, if_neg hwait]
    exact (follows_sendKill_guarded hcb ix).bind_call fun mgr _ => Follows.pure true

/-- **The handlers do what `Server.handle` says until a system call fails.** -/
theorem follows_handle (e : Server.Call) :
    Follows Mutex.rank [] s (handle cb e) (s.handle e) := by
  cases e with
  | playerIntro side ix => exact follows_playerIntro hcb side ix
  | playerTricked n card ix => exact follows_playerTricked hcb n card ix
  | handleTimeout ix => exact (follows_handleTimeout hcb ix).bind_call fun σ _ => Follows.pure true
  | handleWrongMessage ix => exact follows_handleWrongMessage hcb ix
  | grandExitCallback errs ix hasWork => exact follows_grandExitCallback hcb errs ix hasWork
  | execMutexed => exact follows_execMutexed
  | forwardConnection => exact follows_forwardConnection hcb
  | popNextJob ix =>
      exact follows_onMgr (f := fun m => do return (true, ← m.popNextJob ix))
        (x := s.workerMgr.popNextJob ix) (v := fun _ => true) (g := id) rfl
  | handlePipe ix =>
      exact follows_onMgr (f := fun m => .ok (true, m.handlePipe ix)) (x := .ok s.workerMgr)
        (v := fun _ => true) (g := fun m => m.handlePipe ix) rfl
  | waitForClearing =>
      refine Follows.bind_ok (a := ()) ?_ (Follows.pure true)
      exact Follows.guarded (by simp) (follows_onMgr (x := .ok s.workerMgr) (v := fun _ => ())
        (g := fun m => m.waitForClearing) rfl)

end Handlers

section Discipline

variable {s : Server} {depth : Nat}

/-- Under `gameStateMutex` the callback waits for ever. -/
theorem stuck_pipeCb {H : List Mutex} (hmem : .gameStateMutex ∈ H) :
    Stuck Mutex.rank H s (pipeCb (depth + 1)) :=
  (Stuck.guarded_held _ hmem).bind _

/-- So it does under `threadsStructuresMutex` alone, which it takes again behind `gameStateMutex`. -/
theorem stuck_pipeCb_start (hexit : s.exiting = false) :
    Stuck Mutex.rank [.threadsStructuresMutex] s (pipeCb (depth + 1)) := by
  refine Stuck.bind (Stuck.guarded (Stuck.getState (Stuck.setState (Stuck.bind ?_ _)))) _
  refine Stuck.getState ?_
  rw [if_neg (by simp [hexit])]
  exact Stuck.setState (Stuck.bind (Stuck.guarded_held _ (by simp)) _)

theorem follows_start (scenario : GameScenario) (timeout : Int) :
    Follows Mutex.rank [] (Server.new scenario timeout) (start (pipeCb (depth + 1)))
      (Server.start scenario timeout >>= fun σ => .ok ((), σ)) := by
  unfold Server.start
  rw [bind_assoc]
  refine (Follows.lift _).bind_call (x := (Server.new scenario timeout).game.prepareRound scenario)
    (v := fun _ => ()) fun game _ => ?_
  refine Follows.guarded (by simp) (Follows.sysCall ?_ ((stuck_pipeCb_start rfl).bind _))
  exact follows_onMgr (f := fun m => .ok ((), m.spawnNewWorker .servingProxy))
    (x := .ok (Server.new scenario timeout).workerMgr) (v := fun _ => ())
    (g := fun m => m.spawnNewWorker .servingProxy) rfl

/-- **The lock discipline.**  A handler, and the start of `Server::run`, take no mutex that the thread
holds and the two mutexes in their order exactly when each `pipe` and `write` that they make succeeds. -/
theorem wellLocked_iff_succeeds (depth : Nat) :
    (∀ (σ : Server) (e : Server.Call) (answers : List Bool),
      WellLocked Mutex.rank (handle (pipeCb (depth + 1)) e) σ answers ↔
        false ∉ answers.take (systemCalls (handle (pipeCb (depth + 1)) e) σ)) ∧
    ∀ (scenario : GameScenario) (timeout : Int) (answers : List Bool),
      WellLocked Mutex.rank (start (pipeCb (depth + 1))) (.new scenario timeout) answers ↔
        false ∉ answers.take (systemCalls (start (pipeCb (depth + 1))) (.new scenario timeout)) :=
  ⟨fun _ e => (follows_handle (fun _ => stuck_pipeCb (by simp)) e).wellLocked_iff,
    fun scenario timeout => (follows_start scenario timeout).wellLocked_iff⟩

/-- `pipe` fails when the first connection is accepted, and a `write` when its worker times out. -/
theorem not_wellLocked_noDescriptors :
    ∃ σ, Server.start [suitRound] 5 = .ok σ ∧
      ¬ WellLocked Mutex.rank (handle (pipeCb 1) .forwardConnection) σ [false] ∧
      ¬ WellLocked Mutex.rank (handle (pipeCb 1) (.handleTimeout 1)) σ.forwardConnection [false] := by
  refine ⟨_, Server.start_cons suitRound [] 5, fun hwell => ?_, fun hwell => ?_⟩
  · exact hwell.1 .blocked (by decide +kernel) rfl
  · exact hwell.1 .blocked (by decide +kernel) rfl

end Discipline

end Locking

end Kierki
