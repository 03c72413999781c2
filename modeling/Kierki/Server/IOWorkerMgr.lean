import Kierki.Common.SendJob
import Kierki.Library.UnorderedMap
import Kierki.Library.Fallible

/-!
# The worker manager

`server/job_queue.cpp` and `server/io_worker_mgr.cpp`: the part of every worker that other threads
reach (its job queue with the kill flag and its pipe), the roles, and the list of workers the cleaner
still has to collect.

A method that looks a worker up in a map can throw; it returns an `Except`.  The `write` to a pipe is
taken to succeed: all callers of `signal` hold the game mutex, and its failure branch locks it again.
-/

namespace Kierki

open Fallible

/-- What ends the process: an exception nobody catches, or an unchecked index. -/
inductive Fault
  /-- `workers.at(ix)` in `sendJob` -/
  | sendJobTarget
  /-- `workers.at(ix)` in `sendKill` -/
  | sendKillTarget
  /-- `roles.at(ix)` in `getRole`, or the exception of `setRole` -/
  | unknownRole
  /-- `workerToSide.at(ix)` -/
  | noSide
  /-- `zombieWorkerToSide.at(ix)` -/
  | noZombieSide
  /-- `gameScenario[roundNumber]` beyond the last round -/
  | scenarioIndex
  /-- a job queue that is empty or no longer registered -/
  | emptyQueue
  deriving DecidableEq, Repr

/-- `enum WorkerStatus`. -/
inductive WorkerStatus
  | servingUnknown | servingActive | servingProxy | cleanup | cleanupUnknown | shutdown
  deriving DecidableEq, Repr

/-- `class JobQueue`. -/
structure JobQueue where
  jobsPending : List SendJob
  killFlag : Bool

namespace JobQueue

def empty : JobQueue := ⟨[], false⟩

def pushNextJob (q : JobQueue) (job : SendJob) : JobQueue :=
  { q with jobsPending := q.jobsPending ++ [job] }

def setKillOrder (q : JobQueue) : JobQueue := { q with killFlag := true }

/-- `popNextJob`: throws on an empty queue. -/
def popNextJob (q : JobQueue) : Except Fault (SendJob × JobQueue) :=
  match q.jobsPending with
  | [] => .error .emptyQueue
  | job :: rest => .ok (job, { q with jobsPending := rest })

end JobQueue

/-- `class IOWorkerMgr`.  `pipes` counts the unread bytes of a worker's pipe; `exitFlag` is the local
variable of `waitForClearing`; `sent` is a history variable that no method reads: every pair handed
to `sendJob`, oldest first. -/
structure IOWorkerMgr where
  workers : UnorderedMap Nat JobQueue
  pipes : UnorderedMap Nat Nat
  roles : UnorderedMap Nat WorkerStatus
  clearThreadsSemaphore : Nat
  toErase : List Nat
  finishFlag : Bool
  nextIx : Nat
  exitFlag : Bool
  sent : List (Nat × SendJob)

namespace IOWorkerMgr

/-- The constructor. -/
def new : IOWorkerMgr where
  workers := .empty
  pipes := .empty
  roles := .empty
  clearThreadsSemaphore := 0
  toErase := []
  finishFlag := false
  nextIx := 0
  exitFlag := false
  sent := []

/-- The number of unread bytes in the pipe of worker `ix`. -/
def unread (m : IOWorkerMgr) (ix : Nat) : Nat := (m.pipes.find? ix).getD 0

/-- `signal`. -/
def signal (m : IOWorkerMgr) (ix : Nat) : IOWorkerMgr :=
  { m with pipes := m.pipes.insert ix (m.unread ix + 1) }

/-- `sendKill`. -/
def sendKill (m : IOWorkerMgr) (ix : Nat) : Except Fault IOWorkerMgr := do
  let worker ← require .sendKillTarget (m.workers.find? ix)
  return { m with workers := m.workers.insert ix worker.setKillOrder }.signal ix

/-- One turn of the loop of `finish`. -/
def finishOne (m : IOWorkerMgr) (ix : Nat) : Except Fault IOWorkerMgr :=
  if ix ∈ m.toErase then .ok m else m.sendKill ix

/-- `finish`: a kill order to every worker that is not waiting to be erased. -/
def finish (m : IOWorkerMgr) : Except Fault IOWorkerMgr := m.workers.keys.foldlM finishOne m

/-- `sendJob`; `none` stands for the index `-1` of a free side. -/
def sendJob (m : IOWorkerMgr) (job : SendJob) (ix : Option Nat) : Except Fault IOWorkerMgr := do
  let ix ← require .sendJobTarget ix
  let worker ← require .sendJobTarget (m.workers.find? ix)
  return { m with
    workers := m.workers.insert ix (worker.pushNextJob job)
    sent := m.sent ++ [(ix, job)] }.signal ix

/-- `eraseWorker`. -/
def eraseWorker (m : IOWorkerMgr) (ix : Nat) : IOWorkerMgr :=
  if ix ∈ m.toErase then m
  else { m with
    toErase := m.toErase ++ [ix]
    clearThreadsSemaphore := m.clearThreadsSemaphore + 1 }

/-- One turn of the loop of `waitForClearing`, which blocks in `acquire` at a zero count. -/
def waitForClearing (m : IOWorkerMgr) : IOWorkerMgr :=
  if m.exitFlag ∨ m.clearThreadsSemaphore = 0 then m
  else
    let workers := m.toErase.reverse.foldl UnorderedMap.erase m.workers
    { m with
      clearThreadsSemaphore := m.clearThreadsSemaphore - 1
      workers := workers
      toErase := []
      exitFlag := m.finishFlag && workers.entries.isEmpty }

/-- `releaseCleaner`. -/
def releaseCleaner (m : IOWorkerMgr) : IOWorkerMgr := { m with finishFlag := true }

/-- `setRole`. -/
def setRole (m : IOWorkerMgr) (ix : Nat) (role : WorkerStatus) : Except Fault IOWorkerMgr :=
  match m.roles.find? ix with
  | none => .error .unknownRole
  | some _ => .ok { m with roles := m.roles.insert ix role }

/-- `getRole`. -/
def getRole (m : IOWorkerMgr) (ix : Nat) : Except Fault WorkerStatus :=
  require .unknownRole (m.roles.find? ix)

/-- `signalRole`. -/
def signalRole (m : IOWorkerMgr) (role : WorkerStatus) : IOWorkerMgr :=
  m.roles.entries.foldl (fun m it => if it.2 = role then m.signal it.1 else m) m

/-- `spawnNewWorker`: a fresh index with an empty job queue and an empty pipe. -/
def spawnNewWorker (m : IOWorkerMgr) (role : WorkerStatus) : IOWorkerMgr :=
  { m with
    nextIx := m.nextIx + 1
    pipes := m.pipes.insert m.nextIx 0
    workers := m.workers.insert m.nextIx .empty
    roles := m.roles.insert m.nextIx role }

/-- `JobQueue::popNextJob` by the thread of worker `ix`. -/
def popNextJob (m : IOWorkerMgr) (ix : Nat) : Except Fault IOWorkerMgr := do
  let worker ← require .emptyQueue (m.workers.find? ix)
  let (_, worker) ← worker.popNextJob
  return { m with workers := m.workers.insert ix worker }

/-- The reads of `IOWorker::handlePipe`, which end when the pipe is empty. -/
def handlePipe (m : IOWorkerMgr) (ix : Nat) : IOWorkerMgr := { m with pipes := m.pipes.insert ix 0 }

section Erasing

variable (m : IOWorkerMgr) (ix : Nat)

@[simp] theorem eraseWorker_workers : (m.eraseWorker ix).workers = m.workers := by
  unfold eraseWorker
  split <;> rfl

@[simp] theorem eraseWorker_roles : (m.eraseWorker ix).roles = m.roles := by
  unfold eraseWorker
  split <;> rfl

@[simp] theorem eraseWorker_sent : (m.eraseWorker ix).sent = m.sent := by
  unfold eraseWorker
  split <;> rfl

theorem mem_eraseWorker {m : IOWorkerMgr} {ix jx : Nat} :
    jx ∈ (m.eraseWorker ix).toErase ↔ jx ∈ m.toErase ∨ jx = ix := by
  unfold eraseWorker
  split
  case isTrue hmem => exact ⟨.inl, fun hor => hor.elim id fun heq => heq ▸ hmem⟩
  case isFalse => simp

theorem self_mem_eraseWorker : ix ∈ (m.eraseWorker ix).toErase := mem_eraseWorker.mpr (.inr rfl)

@[simp] theorem waitForClearing_roles : m.waitForClearing.roles = m.roles := by
  unfold waitForClearing
  split <;> rfl

@[simp] theorem waitForClearing_sent : m.waitForClearing.sent = m.sent := by
  unfold waitForClearing
  split <;> rfl

@[simp] theorem waitForClearing_nextIx : m.waitForClearing.nextIx = m.nextIx := by
  unfold waitForClearing
  split <;> rfl

@[simp] theorem waitForClearing_finishFlag : m.waitForClearing.finishFlag = m.finishFlag := by
  unfold waitForClearing
  split <;> rfl

/-- The cleaner leaves no worker waiting, or has not come to its turn. -/
theorem waitForClearing_toErase : m.waitForClearing = m ∨ m.waitForClearing.toErase = [] := by
  unfold waitForClearing
  split
  · exact .inl rfl
  · exact .inr rfl

end Erasing

end IOWorkerMgr
end Kierki
