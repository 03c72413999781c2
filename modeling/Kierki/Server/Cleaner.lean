import Kierki.Library.Execution
import Kierki.Server.IOWorkerMgr

/-!
# The cleaner, step by step

`eraseWorker` and `waitForClearing` of `server/io_worker_mgr.cpp` with all that can happen between their
steps.  `acquire` and the joins are not under the mutex; a critical section is one step, but for the one of
`eraseWorker`, which is `note` and `release`: the semaphore is reached without the mutex.

* `eraseWorker_eq` and `waitForClearing_eq`: these steps, one after the other, are the methods of the manager.
* `Sound` is what every run keeps, and `cleared` what follows for the workers: none is lost, and none is
  taken twice.
* `permitted_iff`: the semaphore is released once too often whenever two workers are erased without an
  `acquire` between them.
-/

namespace Kierki

open Execution

/-- Where the cleaner stands in `waitForClearing`. -/
inductive CleanerStage
  /-- before or in `acquire` -/
  | acquire
  /-- behind `acquire`, before the mutex -/
  | lock
  /-- `q.clear()` and `workers_to_erase.clear()` -/
  | clearing
  | returned
  deriving DecidableEq, Repr

/-- The steps of the workers' threads and of the cleaner. -/
inductive Deed
  /-- `spawnNewWorker` -/
  | spawn (role : WorkerStatus)
  /-- `eraseWorker` up to `push_back` -/
  | note (ix : Nat)
  /-- the rest of `eraseWorker` -/
  | release (ix : Nat)
  /-- the thread of a worker ends -/
  | ended (ix : Nat)
  | releaseCleaner
  | acquire
  /-- the scope of the mutex in `waitForClearing` -/
  | clear
  /-- the next thread in `q` is destroyed, which joins it -/
  | join
  /-- the next worker in `workers_to_erase` is destroyed -/
  | destroy
  /-- the test of the loop -/
  | again
  deriving DecidableEq, Repr

/-- The steps that reach the semaphore. -/
def Deed.permit : Deed → Bool
  | release _ | acquire => true
  | spawn _ | note _ | ended _ | releaseCleaner | clear | join | destroy | again => false

/-- The steps of the cleaner itself. -/
def Deed.OfCleaner : Deed → Prop
  | acquire | clear | join | destroy | again => True
  | spawn _ | note _ | release _ | ended _ | releaseCleaner => False

/-- The manager with the threads, and the local variables of `waitForClearing`.  `erasing` is the worker
whose call of `eraseWorker` holds the mutex; `called`, `late`, `joined` and `destroyed` are history. -/
structure Clearing where
  mgr : IOWorkerMgr
  threads : UnorderedMap Nat Unit
  erasing : Option Nat
  ended : List Nat
  stage : CleanerStage
  q : List Nat
  workersToErase : List Nat
  /-- the workers `eraseWorker` was called for -/
  called : List Nat
  /-- one of these calls came after `releaseCleaner` -/
  late : Bool
  joined : List Nat
  destroyed : List Nat

namespace Clearing

/-- The manager as it is built, with the cleaner in `waitForClearing`. -/
def start : Clearing where
  mgr := .new
  threads := .empty
  erasing := none
  ended := []
  stage := .acquire
  q := []
  workersToErase := []
  called := []
  late := false
  joined := []
  destroyed := []

def spawnNewWorker (s : Clearing) (role : WorkerStatus) : Clearing :=
  { s with
    mgr := s.mgr.spawnNewWorker role
    threads := s.threads.insert s.mgr.nextIx () }

/-- `eraseWorker` up to `push_back`, or up to its `return`. -/
def note (s : Clearing) (ix : Nat) : Clearing :=
  if ix ∈ s.mgr.toErase then s
  else { s with
    mgr := { s.mgr with toErase := s.mgr.toErase ++ [ix] }
    erasing := some ix
    called := s.called ++ [ix]
    late := s.late || s.mgr.finishFlag }

/-- `clearThreadsSemaphore.release()`. -/
def release (s : Clearing) : Clearing :=
  { s with
    mgr := { s.mgr with clearThreadsSemaphore := s.mgr.clearThreadsSemaphore + 1 }
    erasing := none }

/-- What `m[ix]` points to, by its index; nothing for a null pointer. -/
def pointee {α : Type} (m : UnorderedMap Nat α) (ix : Nat) : List Nat :=
  if (m.find? ix).isSome then [ix] else []

/-- One turn of the loop over `toErase`. -/
def takeOut (s : Clearing) (ix : Nat) : Clearing :=
  { s with
    q := s.q ++ pointee s.threads ix
    workersToErase := s.workersToErase ++ pointee s.mgr.workers ix
    threads := s.threads.erase ix
    mgr := { s.mgr with workers := s.mgr.workers.erase ix } }

/-- The loop, which takes the workers from the back of `toErase` until there are none, and the exit test. -/
def clear (s : Clearing) : Clearing :=
  let s := s.mgr.toErase.reverse.foldl takeOut s
  { s with
    mgr := { s.mgr with
      toErase := []
      exitFlag := s.mgr.finishFlag && s.mgr.workers.entries.isEmpty }
    stage := .clearing }

/-- One step.  There is none when the mutex is held, the count is zero or the thread has not ended. -/
def step (s : Clearing) : Deed → Option Clearing
  | .spawn role => if s.erasing = none then some (s.spawnNewWorker role) else none
  | .note ix => if s.erasing = none then some (s.note ix) else none
  | .release ix => if s.erasing = some ix then some s.release else none
  | .ended ix =>
      if ix < s.mgr.nextIx ∧ s.erasing ≠ some ix then some { s with ended := s.ended ++ [ix] } else none
  | .releaseCleaner =>
      if s.erasing = none then some { s with mgr := s.mgr.releaseCleaner } else none
  | .acquire =>
      if s.stage = .acquire ∧ 0 < s.mgr.clearThreadsSemaphore then
        some { s with
          mgr := { s.mgr with clearThreadsSemaphore := s.mgr.clearThreadsSemaphore - 1 }
          stage := .lock }
      else none
  | .clear => if s.stage = .lock ∧ s.erasing = none then some s.clear else none
  | .join =>
      match s.q with
      | [] => none
      | ix :: rest =>
          if s.stage = .clearing ∧ ix ∈ s.ended then
            some { s with q := rest, joined := s.joined ++ [ix] }
          else none
  | .destroy =>
      match s.workersToErase with
      | [] => none
      | ix :: rest =>
          if s.stage = .clearing ∧ s.q = [] then
            some { s with workersToErase := rest, destroyed := s.destroyed ++ [ix] }
          else none
  | .again =>
      if s.stage = .clearing ∧ s.q = [] ∧ s.workersToErase = [] then
        some { s with stage := if s.mgr.exitFlag then .returned else .acquire }
      else none

/-- What a step can do. -/
inductive Does (s : Clearing) : Deed → Clearing → Prop
  | spawn (role : WorkerStatus) (hfree : s.erasing = none) : Does s (.spawn role) (s.spawnNewWorker role)
  | note (ix : Nat) (hfree : s.erasing = none) : Does s (.note ix) (s.note ix)
  | release (ix : Nat) (hheld : s.erasing = some ix) : Does s (.release ix) s.release
  | ended (ix : Nat) (hknown : ix < s.mgr.nextIx) (hout : s.erasing ≠ some ix) :
      Does s (.ended ix) { s with ended := s.ended ++ [ix] }
  | releaseCleaner (hfree : s.erasing = none) :
      Does s .releaseCleaner { s with mgr := s.mgr.releaseCleaner }
  | acquire (hstage : s.stage = .acquire) (hcount : 0 < s.mgr.clearThreadsSemaphore) :
      Does s .acquire { s with
        mgr := { s.mgr with clearThreadsSemaphore := s.mgr.clearThreadsSemaphore - 1 }
        stage := .lock }
  | clear (hstage : s.stage = .lock) (hfree : s.erasing = none) : Does s .clear s.clear
  | join (ix : Nat) (rest : List Nat) (hstage : s.stage = .clearing) (hq : s.q = ix :: rest)
      (hended : ix ∈ s.ended) : Does s .join { s with q := rest, joined := s.joined ++ [ix] }
  | destroy (ix : Nat) (rest : List Nat) (hstage : s.stage = .clearing) (hq : s.q = [])
      (hworkers : s.workersToErase = ix :: rest) :
      Does s .destroy { s with workersToErase := rest, destroyed := s.destroyed ++ [ix] }
  | again (hstage : s.stage = .clearing) (hq : s.q = []) (hworkers : s.workersToErase = []) :
      Does s .again { s with stage := if s.mgr.exitFlag then .returned else .acquire }

theorem step_does {s s' : Clearing} {d : Deed} (h : s.step d = some s') : Does s d s' := by
  cases d <;> simp only [step] at h
  case join =>
      split at h
      case h_1 => cases h
      case h_2 ix rest hq =>
          obtain ⟨⟨hstage, hended⟩, rfl⟩ := Option.ite_none_right_eq_some.mp h |>.imp_right Option.some.inj
          exact .join ix rest hstage hq hended
  case destroy =>
      split at h
      case h_1 => cases h
      case h_2 ix rest hworkers =>
          obtain ⟨⟨hstage, hq⟩, rfl⟩ := Option.ite_none_right_eq_some.mp h |>.imp_right Option.some.inj
          exact .destroy ix rest hstage hq hworkers
  all_goals obtain ⟨hguard, rfl⟩ := Option.ite_none_right_eq_some.mp h |>.imp_right Option.some.inj
  case spawn role => exact .spawn role hguard
  case note ix => exact .note ix hguard
  case release ix => exact .release ix hguard
  case ended ix => exact .ended ix hguard.1 hguard.2
  case releaseCleaner => exact .releaseCleaner hguard
  case acquire => exact .acquire hguard.1 hguard.2
  case clear => exact .clear hguard.1 hguard.2
  case again => exact .again hguard.1 hguard.2.1 hguard.2.2

section Methods

variable (s : Clearing)

theorem pointee_of_isSome {α : Type} {m : UnorderedMap Nat α} {ix : Nat} (h : (m.find? ix).isSome) :
    pointee m ix = [ix] := if_pos h

/-- What the loop over `toErase` takes out. -/
theorem foldl_takeOut (ixs : List Nat) (hnodup : ixs.Nodup)
    (hworkers : ∀ ix ∈ ixs, (s.mgr.workers.find? ix).isSome)
    (hthreads : ∀ ix ∈ ixs, (s.threads.find? ix).isSome) :
    ixs.foldl takeOut s = { s with
      q := s.q ++ ixs
      workersToErase := s.workersToErase ++ ixs
      threads := ixs.foldl UnorderedMap.erase s.threads
      mgr := { s.mgr with workers := ixs.foldl UnorderedMap.erase s.mgr.workers } } := by
  induction ixs generalizing s with
  | nil => simp
  | cons ix ixs ih =>
      obtain ⟨hfresh, hnodup⟩ := List.nodup_cons.mp hnodup
      have hne : ∀ jx ∈ ixs, jx ≠ ix := fun jx hjx heq => hfresh (heq ▸ hjx)
      rw [List.foldl_cons, ih (s.takeOut ix) hnodup]
      · simp only [takeOut, pointee_of_isSome (hworkers ix List.mem_cons_self),
          pointee_of_isSome (hthreads ix List.mem_cons_self), List.append_assoc, List.singleton_append,
          List.foldl_cons]
      · intro jx hjx
        show ((s.mgr.workers.erase ix).find? jx).isSome = true
        rw [UnorderedMap.find?_erase, if_neg (hne jx hjx)]
        exact hworkers jx (List.mem_cons_of_mem ix hjx)
      · intro jx hjx
        show ((s.threads.erase ix).find? jx).isSome = true
        rw [UnorderedMap.find?_erase, if_neg (hne jx hjx)]
        exact hthreads jx (List.mem_cons_of_mem ix hjx)

theorem foldl_takeOut_mgr (ixs : List Nat) : (ixs.foldl takeOut s).mgr =
    { s.mgr with workers := ixs.foldl UnorderedMap.erase s.mgr.workers } := by
  induction ixs generalizing s with
  | nil => rfl
  | cons ix ixs ih => rw [List.foldl_cons, ih, List.foldl_cons, takeOut]

/-- What the scope of the mutex in `waitForClearing` does to the manager. -/
theorem clear_mgr : s.clear.mgr =
    let workers := s.mgr.toErase.reverse.foldl UnorderedMap.erase s.mgr.workers
    { s.mgr with
      workers := workers
      toErase := []
      exitFlag := s.mgr.finishFlag && workers.entries.isEmpty } := by
  rw [clear, foldl_takeOut_mgr]

/-- **`eraseWorker`** is its two steps, one after the other. -/
theorem eraseWorker_eq {ix : Nat} (hfree : s.erasing = none) (hnew : ix ∉ s.mgr.toErase) :
    (exec step s [.note ix, .release ix]).map mgr = some (s.mgr.eraseWorker ix) := by
  simp [exec, step, hfree, note, hnew, release, IOWorkerMgr.eraseWorker]

/-- **One turn of the loop of `waitForClearing`**, when nothing comes between its steps, is the turn that the
manager takes. -/
theorem waitForClearing_eq (hstage : s.stage = .acquire) (hfree : s.erasing = none)
    (hgo : s.mgr.exitFlag = false) (hcount : 0 < s.mgr.clearThreadsSemaphore) :
    (exec step s [.acquire, .clear]).map mgr = some s.mgr.waitForClearing := by
  have hnot : ¬ (s.mgr.exitFlag = true ∨ s.mgr.clearThreadsSemaphore = 0) := by simp [hgo, hcount.ne']
  simp only [exec, step, hstage, hcount, and_self, if_true, Option.bind_some, hfree, Option.map_some,
    clear_mgr, IOWorkerMgr.waitForClearing, if_neg hnot]

end Methods

/-- `eraseWorker` is called for workers that there are, and once for each. -/
def CallsOnce (s : Clearing) : Deed → Prop
  | .note ix => ix < s.mgr.nextIx ∧ ix ∉ s.called
  | _ => True

/-- The same, and no worker is spawned when the exit test has succeeded. -/
def Orderly (s : Clearing) : Deed → Prop
  | .spawn _ => s.mgr.exitFlag = false
  | d => s.CallsOnce d

instance (s : Clearing) (d : Deed) : Decidable (s.CallsOnce d) := by
  unfold CallsOnce
  split <;> infer_instance

instance (s : Clearing) (d : Deed) : Decidable (s.Orderly d) := by
  unfold Orderly
  split <;> infer_instance

/-- **What every run keeps.** -/
structure Sound (s : Clearing) : Prop where
  /-- what is taken out is first joined and then destroyed, in one order -/
  out : s.joined ++ s.q = s.destroyed ++ s.workersToErase
  before : s.destroyed <+: s.joined
  idle : s.stage ≠ .clearing → s.q = [] ∧ s.workersToErase = []
  here : ∀ ix, (s.mgr.workers.find? ix).isSome ↔ ix < s.mgr.nextIx ∧ ix ∉ s.joined ++ s.q
  threads : ∀ ix, (s.threads.find? ix).isSome ↔ (s.mgr.workers.find? ix).isSome
  called : ∀ ix, ix ∈ s.called ↔ ix ∈ s.mgr.toErase ∨ ix ∈ s.joined ++ s.q
  known : ∀ ix ∈ s.called, ix < s.mgr.nextIx
  nodup : (s.mgr.toErase ++ (s.joined ++ s.q)).Nodup
  /-- there is a permit for every worker that waits, unless the cleaner has taken one to come for them -/
  permits : s.stage ≠ .lock →
    s.mgr.toErase.length ≤ s.mgr.clearThreadsSemaphore + if s.erasing = none then 0 else 1
  late : s.late = true → s.mgr.finishFlag = true ∧
    (s.mgr.exitFlag = false → ∃ ix, (s.mgr.workers.find? ix).isSome)
  exit : s.mgr.exitFlag = true → s.mgr.workers.entries = [] ∧ (s.stage = .clearing ∨ s.stage = .returned)
  returned : s.stage = .returned → s.mgr.exitFlag = true

theorem sound_start : Sound start := by
  constructor <;> simp [start, IOWorkerMgr.new, UnorderedMap.empty, UnorderedMap.find?, UnorderedMap.assoc]

variable {s s' : Clearing}

/-- A worker that has not called `eraseWorker` is there, with its thread. -/
theorem Sound.present (h : Sound s) {ix : Nat} (hknown : ix < s.mgr.nextIx) (hnot : ix ∉ s.called) :
    (s.mgr.workers.find? ix).isSome :=
  (h.here ix).mpr ⟨hknown, fun hmem => hnot ((h.called ix).mpr (.inr hmem))⟩

/-- So is one that waits for the cleaner. -/
theorem Sound.waiting (h : Sound s) {ix : Nat} (hwait : ix ∈ s.mgr.toErase) :
    (s.mgr.workers.find? ix).isSome := by
  refine (h.here ix).mpr ⟨h.known ix ((h.called ix).mpr (.inl hwait)), fun hmem => ?_⟩
  exact (List.disjoint_of_nodup_append h.nodup) hwait hmem

theorem Sound.spawnNewWorker (h : Sound s) (hgo : s.mgr.exitFlag = false) (role : WorkerStatus) :
    Sound (s.spawnNewWorker role) where
  out := h.out
  before := h.before
  idle := h.idle
  here ix := by
    show ((s.mgr.workers.insert s.mgr.nextIx JobQueue.empty).find? ix).isSome ↔
      ix < s.mgr.nextIx + 1 ∧ ix ∉ s.joined ++ s.q
    rw [UnorderedMap.find?_insert]
    by_cases hix : ix = s.mgr.nextIx
    · subst hix
      -- nobody has called for a worker that is new
      have hfresh : s.mgr.nextIx ∉ s.joined ++ s.q := fun hmem =>
        Nat.lt_irrefl _ (h.known _ ((h.called _).mpr (.inr hmem)))
      simp only [if_true, Option.isSome_some, true_iff]
      exact ⟨Nat.lt_succ_self _, hfresh⟩
    · rw [if_neg hix, h.here ix]
      refine and_congr_left fun _ => ?_
      omega
  threads ix := by
    show ((s.threads.insert s.mgr.nextIx ()).find? ix).isSome ↔
      ((s.mgr.workers.insert s.mgr.nextIx JobQueue.empty).find? ix).isSome
    rw [UnorderedMap.find?_insert, UnorderedMap.find?_insert]
    split
    · rfl
    · exact h.threads ix
  called := h.called
  known ix hix := Nat.lt_succ_of_lt (h.known ix hix)
  nodup := h.nodup
  permits := h.permits
  late hlate := by
    refine ⟨(h.late hlate).1, fun _ => ⟨s.mgr.nextIx, ?_⟩⟩
    show ((s.mgr.workers.insert s.mgr.nextIx JobQueue.empty).find? s.mgr.nextIx).isSome
    rw [UnorderedMap.find?_insert, if_pos rfl]
    rfl
  exit hexit := absurd hexit (by simp [Clearing.spawnNewWorker, IOWorkerMgr.spawnNewWorker, hgo])
  returned := h.returned

theorem Sound.note (h : Sound s) (hfree : s.erasing = none) {ix : Nat} (hknown : ix < s.mgr.nextIx)
    (hnot : ix ∉ s.called) : Sound (s.note ix) := by
  have hnew : ix ∉ s.mgr.toErase := fun hmem => hnot ((h.called ix).mpr (.inl hmem))
  have hout : ix ∉ s.joined ++ s.q := fun hmem => hnot ((h.called ix).mpr (.inr hmem))
  rw [Clearing.note, if_neg hnew]
  refine { h with called := ?_, known := ?_, nodup := ?_, permits := ?_, late := ?_ }
  · intro jx
    show jx ∈ s.called ++ [ix] ↔ jx ∈ s.mgr.toErase ++ [ix] ∨ jx ∈ s.joined ++ s.q
    rw [List.mem_append, List.mem_append, h.called jx]
    tauto
  · intro jx hjx
    rcases List.mem_append.mp hjx with hjx | hjx
    · exact h.known jx hjx
    · rwa [List.mem_singleton.mp hjx]
  · show (s.mgr.toErase ++ [ix] ++ (s.joined ++ s.q)).Nodup
    rw [List.append_assoc, List.singleton_append, List.nodup_middle, List.nodup_cons]
    refine ⟨fun hmem => ?_, h.nodup⟩
    exact (List.mem_append.mp hmem).elim hnew hout
  · intro hstage
    have hpermits := h.permits hstage
    simp only [hfree, if_true] at hpermits
    simp only [List.length_append, List.length_singleton, reduceCtorEq, if_false]
    omega
  · intro hlate
    refine ⟨?_, fun _ => ⟨ix, h.present hknown hnot⟩⟩
    rcases Bool.or_eq_true_iff.mp hlate with hlate | hflag
    · exact (h.late hlate).1
    · exact hflag

theorem Sound.release (h : Sound s) {ix : Nat} (hheld : s.erasing = some ix) : Sound s.release := by
  refine { h with permits := fun hstage => ?_ }
  have hpermits := h.permits hstage
  simp only [hheld, reduceCtorEq, if_false] at hpermits
  exact hpermits

theorem Sound.acquire (h : Sound s) (hstage : s.stage = .acquire) : Sound { s with
    mgr := { s.mgr with clearThreadsSemaphore := s.mgr.clearThreadsSemaphore - 1 }
    stage := .lock } := by
  refine { h with idle := fun _ => ?_, permits := fun hne => absurd rfl hne, exit := ?_, returned := nofun }
  · exact h.idle (by rw [hstage]; decide)
  · intro hexit
    obtain ⟨-, hbad⟩ := h.exit hexit
    simp [hstage] at hbad

/-- The cleaner takes out all workers that wait, each with its thread. -/
theorem Sound.clear_eq (h : Sound s) (hstage : s.stage = .lock) : s.clear = { s with
    q := s.mgr.toErase.reverse
    workersToErase := s.mgr.toErase.reverse
    threads := s.mgr.toErase.reverse.foldl UnorderedMap.erase s.threads
    mgr := s.clear.mgr
    stage := .clearing } := by
  obtain ⟨hq, hworkers⟩ := h.idle (by rw [hstage]; decide)
  have hloop := foldl_takeOut s s.mgr.toErase.reverse
    (List.nodup_reverse.mpr (List.nodup_append.mp h.nodup).1)
    (fun ix hix => h.waiting (List.mem_reverse.mp hix))
    (fun ix hix => (h.threads ix).mpr (h.waiting (List.mem_reverse.mp hix)))
  simp only [Clearing.clear, hloop, hq, hworkers, List.nil_append]

theorem Sound.clear (h : Sound s) (hstage : s.stage = .lock) : Sound s.clear := by
  obtain ⟨hq, hworkers⟩ := h.idle (by rw [hstage]; decide)
  have hout := h.out
  rw [hq, hworkers, List.append_nil, List.append_nil] at hout
  rw [h.clear_eq hstage, clear_mgr]
  constructor
  case out => rw [hout]
  case before => exact h.before
  case idle => exact fun hne => absurd rfl hne
  case here =>
    intro ix
    have hhere := h.here ix
    rw [hq, List.append_nil] at hhere
    simp only [UnorderedMap.find?_foldl_erase, List.mem_reverse, List.mem_append]
    by_cases hix : ix ∈ s.mgr.toErase
    · simp [hix]
    · simp [hix, hhere]
  case threads =>
    intro ix
    simp only [UnorderedMap.find?_foldl_erase]
    split
    · rfl
    · exact h.threads ix
  case called =>
    intro ix
    have hcalled := h.called ix
    rw [hq, List.append_nil] at hcalled
    simp only [hcalled, List.mem_append, List.mem_reverse, List.not_mem_nil, false_or]
    exact or_comm
  case known => exact h.known
  case nodup =>
    have hnodup := h.nodup
    rw [hq, List.append_nil] at hnodup
    show (s.joined ++ s.mgr.toErase.reverse).Nodup
    exact (List.perm_append_comm.trans ((List.reverse_perm _).append_right _)).nodup_iff.mpr hnodup
  case permits => exact fun _ => Nat.zero_le _
  case late =>
    intro hlate
    obtain ⟨hflag, -⟩ := h.late hlate
    refine ⟨hflag, fun hgo => ?_⟩
    -- the exit test has failed although the flag is set: somebody is left
    simp only [hflag, Bool.true_and] at hgo
    obtain ⟨⟨ix, q⟩, hmem⟩ := List.exists_mem_of_ne_nil _ (List.isEmpty_eq_false_iff.mp hgo)
    exact ⟨ix, Option.isSome_iff_exists.mpr ⟨q, (UnorderedMap.mem_entries_iff _ ix q).mp hmem⟩⟩
  case exit =>
    intro hexit
    simp only [Bool.and_eq_true, List.isEmpty_iff] at hexit
    exact ⟨hexit.2, .inl rfl⟩
  case returned =>
    intro hreturned
    cases hreturned

theorem Sound.join (h : Sound s) {ix : Nat} {rest : List Nat} (hstage : s.stage = .clearing)
    (hq : s.q = ix :: rest) : Sound { s with q := rest, joined := s.joined ++ [ix] } := by
  -- the workers that were taken out stay the same, in the same order
  have hsame : s.joined ++ [ix] ++ rest = s.joined ++ s.q := by simp [hq]
  refine { h with out := ?_, before := ?_, idle := ?_, here := ?_, called := ?_, nodup := ?_ }
  · rw [hsame]
    exact h.out
  · exact h.before.trans (List.prefix_append _ _)
  · exact fun hne => absurd hstage hne
  · simp only [hsame]
    exact h.here
  · simp only [hsame]
    exact h.called
  · simp only [hsame]
    exact h.nodup

theorem Sound.destroy (h : Sound s) {ix : Nat} {rest : List Nat} (hstage : s.stage = .clearing)
    (hq : s.q = []) (hworkers : s.workersToErase = ix :: rest) :
    Sound { s with workersToErase := rest, destroyed := s.destroyed ++ [ix] } := by
  have hout := h.out
  rw [hq, List.append_nil, hworkers] at hout
  refine { h with out := ?_, before := ?_, idle := ?_ }
  · simp [hq, hout]
  · exact ⟨rest, by simp [hout]⟩
  · exact fun hne => absurd hstage hne

theorem Sound.again (h : Sound s) (hstage : s.stage = .clearing) (hq : s.q = [])
    (hworkers : s.workersToErase = []) :
    Sound { s with stage := if s.mgr.exitFlag then .returned else .acquire } := by
  refine { h with idle := fun _ => ⟨hq, hworkers⟩, permits := fun _ => ?_, exit := ?_, returned := ?_ }
  · exact h.permits (by rw [hstage]; decide)
  · intro hexit
    simp only [show s.mgr.exitFlag = true from hexit]
    exact ⟨(h.exit hexit).1, .inr rfl⟩
  · intro hreturned
    cases hexit : s.mgr.exitFlag with
    | true => rfl
    | false => simp [hexit] at hreturned

/-- **One step.** -/
theorem Sound.step {d : Deed} (h : Sound s) (hord : s.Orderly d) (hstep : s.step d = some s') :
    Sound s' := by
  cases step_does hstep with
  | spawn role => exact h.spawnNewWorker hord role
  | note ix hfree => exact h.note hfree hord.1 hord.2
  | release ix hheld => exact h.release hheld
  | ended ix => exact { h with }
  | releaseCleaner => exact { h with late := fun hlate => ⟨rfl, (h.late hlate).2⟩ }
  | acquire hstage => exact h.acquire hstage
  | clear hstage => exact h.clear hstage
  | join ix rest hstage hq => exact h.join hstage hq
  | destroy ix rest hstage hq hworkers => exact h.destroy hstage hq hworkers
  | again hstage hq hworkers => exact h.again hstage hq hworkers

/-- **Every run.** -/
theorem sound_run {ds : List Deed} (hds : exec Clearing.step start ds = some s)
    (hord : Guarded Clearing.step Orderly start ds) : Sound s :=
  hord.invariant hds sound_start fun _ _ _ h hguard hstep => h.step hguard hstep

/-- The cleaner by itself comes to the end of its turn when the threads it has taken out have ended. -/
theorem finishes (hstage : s.stage = .clearing) (hended : ∀ ix ∈ s.q, ix ∈ s.ended) :
    ∃ ds s', exec Clearing.step s ds = some s' ∧ (∀ d ∈ ds, d.OfCleaner) ∧
      s'.stage = (if s.mgr.exitFlag then .returned else .acquire) ∧ s'.mgr = s.mgr ∧
      s'.erasing = s.erasing ∧ s'.ended = s.ended ∧ s'.called = s.called ∧ s'.late = s.late := by
  -- first the threads, then the workers
  induction hq : s.q generalizing s with
  | cons ix rest ih =>
      have hstep : s.step .join = some { s with q := rest, joined := s.joined ++ [ix] } := by
        simp [Clearing.step, hq, hstage, hended ix (by rw [hq]; exact List.mem_cons_self)]
      obtain ⟨ds, s', hds, hown, hrest⟩ := @ih { s with q := rest, joined := s.joined ++ [ix] } hstage
        (fun jx hjx => hended jx (by rw [hq]; exact List.mem_cons_of_mem ix hjx)) rfl
      refine ⟨.join :: ds, s', ?_, ?_, hrest⟩
      · rw [exec, hstep, Option.bind_some, hds]
      · exact List.forall_mem_cons.mpr ⟨trivial, hown⟩
  | nil =>
      clear hended
      induction hworkers : s.workersToErase generalizing s with
      | cons ix rest ih =>
          have hstep : s.step .destroy =
              some { s with workersToErase := rest, destroyed := s.destroyed ++ [ix] } := by
            simp [Clearing.step, hworkers, hstage, hq]
          obtain ⟨ds, s', hds, hown, hrest⟩ :=
            @ih { s with workersToErase := rest, destroyed := s.destroyed ++ [ix] } hstage hq rfl
          refine ⟨.destroy :: ds, s', ?_, ?_, hrest⟩
          · rw [exec, hstep, Option.bind_some, hds]
          · exact List.forall_mem_cons.mpr ⟨trivial, hown⟩
      | nil =>
          refine ⟨[.again], { s with stage := if s.mgr.exitFlag then .returned else .acquire }, ?_,
            by simp [Deed.OfCleaner], rfl, rfl, rfl, rfl, rfl, rfl⟩
          simp [exec, Clearing.step, hstage, hq, hworkers]

/-- Every worker has called `eraseWorker`, the calls are over, and the threads have ended. -/
def AllGone (s : Clearing) : Prop :=
  s.erasing = none ∧ ∀ ix < s.mgr.nextIx, ix ∈ s.called ∧ ix ∈ s.ended

/-- While somebody is left, and everybody has called, there is somebody to take out. -/
theorem Sound.toErase_ne_nil (h : Sound s) (hall : ∀ ix < s.mgr.nextIx, ix ∈ s.called) {ix : Nat}
    (hix : (s.mgr.workers.find? ix).isSome) : ix ∈ s.mgr.toErase := by
  obtain ⟨hknown, hout⟩ := (h.here ix).mp hix
  exact ((h.called ix).mp (hall ix hknown)).resolve_right hout

/-- What the cleaner has taken out of the maps was called for. -/
theorem Sound.ended_of_mem (h : Sound s) (hgone : s.AllGone) {ix : Nat} (hix : ix ∈ s.q) :
    ix ∈ s.ended :=
  (hgone.2 ix (h.known ix ((h.called ix).mpr (.inr (List.mem_append_right _ hix))))).2

/-- Behind `acquire` the cleaner comes to its end when everybody has called. -/
theorem Sound.returns_lock (h : Sound s) (hgone : s.AllGone) (hflag : s.mgr.finishFlag = true)
    (hstage : s.stage = .lock) : ∃ ds s', exec Clearing.step s ds = some s' ∧
      (∀ d ∈ ds, d.OfCleaner) ∧ s'.stage = .returned := by
  have hstep : s.step .clear = some s.clear := by simp [Clearing.step, hstage, hgone.1]
  have hsound := h.clear hstage
  -- everybody is taken out, so that the exit test succeeds
  have hexit : s.clear.mgr.exitFlag = true := by
    have hnobody : ∀ ix, (s.clear.mgr.workers.find? ix).isSome = false := by
      intro ix
      rw [clear_mgr]
      simp only [UnorderedMap.find?_foldl_erase, List.mem_reverse]
      split
      · rfl
      · rename_i hwait
        by_contra hsome
        exact hwait (h.toErase_ne_nil (fun jx hjx => (hgone.2 jx hjx).1) (Bool.not_eq_false _ ▸ hsome))
    have hempty : s.clear.mgr.workers.entries = [] := by
      refine List.eq_nil_iff_forall_not_mem.mpr ?_
      rintro ⟨ix, q⟩ hmem
      have hfind := (UnorderedMap.mem_entries_iff _ ix q).mp hmem
      simpa [hfind] using hnobody ix
    rw [clear_mgr] at hempty ⊢
    simp only [hflag, Bool.true_and, List.isEmpty_iff]
    exact hempty
  have hgone' : s.clear.AllGone := by
    rw [h.clear_eq hstage, clear_mgr]
    exact hgone
  have hstage' : s.clear.stage = .clearing := rfl
  obtain ⟨ds, s', hds, hown, hreturned, -⟩ := finishes hstage' fun ix hix => hsound.ended_of_mem hgone' hix
  rw [hexit] at hreturned
  refine ⟨.clear :: ds, s', ?_, List.forall_mem_cons.mpr ⟨trivial, hown⟩, hreturned⟩
  rw [exec, hstep, Option.bind_some, hds]

theorem Sound.returns_acquire (h : Sound s) (hgone : s.AllGone) (hlate : s.late = true)
    (hstage : s.stage = .acquire) : ∃ ds s', exec Clearing.step s ds = some s' ∧
      (∀ d ∈ ds, d.OfCleaner) ∧ s'.stage = .returned := by
  obtain ⟨hflag, hleft⟩ := h.late hlate
  have hgo : s.mgr.exitFlag = false := by
    by_contra hexit
    have := (h.exit (by simpa using hexit)).2
    simp [hstage] at this
  -- somebody is left and waits, and there is a permit
  obtain ⟨ix, hix⟩ := hleft hgo
  have hwait := h.toErase_ne_nil (fun jx hjx => (hgone.2 jx hjx).1) hix
  have hpermits := h.permits (by rw [hstage]; decide)
  rw [if_pos hgone.1] at hpermits
  have hcount : 0 < s.mgr.clearThreadsSemaphore := (List.length_pos_of_mem hwait).trans_le hpermits
  have hsound := h.acquire hstage
  obtain ⟨ds, s', hds, hown, hreturned⟩ := hsound.returns_lock hgone hflag rfl
  refine ⟨.acquire :: ds, s', ?_, List.forall_mem_cons.mpr ⟨trivial, hown⟩, hreturned⟩
  simp only [exec, Clearing.step, hstage, hcount, and_self, if_true, Option.bind_some]
  exact hds

/-- The steps of the cleaner keep what every run keeps. -/
theorem Sound.cleaner (h : Sound s) {ds : List Deed} (hown : ∀ d ∈ ds, d.OfCleaner)
    (hds : exec Clearing.step s ds = some s') : Sound s' := by
  induction ds generalizing s with
  | nil =>
      obtain rfl := Option.some.inj hds
      exact h
  | cons d ds ih =>
      obtain ⟨t, ht, hrest⟩ := Option.bind_eq_some_iff.mp hds
      obtain ⟨hd, hown⟩ := List.forall_mem_cons.mp hown
      refine ih (h.step ?_ ht) hown hrest
      cases d <;> trivial

/-- **The cleaner comes to its end by itself** when every worker has called `eraseWorker`, one of them after
`releaseCleaner`, and their threads have ended. -/
theorem Sound.returns (h : Sound s) (hgone : s.AllGone) (hlate : s.late = true) :
    ∃ ds s', exec Clearing.step s ds = some s' ∧ (∀ d ∈ ds, d.OfCleaner) ∧ s'.stage = .returned := by
  cases hstage : s.stage with
  | acquire => exact h.returns_acquire hgone hlate hstage
  | lock => exact h.returns_lock hgone (h.late hlate).1 hstage
  | returned => exact ⟨[], s, rfl, by simp, hstage⟩
  | clearing =>
      obtain ⟨ds, t, hds, hown, hnext, hmgr, herasing, hended, hcalled, hlate'⟩ :=
        finishes hstage fun ix hix => h.ended_of_mem hgone hix
      cases hexit : s.mgr.exitFlag with
      | true => exact ⟨ds, t, hds, hown, by rw [hnext, hexit]; rfl⟩
      | false =>
          rw [hexit] at hnext
          -- the turn is over, and the next one is the last
          have hgone' : t.AllGone := by
            rw [AllGone, herasing, hmgr, hcalled, hended]
            exact hgone
          obtain ⟨ds', s', hds', hown', hreturned⟩ :=
            (h.cleaner hown hds).returns_acquire hgone' (hlate'.trans hlate) hnext
          refine ⟨ds ++ ds', s', ?_, ?_, hreturned⟩
          · rw [exec_append, hds, Option.bind_some, hds']
          · exact fun d hd => (List.mem_append.mp hd).elim (hown d) (hown' d)

/-- The cleaner neither loses nor repeats a worker. -/
structure Cleared (s : Clearing) : Prop where
  /-- in `acquire` with a zero count nobody waits, unless a call of `eraseWorker` is about to release -/
  unblocked : s.stage = .acquire → s.mgr.clearThreadsSemaphore = 0 → s.erasing = none →
    s.mgr.toErase = []
  /-- and nothing holds this call up -/
  releases : ∀ ix, s.erasing = some ix → ∃ s', s.step (.release ix) = some s' ∧
    0 < s'.mgr.clearThreadsSemaphore
  /-- a worker that is erased waits, or was taken out and waits to be joined, or was joined -/
  kept : ∀ ix, ix ∈ s.called ↔ ix ∈ s.mgr.toErase ∨ ix ∈ s.q ∨ ix ∈ s.joined
  once : (s.mgr.toErase ++ s.q ++ s.joined).Nodup
  /-- what was destroyed was joined before, in the same order, and destroyed once -/
  before : s.destroyed <+: s.joined
  /-- at the end there are no workers, and every worker that ever was is joined and destroyed -/
  returned : s.stage = .returned → s.mgr.workers.entries = [] ∧
    ∀ ix < s.mgr.nextIx, ix ∈ s.joined ∧ ix ∈ s.destroyed
  /-- once the last worker is taken out the cleaner is behind its last `acquire` -/
  drained : s.late = true → s.mgr.workers.entries = [] →
    s.mgr.exitFlag = true ∧ (s.stage = .clearing ∨ s.stage = .returned)
  /-- and it returns when the threads have ended -/
  ends : s.late = true → s.AllGone →
    ∃ ds s', exec Clearing.step s ds = some s' ∧ (∀ d ∈ ds, d.OfCleaner) ∧ s'.stage = .returned

/-- At the end everything that was ever there is joined and destroyed. -/
theorem Sound.all_joined (h : Sound s) (hreturned : s.stage = .returned) {ix : Nat}
    (hix : ix < s.mgr.nextIx) : ix ∈ s.joined ∧ ix ∈ s.destroyed := by
  obtain ⟨hq, hworkers⟩ := h.idle (by rw [hreturned]; decide)
  have hout := h.out
  rw [hq, hworkers, List.append_nil, List.append_nil] at hout
  have hnobody : s.mgr.workers.find? ix = none := by
    rw [UnorderedMap.find?, (h.exit (h.returned hreturned)).1]
    rfl
  have hjoined : ix ∈ s.joined := by
    by_contra hnot
    have hhere := (h.here ix).mpr ⟨hix, by rwa [hq, List.append_nil]⟩
    simp [hnobody] at hhere
  exact ⟨hjoined, hout ▸ hjoined⟩

/-- **The cleaner neither loses nor repeats a worker**, in every interleaving in which each worker calls
`eraseWorker` once and none is spawned after the exit test. -/
theorem cleared_of_guarded {ds : List Deed} (hds : exec Clearing.step start ds = some s)
    (hord : Guarded Clearing.step Orderly start ds) : Cleared s := by
  have h := sound_run hds hord
  constructor
  case unblocked =>
    intro hstage hcount hfree
    have hpermits := h.permits (by rw [hstage]; decide)
    rw [hcount, if_pos hfree] at hpermits
    exact List.length_eq_zero_iff.mp (Nat.le_zero.mp hpermits)
  case releases =>
    intro ix hheld
    exact ⟨s.release, by rw [Clearing.step, if_pos hheld], Nat.succ_pos _⟩
  case kept =>
    intro ix
    rw [h.called ix, List.mem_append]
    tauto
  case once =>
    rw [List.append_assoc]
    exact ((List.perm_append_comm.append_left _).nodup_iff).mpr h.nodup
  case before => exact h.before
  case returned =>
    exact fun hreturned => ⟨(h.exit (h.returned hreturned)).1, fun ix => h.all_joined hreturned⟩
  case drained =>
    intro hlate hempty
    have hexit : s.mgr.exitFlag = true := by
      by_contra hgo
      obtain ⟨ix, hix⟩ := (h.late hlate).2 (by simpa using hgo)
      rw [UnorderedMap.find?, hempty] at hix
      cases hix
    exact ⟨hexit, (h.exit hexit).2⟩
  case ends => exact fun hlate hgone => h.returns hgone hlate

/-- A worker that is still there may spawn others, as the accepting one does. -/
theorem Sound.orderly_spawn (h : Sound s) {ix : Nat} (hix : (s.mgr.workers.find? ix).isSome)
    (role : WorkerStatus) : s.Orderly (.spawn role) := by
  by_contra hexit
  have hempty := (h.exit (Bool.not_eq_false _ ▸ hexit)).1
  rw [UnorderedMap.find?, hempty] at hix
  cases hix

/-- Two workers are erased, one before and one after `releaseCleaner`, and taken out with one permit of
two. -/
def twoAtOnce : List Deed :=
  [.spawn .servingProxy, .spawn .servingUnknown, .note 1, .release 1, .releaseCleaner, .note 0, .release 0,
    .acquire, .clear, .ended 0, .join, .ended 1, .join, .destroy, .destroy, .again]

theorem cleared_of_guarded_twoAtOnce : ∃ s, exec Clearing.step start twoAtOnce = some s ∧
    s.stage = .returned ∧ s.mgr.clearThreadsSemaphore = 1 ∧ s.mgr.workers.entries = [] ∧ 1 ∈ s.joined := by
  have hfacts : (exec Clearing.step start twoAtOnce).map (fun s =>
      (s.stage, s.mgr.clearThreadsSemaphore, s.mgr.nextIx)) = some (.returned, 1, 2) := by decide +kernel
  obtain ⟨s, hs, heq⟩ := Option.map_eq_some_iff.mp hfacts
  simp only [Prod.mk.injEq] at heq
  obtain ⟨hreturned, hcount, hnext⟩ := heq
  obtain ⟨hempty, hall⟩ := (cleared_of_guarded hs (by decide +kernel)).returned hreturned
  exact ⟨s, hs, hreturned, hcount, hempty, (hall 1 (by rw [hnext]; decide)).1⟩

/-- The last worker is taken out, another one is spawned before `waitForClearing` returns, and it calls
`eraseWorker` in its turn. -/
def spawnedTooLate : List Deed :=
  [.spawn .servingProxy, .releaseCleaner, .note 0, .release 0, .acquire, .clear, .spawn .servingUnknown,
    .ended 0, .join, .destroy, .again, .note 1, .release 1, .ended 1]

/-- `waitForClearing` has returned with a worker left, whose thread nobody joins.  And inside a call of
`eraseWorker` a worker waits while the cleaner stands in `acquire` with a zero count. -/
theorem not_cleared_spawnedTooLate : (∃ s, exec Clearing.step start spawnedTooLate = some s ∧
    Guarded Clearing.step CallsOnce start spawnedTooLate ∧ s.late = true ∧ s.stage = .returned ∧
      s.mgr.workers.keys = [1] ∧ 1 ∈ s.called ∧ 1 ∉ s.joined ∧ ¬ Cleared s) ∧
    ∃ s, exec Clearing.step start [.spawn .servingProxy, .note 0] = some s ∧ s.stage = .acquire ∧
      s.mgr.clearThreadsSemaphore = 0 ∧ s.mgr.toErase = [0] := by
  refine ⟨?_, _, rfl, rfl, rfl, rfl⟩
  have hfacts : (exec Clearing.step start spawnedTooLate).map (fun s =>
      decide (s.late = true ∧ s.stage = .returned ∧ s.mgr.workers.keys = [1] ∧ 1 ∈ s.called ∧
        1 ∉ s.joined)) = some true := by decide +kernel
  obtain ⟨s, hs, heq⟩ := Option.map_eq_some_iff.mp hfacts
  obtain ⟨hlate, hreturned, hkeys, hcalled, hjoined⟩ := of_decide_eq_true heq
  refine ⟨s, hs, by decide +kernel, hlate, hreturned, hkeys, hcalled, hjoined, fun h => ?_⟩
  have hempty := (h.returned hreturned).1
  rw [UnorderedMap.keys, hempty] at hkeys
  cases hkeys

/-- `release` finds the counter of the `binary_semaphore` at its maximum. -/
def Overfull (s : Clearing) : Deed → Prop
  | .release _ => 0 < s.mgr.clearThreadsSemaphore
  | _ => False

instance (s : Clearing) (d : Deed) : Decidable (s.Overfull d) := by
  unfold Overfull
  split <;> infer_instance

/-- Between two calls of `release` there is an `acquire`. -/
def Alternate (ds : List Deed) : Prop :=
  (ds.filter Deed.permit).IsChain fun d d' => d = .acquire ∨ d' = .acquire

/-- The last step that reached the semaphore is a `release`. -/
def Released (ds : List Deed) : Prop := ∃ ix, (ds.filter Deed.permit).getLast? = some (.release ix)

section Permits

variable {ds : List Deed} {d : Deed}

theorem alternate_release (ix : Nat) :
    Alternate (ds ++ [.release ix]) ↔ Alternate ds ∧ ¬ Released ds := by
  rw [Alternate, List.filter_append, List.isChain_append]
  refine and_congr_right fun _ => ⟨fun ⟨_, h⟩ ⟨jx, hjx⟩ => ?_, fun h => ⟨?_, ?_⟩⟩
  · have hone := h _ hjx (.release ix) rfl
    simp at hone
  · exact List.isChain_singleton _
  · intro d hd d' hd'
    left
    -- only a `release` or an `acquire` can come before
    have hmem := List.mem_of_getLast? hd
    have hpermit : d.permit = true := (List.mem_filter.mp hmem).2
    cases d with
    | acquire => rfl
    | release jx => exact absurd ⟨jx, hd⟩ h
    | _ => cases hpermit

theorem alternate_acquire : Alternate (ds ++ [.acquire]) ↔ Alternate ds := by
  rw [Alternate, List.filter_append, List.isChain_append]
  refine and_iff_left_of_imp fun _ => ⟨List.isChain_singleton _, fun d _ d' hd' => .inr ?_⟩
  exact (Option.some.inj hd').symm

theorem alternate_quiet (h : d.permit = false) : Alternate (ds ++ [d]) ↔ Alternate ds := by
  simp [Alternate, h]

theorem released_quiet (h : d.permit = false) : Released (ds ++ [d]) ↔ Released ds := by
  simp [Released, h]

/-- A step that does not reach the semaphore leaves its count. -/
theorem count_quiet {s s' : Clearing} (h : s.step d = some s') (hquiet : d.permit = false) :
    s'.mgr.clearThreadsSemaphore = s.mgr.clearThreadsSemaphore := by
  cases step_does h with
  | note ix =>
      unfold note
      split <;> rfl
  | clear => rw [clear_mgr]
  | release | acquire => cases hquiet
  | _ => rfl

end Permits

/-- **The precondition of the semaphore**: in every interleaving, whoever calls `eraseWorker` and how often,
`release` finds the counter below its maximum exactly if there is an `acquire` between any two calls of
`release`. -/
theorem permitted_iff {ds : List Deed} {s : Clearing} (h : exec Clearing.step start ds = some s) :
    Guarded Clearing.step (fun s d => ¬ s.Overfull d) start ds ↔ Alternate ds := by
  -- the count, and what it says of the steps so far
  refine (exec_induction (P := fun ds s =>
    (Guarded Clearing.step (fun s d => ¬ s.Overfull d) start ds ↔ Alternate ds) ∧
      (Released ds → 0 < s.mgr.clearThreadsSemaphore) ∧
      (Alternate ds → 0 < s.mgr.clearThreadsSemaphore → Released ds ∧ s.mgr.clearThreadsSemaphore = 1))
    ?_ (fun ds s d s' hds ih hstep => ?_) ds s h).1
  · refine ⟨iff_of_true trivial List.isChain_nil, ?_, fun _ hpos => absurd hpos (Nat.lt_irrefl 0)⟩
    rintro ⟨ix, hix⟩
    cases hix
  obtain ⟨hiff, hpos, hone⟩ := ih
  have hguard : Guarded Clearing.step (fun s d => ¬ s.Overfull d) start (ds ++ [d]) ↔
      Guarded Clearing.step (fun s d => ¬ s.Overfull d) start ds ∧ ¬ s.Overfull d :=
    ⟨guarded_concat hds, fun h => h.1.concat hds h.2⟩
  rw [hguard, hiff]
  cases hpermit : d.permit with
  | false =>
      have hnot : ¬ s.Overfull d := by cases d <;> first | exact id | cases hpermit
      rw [count_quiet hstep hpermit, alternate_quiet hpermit, released_quiet hpermit, and_iff_left hnot]
      exact ⟨Iff.rfl, hpos, hone⟩
  | true =>
      cases step_does hstep with
      | release ix hheld =>
          rw [alternate_release]
          refine ⟨and_congr_right fun halt => not_congr ⟨fun hov => (hone halt hov).1, hpos⟩,
            fun _ => Nat.succ_pos _, fun ⟨halt, hnone⟩ _ => ⟨⟨ix, by simp [Deed.permit]⟩, ?_⟩⟩
          have hzero : s.mgr.clearThreadsSemaphore = 0 := by
            by_contra hne
            exact hnone (hone halt (Nat.pos_of_ne_zero hne)).1
          show s.mgr.clearThreadsSemaphore + 1 = 1
          rw [hzero]
      | acquire hstage hcount =>
          rw [alternate_acquire]
          refine ⟨and_iff_left id, ?_, fun halt hleft => ?_⟩
          · rintro ⟨ix, hix⟩
            simp [Deed.permit] at hix
          · have hcount1 := (hone halt hcount).2
            have hleft : 0 < s.mgr.clearThreadsSemaphore - 1 := hleft
            omega
      | _ => cases hpermit

/-- Two workers erased one after the other, with the cleaner in between. -/
def oneByOne : List Deed :=
  [.spawn .servingProxy, .spawn .servingUnknown, .note 1, .release 1, .acquire, .note 0, .release 0, .clear]

/-- Two workers erased before the cleaner comes. -/
def bothAtOnce : List Deed :=
  [.spawn .servingProxy, .spawn .servingUnknown, .note 1, .release 1, .note 0, .release 0]

theorem permitted_iff_oneByOne : (exec Clearing.step start oneByOne).isSome ∧
    Guarded Clearing.step (fun s d => ¬ s.Overfull d) start oneByOne := by
  have hsome : (exec Clearing.step start oneByOne).isSome := by decide +kernel
  obtain ⟨s, hs⟩ := Option.isSome_iff_exists.mp hsome
  exact ⟨hsome, (permitted_iff hs).mpr (by unfold Alternate; decide)⟩

theorem not_permitted_bothAtOnce : (exec Clearing.step start bothAtOnce).isSome ∧
    ¬ Guarded Clearing.step (fun s d => ¬ s.Overfull d) start bothAtOnce := by
  decide +kernel

end Clearing

end Kierki
