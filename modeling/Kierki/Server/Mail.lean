import Kierki.Server.Server

/-!
# What the mail of the manager does

`sendJob`, `sendKill`, `finish` and `signalRole` change job queues and pipes and nothing else of the
manager.  `Posted m m' out` collects what every caller needs to know of such a change: the roles and
the list of the cleaner are untouched, the workers registered are the same, kill orders and unread
bytes only get more, and exactly the messages `out` went out, each to a worker with an unread byte.
-/

namespace Kierki

open Fallible

namespace IOWorkerMgr

@[simp] theorem getRole_eq_ok {m : IOWorkerMgr} {ix : Nat} {r : WorkerStatus} :
    m.getRole ix = .ok r ↔ m.roles.find? ix = some r := by
  simp [getRole]

/-- The manager with the role of `ix` replaced. -/
def withRole (m : IOWorkerMgr) (ix : Nat) (role : WorkerStatus) : IOWorkerMgr :=
  { m with roles := m.roles.insert ix role }

@[simp] theorem setRole_eq_ok {m m' : IOWorkerMgr} {ix : Nat} {role : WorkerStatus} :
    m.setRole ix role = .ok m' ↔ (m.roles.find? ix).isSome ∧ m' = m.withRole ix role := by
  unfold setRole withRole
  cases m.roles.find? ix <;> simp [eq_comm]

/-- Worker `ix` is in `workers`. -/
def Registered (m : IOWorkerMgr) (ix : Nat) : Prop := (m.workers.find? ix).isSome

/-- Worker `ix` has been given its kill order, if it is still registered. -/
def Killed (m : IOWorkerMgr) (ix : Nat) : Prop :=
  ∀ q, m.workers.find? ix = some q → q.killFlag = true

/-- `m'` is `m` after the messages `out`, any number of wake-up bytes and any number of kill orders. -/
structure Posted (m m' : IOWorkerMgr) (out : List (Nat × SendJob)) : Prop where
  roles : m'.roles = m.roles
  toErase : m'.toErase = m.toErase
  semaphore : m'.clearThreadsSemaphore = m.clearThreadsSemaphore
  finishFlag : m'.finishFlag = m.finishFlag
  nextIx : m'.nextIx = m.nextIx
  exitFlag : m'.exitFlag = m.exitFlag
  sent : m'.sent = m.sent ++ out
  registered : ∀ ix, m'.Registered ix ↔ m.Registered ix
  killed : ∀ ix, m.Killed ix → m'.Killed ix
  unread : ∀ ix, m.unread ix ≤ m'.unread ix
  woken : ∀ p ∈ out, 0 < m'.unread p.1
  addressee : ∀ p ∈ out, m.Registered p.1
  queue : ∀ ix q, m.workers.find? ix = some q → ∃ q', m'.workers.find? ix = some q' ∧
    q'.jobsPending = q.jobsPending ++ (out.filter fun p => p.1 = ix).map Prod.snd

theorem Posted.refl (m : IOWorkerMgr) : Posted m m [] where
  roles := rfl
  toErase := rfl
  semaphore := rfl
  finishFlag := rfl
  nextIx := rfl
  exitFlag := rfl
  sent := by simp
  registered := fun _ => Iff.rfl
  killed := fun _ h => h
  unread := fun _ => le_refl _
  woken := by simp
  addressee := by simp
  queue := fun _ q hq => ⟨q, hq, by simp⟩

theorem Posted.trans {m₁ m₂ m₃ : IOWorkerMgr} {out₁ out₂ : List (Nat × SendJob)}
    (h₁ : Posted m₁ m₂ out₁) (h₂ : Posted m₂ m₃ out₂) : Posted m₁ m₃ (out₁ ++ out₂) where
  roles := h₂.roles.trans h₁.roles
  toErase := h₂.toErase.trans h₁.toErase
  semaphore := h₂.semaphore.trans h₁.semaphore
  finishFlag := h₂.finishFlag.trans h₁.finishFlag
  nextIx := h₂.nextIx.trans h₁.nextIx
  exitFlag := h₂.exitFlag.trans h₁.exitFlag
  sent := by rw [h₂.sent, h₁.sent, List.append_assoc]
  registered := fun ix => (h₂.registered ix).trans (h₁.registered ix)
  killed := fun ix h => h₂.killed ix (h₁.killed ix h)
  unread := fun ix => (h₁.unread ix).trans (h₂.unread ix)
  woken := by
    intro p hp
    rcases List.mem_append.mp hp with hp | hp
    · exact (h₁.woken p hp).trans_le (h₂.unread p.1)
    · exact h₂.woken p hp
  addressee := by
    intro p hp
    rcases List.mem_append.mp hp with hp | hp
    · exact h₁.addressee p hp
    · exact (h₁.registered p.1).mp (h₂.addressee p hp)
  queue := by
    intro ix q hq
    obtain ⟨q₁, hq₁, hjobs₁⟩ := h₁.queue ix q hq
    obtain ⟨q₂, hq₂, hjobs₂⟩ := h₂.queue ix q₁ hq₁
    exact ⟨q₂, hq₂, by rw [hjobs₂, hjobs₁, List.filter_append, List.map_append, List.append_assoc]⟩

/-- A change of roles commutes with the mail. -/
theorem Posted.withRole {m m' : IOWorkerMgr} {out : List (Nat × SendJob)} (h : Posted m m' out)
    (ix : Nat) (role : WorkerStatus) : Posted (m.withRole ix role) (m'.withRole ix role) out where
  roles := by simp [IOWorkerMgr.withRole, h.roles]
  toErase := h.toErase
  semaphore := h.semaphore
  finishFlag := h.finishFlag
  nextIx := h.nextIx
  exitFlag := h.exitFlag
  sent := h.sent
  registered := h.registered
  killed := h.killed
  unread := h.unread
  woken := h.woken
  addressee := h.addressee
  queue := h.queue

theorem unread_signal (m : IOWorkerMgr) (ix jx : Nat) :
    (m.signal ix).unread jx = if jx = ix then m.unread ix + 1 else m.unread jx := by
  unfold signal unread
  by_cases h : jx = ix <;> simp [h]

theorem posted_signal (m : IOWorkerMgr) (ix : Nat) : Posted m (m.signal ix) [] where
  roles := rfl
  toErase := rfl
  semaphore := rfl
  finishFlag := rfl
  nextIx := rfl
  exitFlag := rfl
  sent := by simp [signal]
  registered := fun _ => Iff.rfl
  killed := fun _ h => h
  unread := by
    intro jx
    rw [unread_signal]
    split
    · rename_i h
      subst h
      omega
    · exact le_refl _
  woken := by simp
  addressee := by simp
  queue := fun _ q hq => ⟨q, hq, by simp⟩

/-- Replacing the queue of a registered worker by one that keeps its kill order. -/
theorem posted_setQueue {m : IOWorkerMgr} {ix : Nat} {q : JobQueue} (q' : JobQueue)
    (hq : m.workers.find? ix = some q) (hkill : q.killFlag = true → q'.killFlag = true)
    (out : List (Nat × SendJob)) (hout : ∀ p ∈ out, p.1 = ix)
    (hjobs : q'.jobsPending = q.jobsPending ++ out.map Prod.snd) :
    Posted m ({ m with workers := m.workers.insert ix q', sent := m.sent ++ out }.signal ix) out where
  roles := rfl
  toErase := rfl
  semaphore := rfl
  finishFlag := rfl
  nextIx := rfl
  exitFlag := rfl
  sent := rfl
  registered := by
    intro jx
    unfold Registered signal
    by_cases h : jx = ix
    · subst h
      simp [hq]
    · simp [h]
  killed := by
    intro jx hjx w hw
    unfold signal at hw
    by_cases h : jx = ix
    · subst h
      obtain rfl : q' = w := by simpa using hw
      exact hkill (hjx q hq)
    · exact hjx w (by simpa [h] using hw)
  unread := fun jx => (posted_signal _ ix).unread jx
  woken := by
    intro p hp
    rw [hout p hp, unread_signal, if_pos rfl]
    omega
  addressee := by
    intro p hp
    rw [hout p hp, Registered, hq]
    rfl
  queue := by
    intro jx w hw
    by_cases h : jx = ix
    · subst h
      obtain rfl : q = w := Option.some.inj (hq.symm.trans hw)
      refine ⟨q', by simp [signal], ?_⟩
      rw [hjobs, List.filter_eq_self.mpr (by simpa using hout)]
    · refine ⟨w, by simpa [signal, h] using hw, ?_⟩
      -- nothing is addressed to the others
      have hnone : out.filter (fun p => p.1 = jx) = [] := by
        rw [List.filter_eq_nil_iff]
        intro p hp hjx
        exact h ((of_decide_eq_true hjx).symm.trans (hout p hp))
      simp [hnone]

/-- A kill order reaches a registered worker, and wakes it. -/
theorem sendKill_eq_ok {m m' : IOWorkerMgr} {ix : Nat} (h : m.sendKill ix = .ok m') :
    m.Registered ix ∧ Posted m m' [] ∧ m'.Killed ix ∧ 0 < m'.unread ix := by
  unfold sendKill at h
  simp only [bind_eq_ok, require_eq_ok, pure_eq_ok_iff] at h
  obtain ⟨q, hq, rfl⟩ := h
  refine ⟨by simp [Registered, hq], ?_, ?_, ?_⟩
  · have hpost := posted_setQueue q.setKillOrder hq (fun _ => rfl) [] (by simp)
      (by simp [JobQueue.setKillOrder])
    simpa using hpost
  · intro w hw
    obtain rfl : q.setKillOrder = w := by simpa [signal] using hw
    rfl
  · rw [unread_signal, if_pos rfl]
    omega

theorem sendKill_ok {m : IOWorkerMgr} {ix : Nat} (h : m.Registered ix) :
    ∃ m', m.sendKill ix = .ok m' := by
  obtain ⟨q, hq⟩ := Option.isSome_iff_exists.mp h
  exact ⟨_, by simp [sendKill, hq, require]; rfl⟩

/-- A message reaches a registered worker, and wakes it. -/
theorem sendJob_eq_ok {m m' : IOWorkerMgr} {job : SendJob} {ix : Option Nat}
    (h : m.sendJob job ix = .ok m') :
    ∃ i, ix = some i ∧ m.Registered i ∧ Posted m m' [(i, job)] := by
  unfold sendJob at h
  simp only [bind_eq_ok, require_eq_ok, pure_eq_ok_iff] at h
  obtain ⟨i, hi, q, hq, rfl⟩ := h
  refine ⟨i, hi, by simp [Registered, hq], ?_⟩
  exact posted_setQueue (q.pushNextJob job) hq (fun hk => hk) [(i, job)] (by simp) (by rfl)

theorem sendJob_ok {m : IOWorkerMgr} {ix : Nat} (job : SendJob) (h : m.Registered ix) :
    ∃ m', m.sendJob job (some ix) = .ok m' := by
  obtain ⟨q, hq⟩ := Option.isSome_iff_exists.mp h
  exact ⟨_, by simp [sendJob, hq, require]; rfl⟩

theorem posted_signalRole (m : IOWorkerMgr) (role : WorkerStatus) :
    Posted m (m.signalRole role) [] ∧
      ∀ ix, m.roles.find? ix = some role → 0 < (m.signalRole role).unread ix := by
  have hloop : ∀ (l : List (Nat × WorkerStatus)) (m : IOWorkerMgr),
      Posted m (l.foldl (fun m it => if it.2 = role then m.signal it.1 else m) m) [] ∧
        ∀ ix, (ix, role) ∈ l →
          0 < (l.foldl (fun m it => if it.2 = role then m.signal it.1 else m) m).unread ix := by
    intro l
    induction l with
    | nil => exact fun m => ⟨Posted.refl m, by simp⟩
    | cons it rest ih =>
        intro m
        rw [List.foldl_cons]
        by_cases h : it.2 = role
        · rw [if_pos h]
          obtain ⟨hpost, hwoken⟩ := ih (m.signal it.1)
          refine ⟨(posted_signal m it.1).trans hpost, fun ix hix => ?_⟩
          rcases List.mem_cons.mp hix with he | hix
          · subst he
            refine lt_of_lt_of_le ?_ (hpost.unread ix)
            simp [unread_signal]
          · exact hwoken ix hix
        · rw [if_neg h]
          obtain ⟨hpost, hwoken⟩ := ih m
          refine ⟨hpost, fun ix hix => ?_⟩
          rcases List.mem_cons.mp hix with he | hix
          · exact absurd (by rw [← he]) h
          · exact hwoken ix hix
  obtain ⟨hpost, hwoken⟩ := hloop m.roles.entries m
  exact ⟨hpost, fun ix hix => hwoken ix ((m.roles.mem_entries_iff ix role).mpr hix)⟩

/-- `finish` reaches every registered worker that does not wait to be erased, and wakes it. -/
theorem finish_eq_ok {m m' : IOWorkerMgr} (h : m.finish = .ok m') :
    Posted m m' [] ∧ ∀ ix, m.Registered ix → ix ∉ m.toErase → m'.Killed ix ∧ 0 < m'.unread ix := by
  have hloop : ∀ (l : List Nat) (m m' : IOWorkerMgr), l.foldlM finishOne m = .ok m' →
      Posted m m' [] ∧ ∀ ix ∈ l, ix ∉ m.toErase → m'.Killed ix ∧ 0 < m'.unread ix := by
    intro l
    induction l with
    | nil =>
        intro m m' h
        obtain rfl : m = m' := by simpa using h
        exact ⟨Posted.refl m, by simp⟩
    | cons ix rest ih =>
        intro m m' h
        rw [List.foldlM_cons, bind_eq_ok] at h
        obtain ⟨m₁, h₁, hrest⟩ := h
        obtain ⟨hpost, hall⟩ := ih m₁ m' hrest
        unfold finishOne at h₁
        by_cases he : ix ∈ m.toErase
        · rw [if_pos he] at h₁
          obtain rfl : m = m₁ := by simpa using h₁
          refine ⟨hpost, fun jx hjx hne => ?_⟩
          rcases List.mem_cons.mp hjx with rfl | hjx
          · exact absurd he hne
          · exact hall jx hjx hne
        · rw [if_neg he] at h₁
          obtain ⟨-, hpost₁, hkilled, hwoken⟩ := sendKill_eq_ok h₁
          refine ⟨hpost₁.trans hpost, fun jx hjx hne => ?_⟩
          rcases List.mem_cons.mp hjx with rfl | hjx
          · exact ⟨hpost.killed jx hkilled, hwoken.trans_le (hpost.unread jx)⟩
          · exact hall jx hjx (by rwa [hpost₁.toErase])
  obtain ⟨hpost, hall⟩ := hloop m.workers.keys m m' h
  exact ⟨hpost, fun ix hreg => hall ix ((m.workers.find?_isSome_iff ix).mp hreg)⟩

/-- `finish` never looks up a worker that is not there. -/
theorem finish_ok (m : IOWorkerMgr) : ∃ m', m.finish = .ok m' := by
  have hloop : ∀ (l : List Nat) (m : IOWorkerMgr), (∀ ix ∈ l, m.Registered ix) →
      ∃ m', l.foldlM finishOne m = .ok m' := by
    intro l
    induction l with
    | nil => exact fun m _ => ⟨m, rfl⟩
    | cons ix rest ih =>
        intro m hreg
        by_cases he : ix ∈ m.toErase
        · obtain ⟨m', h⟩ := ih m fun jx hjx => hreg jx (List.mem_cons_of_mem _ hjx)
          exact ⟨m', by rw [List.foldlM_cons, finishOne, if_pos he]; exact h⟩
        · obtain ⟨m₁, h₁⟩ := sendKill_ok (hreg ix List.mem_cons_self)
          obtain ⟨-, hpost, -⟩ := sendKill_eq_ok h₁
          obtain ⟨m', h⟩ := ih m₁ fun jx hjx =>
            (hpost.registered jx).mpr (hreg jx (List.mem_cons_of_mem _ hjx))
          exact ⟨m', by rw [List.foldlM_cons, finishOne, if_neg he, h₁]; exact h⟩
  exact hloop m.workers.keys m fun ix hix => (m.workers.find?_isSome_iff ix).mpr hix

end IOWorkerMgr

namespace Server

open IOWorkerMgr

/-- The messages `out` are the jobs `jobs`, all with a proper index. -/
def Addressed (jobs : List (Option Nat × SendJob)) (out : List (Nat × SendJob)) : Prop :=
  jobs = out.map fun p => (some p.1, p.2)

theorem Addressed.append {jobs jobs' : List (Option Nat × SendJob)} {out out' : List (Nat × SendJob)}
    (h : Addressed jobs out) (h' : Addressed jobs' out') :
    Addressed (jobs ++ jobs') (out ++ out') := by
  unfold Addressed at *
  rw [h, h', List.map_append]

theorem addressed_singleton {ix : Option Nat} {job : SendJob} {out : List (Nat × SendJob)}
    (h : Addressed [(ix, job)] out) : ∃ i, ix = some i ∧ out = [(i, job)] := by
  unfold Addressed at h
  obtain ⟨p, hp, heq⟩ := List.map_eq_singleton_iff.mp h.symm
  obtain ⟨rfl, rfl⟩ : some p.1 = ix ∧ p.2 = job := by simpa using heq
  exact ⟨p.1, rfl, hp⟩

theorem Addressed.mem_iff {jobs : List (Option Nat × SendJob)} {out : List (Nat × SendJob)}
    (h : Addressed jobs out) (ix : Nat) (job : SendJob) :
    (ix, job) ∈ out ↔ (some ix, job) ∈ jobs := by
  rw [h, List.mem_map]
  constructor
  · exact fun hmem => ⟨(ix, job), hmem, rfl⟩
  · rintro ⟨⟨jx, job'⟩, hmem, heq⟩
    obtain ⟨rfl, rfl⟩ : jx = ix ∧ job' = job := by simpa using heq
    exact hmem

/-- A job that was handed over went to a worker. -/
theorem Addressed.exists_mem {jobs : List (Option Nat × SendJob)} {out : List (Nat × SendJob)}
    (h : Addressed jobs out) {ix : Option Nat} {job : SendJob} (hmem : (ix, job) ∈ jobs) :
    ∃ p ∈ out, some p.1 = ix ∧ p.2 = job := by
  rw [h, List.mem_map] at hmem
  obtain ⟨p, hp, heq⟩ := hmem
  exact ⟨p, hp, (Prod.mk.inj heq).1, (Prod.mk.inj heq).2⟩

/-- A list of `sendJob` calls posts exactly its messages. -/
theorem sendJobs_eq_ok {σ σ' : Server} {jobs : List (Option Nat × SendJob)}
    (h : σ.sendJobs jobs = .ok σ') :
    ∃ mgr out, σ' = { σ with workerMgr := mgr } ∧ Posted σ.workerMgr mgr out ∧
      Addressed jobs out := by
  have hloop : ∀ (jobs : List (Option Nat × SendJob)) (m m' : IOWorkerMgr),
      jobs.foldlM (fun m p => m.sendJob p.2 p.1) m = .ok m' →
        ∃ out, Posted m m' out ∧ Addressed jobs out := by
    intro jobs
    induction jobs with
    | nil =>
        intro m m' h
        obtain rfl : m = m' := by simpa using h
        exact ⟨[], Posted.refl m, rfl⟩
    | cons p rest ih =>
        intro m m' h
        rw [List.foldlM_cons, bind_eq_ok] at h
        obtain ⟨m₁, h₁, hrest⟩ := h
        obtain ⟨ix, hix, -, hpost₁⟩ := sendJob_eq_ok h₁
        obtain ⟨out, hpost, haddr⟩ := ih m₁ m' hrest
        refine ⟨(ix, p.2) :: out, hpost₁.trans hpost, ?_⟩
        unfold Addressed at *
        rw [List.map_cons, ← haddr, ← hix]
  unfold sendJobs at h
  simp only [bind_eq_ok, pure_eq_ok_iff] at h
  obtain ⟨mgr, hmgr, rfl⟩ := h
  obtain ⟨out, hpost, haddr⟩ := hloop jobs σ.workerMgr mgr hmgr
  exact ⟨mgr, out, rfl, hpost, haddr⟩

/-- Jobs for registered workers can all be sent. -/
theorem sendJobs_ok {σ : Server} {jobs : List (Option Nat × SendJob)}
    (h : ∀ p ∈ jobs, ∃ ix, p.1 = some ix ∧ σ.workerMgr.Registered ix) :
    ∃ σ', σ.sendJobs jobs = .ok σ' := by
  have hloop : ∀ (jobs : List (Option Nat × SendJob)) (m : IOWorkerMgr),
      (∀ p ∈ jobs, ∃ ix, p.1 = some ix ∧ m.Registered ix) →
        ∃ m', jobs.foldlM (fun m p => m.sendJob p.2 p.1) m = .ok m' := by
    intro jobs
    induction jobs with
    | nil => exact fun m _ => ⟨m, rfl⟩
    | cons p rest ih =>
        intro m hreg
        obtain ⟨ix, hix, hix'⟩ := hreg p List.mem_cons_self
        obtain ⟨m₁, h₁⟩ := sendJob_ok p.2 hix'
        obtain ⟨_, _, _, hpost⟩ := sendJob_eq_ok h₁
        have hreg₁ : ∀ p ∈ rest, ∃ ix, p.1 = some ix ∧ m₁.Registered ix := by
          intro q hq
          obtain ⟨jx, hjx, hreg'⟩ := hreg q (List.mem_cons_of_mem _ hq)
          exact ⟨jx, hjx, (hpost.registered jx).mpr hreg'⟩
        obtain ⟨m', h⟩ := ih m₁ hreg₁
        exact ⟨m', by rw [List.foldlM_cons, hix, h₁]; exact h⟩
  obtain ⟨m', hm'⟩ := hloop jobs σ.workerMgr h
  exact ⟨{ σ with workerMgr := m' }, by simp [sendJobs, hm']⟩

end Server
end Kierki
