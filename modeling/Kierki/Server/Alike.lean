import Kierki.Library.Lockstep
import Kierki.Server.Mail

/-!
# The manager with some of its workers left out

`Alike keep ended m m'` relates the manager `m` to a manager `m'` that knows the workers in `keep` only,
under the indices they have when the others do not come: both show a kept worker the same role, the same
jobs and the same unread bytes, and have sent it the same messages.  What is done for a kept worker is
done in both (`Lockstep`), and what is done for another one leaves `m'` as it is.

The cleaner of `m'` may be through earlier.  From then on the lists of workers drift apart, but every kept
worker of `m` stays registered in `m'`.
-/

namespace Kierki

open Fallible

/-- The index of a kept worker when the others are left out. -/
def rank (keep : Nat → Bool) (ix : Nat) : Nat := Nat.count (fun jx => keep jx = true) ix

section Rank

variable {keep : Nat → Bool} {ix jx : Nat}

theorem rank_succ (h : keep ix = true) : rank keep (ix + 1) = rank keep ix + 1 := by
  simp [rank, Nat.count_succ, h]

theorem rank_succ_of_not (h : keep ix = false) : rank keep (ix + 1) = rank keep ix := by
  simp [rank, Nat.count_succ, h]

/-- Kept workers keep apart. -/
theorem rank_inj (hi : keep ix = true) (hj : keep jx = true) : rank keep ix = rank keep jx ↔ ix = jx :=
  ⟨fun h => Nat.count_injective hi hj h, fun h => by rw [h]⟩

theorem ne_of_keep (hi : keep ix = true) (hj : keep jx = false) : ix ≠ jx := by
  rintro rfl
  rw [hi] at hj
  cases hj

end Rank

namespace IOWorkerMgr

/-- `m'` is `m` without the workers that are not in `keep`.  `ended` says that the server has called
`finalize`. -/
structure Alike (keep : Nat → Bool) (ended : Bool) (m m' : IOWorkerMgr) : Prop where
  nextIx : m'.nextIx = rank keep m.nextIx
  roles : ∀ ix, keep ix = true → m'.roles.find? (rank keep ix) = m.roles.find? ix
  unread : ∀ ix, keep ix = true → m'.unread (rank keep ix) = m.unread ix
  workers : ∀ ix, keep ix = true → ∀ q ∈ m.workers.find? ix, m'.workers.find? (rank keep ix) = some q
  known : m'.exitFlag = false → ∀ jx, m'.Registered jx →
    ∃ ix, keep ix = true ∧ rank keep ix = jx ∧ m.Registered ix
  toErase : m'.exitFlag = false → ∀ ix, keep ix = true → (rank keep ix ∈ m'.toErase ↔ ix ∈ m.toErase)
  semaphore : m'.exitFlag = false → m'.clearThreadsSemaphore ≤ m.clearThreadsSemaphore
  waiting : m'.toErase.length ≤ m'.clearThreadsSemaphore
  finishFlag : m'.finishFlag = m.finishFlag
  ended : m.finishFlag = true → ended = true
  exitFlag : m.exitFlag = true → m'.exitFlag = true
  exiting : m'.exitFlag = true → m.finishFlag = true
  alive : m.finishFlag = true → m'.exitFlag = false → ∃ ix, keep ix = true ∧ m.Registered ix
  sent : m'.sent = (m.sent.filter fun p => keep p.1).map fun p => (rank keep p.1, p.2)

section Operations

variable {keep : Nat → Bool} {ended : Bool} {m m' m₁ : IOWorkerMgr} {ix : Nat}

theorem Alike.getRole (h : Alike keep ended m m') (hk : keep ix = true) :
    m'.getRole (rank keep ix) = m.getRole ix := by
  rw [IOWorkerMgr.getRole, IOWorkerMgr.getRole, h.roles ix hk]

theorem Alike.setRole (h : Alike keep ended m m') (hk : keep ix = true) (role : WorkerStatus) :
    Lockstep (Alike keep ended) (m.setRole ix role) (m'.setRole (rank keep ix) role) := by
  intro m₁ h₁
  obtain ⟨hsome, rfl⟩ := setRole_eq_ok.mp h₁
  refine ⟨m'.withRole (rank keep ix) role, setRole_eq_ok.mpr ⟨by rwa [h.roles ix hk], rfl⟩, ?_⟩
  refine { h with roles := fun jx hj => ?_ }
  simp only [withRole, UnorderedMap.find?_insert, rank_inj hj hk, h.roles jx hj]

theorem Alike.setRole_left (h : Alike keep ended m m') (hk : keep ix = false) {role : WorkerStatus}
    (h₁ : m.setRole ix role = .ok m₁) : Alike keep ended m₁ m' := by
  obtain ⟨-, rfl⟩ := setRole_eq_ok.mp h₁
  refine { h with roles := fun jx hj => ?_ }
  rw [withRole, UnorderedMap.find?_insert, if_neg (ne_of_keep hj hk)]
  exact h.roles jx hj

theorem Alike.signal (h : Alike keep ended m m') (hk : keep ix = true) :
    Alike keep ended (m.signal ix) (m'.signal (rank keep ix)) := by
  refine { h with unread := fun jx hj => ?_ }
  simp only [unread_signal, rank_inj hj hk, h.unread jx hj, h.unread ix hk]

theorem Alike.signal_left (h : Alike keep ended m m') (hk : keep ix = false) :
    Alike keep ended (m.signal ix) m' := by
  refine { h with unread := fun jx hj => ?_ }
  rw [unread_signal, if_neg (ne_of_keep hj hk), h.unread jx hj]

/-- Workers stay registered when one of them gets another job queue. -/
theorem Registered.insert {jx : Nat} (h : m.Registered jx) (ix : Nat) (q : JobQueue) :
    ({ m with workers := m.workers.insert ix q }).Registered jx := by
  rw [Registered, UnorderedMap.find?_insert]
  split
  · rfl
  · exact h

/-- A kept worker gets another job queue. -/
theorem Alike.setQueue (h : Alike keep ended m m') (hk : keep ix = true) {q : JobQueue}
    (hq : m.workers.find? ix = some q) (q' : JobQueue) :
    Alike keep ended { m with workers := m.workers.insert ix q' }
      { m' with workers := m'.workers.insert (rank keep ix) q' } := by
  refine { h with
    workers := fun jx hj q₁ hq₁ => ?_
    known := fun hexit jx hjx => ?_
    alive := fun hfin hexit => ?_ }
  · simp only [UnorderedMap.find?_insert, rank_inj hj hk] at hq₁ ⊢
    by_cases heq : jx = ix
    · rwa [if_pos heq] at hq₁ ⊢
    · rw [if_neg heq] at hq₁ ⊢
      exact h.workers jx hj q₁ hq₁
  · by_cases heq : jx = rank keep ix
    · exact ⟨ix, hk, heq.symm, Registered.insert (by rw [Registered, hq]; rfl) ix q'⟩
    · rw [Registered, UnorderedMap.find?_insert, if_neg heq] at hjx
      obtain ⟨kx, hkx, hrank, hkreg⟩ := h.known hexit jx hjx
      exact ⟨kx, hkx, hrank, hkreg.insert ix q'⟩
  · obtain ⟨kx, hkx, hkreg⟩ := h.alive hfin hexit
    exact ⟨kx, hkx, hkreg.insert ix q'⟩

/-- Another worker gets another job queue. -/
theorem Alike.setQueue_left (h : Alike keep ended m m') (hk : keep ix = false) (q' : JobQueue) :
    Alike keep ended { m with workers := m.workers.insert ix q' } m' := by
  refine { h with
    workers := fun jx hj q₁ hq₁ => ?_
    known := fun hexit jx hjx => ?_
    alive := fun hfin hexit => ?_ }
  · rw [UnorderedMap.find?_insert, if_neg (ne_of_keep hj hk)] at hq₁
    exact h.workers jx hj q₁ hq₁
  · obtain ⟨kx, hkx, hrank, hkreg⟩ := h.known hexit jx hjx
    exact ⟨kx, hkx, hrank, hkreg.insert ix q'⟩
  · obtain ⟨kx, hkx, hkreg⟩ := h.alive hfin hexit
    exact ⟨kx, hkx, hkreg.insert ix q'⟩

theorem Alike.sendKill (h : Alike keep ended m m') (hk : keep ix = true) :
    Lockstep (Alike keep ended) (m.sendKill ix) (m'.sendKill (rank keep ix)) := by
  intro m₁ h₁
  simp only [IOWorkerMgr.sendKill, bind_eq_ok, require_eq_ok, pure_eq_ok_iff] at h₁
  obtain ⟨q, hq, rfl⟩ := h₁
  refine ⟨_, ?_, (h.setQueue hk hq q.setKillOrder).signal hk⟩
  simp [IOWorkerMgr.sendKill, h.workers ix hk q hq, pure_eq]

theorem Alike.sendKill_left (h : Alike keep ended m m') (hk : keep ix = false)
    (h₁ : m.sendKill ix = .ok m₁) : Alike keep ended m₁ m' := by
  simp only [IOWorkerMgr.sendKill, bind_eq_ok, require_eq_ok, pure_eq_ok_iff] at h₁
  obtain ⟨q, hq, rfl⟩ := h₁
  exact (h.setQueue_left hk q.setKillOrder).signal_left hk

theorem Alike.sendJob (h : Alike keep ended m m') {addressee : Option Nat}
    (hk : ∀ jx ∈ addressee, keep jx = true) (job : SendJob) :
    Lockstep (Alike keep ended) (m.sendJob job addressee)
      (m'.sendJob job (addressee.map (rank keep))) := by
  intro m₁ h₁
  simp only [IOWorkerMgr.sendJob, bind_eq_ok, require_eq_ok, pure_eq_ok_iff] at h₁
  obtain ⟨ix, hix, q, hq, rfl⟩ := h₁
  have hkeep : keep ix = true := hk ix hix
  have hmail : Alike keep ended { m with
      workers := m.workers.insert ix (q.pushNextJob job)
      sent := m.sent ++ [(ix, job)] } { m' with
      workers := m'.workers.insert (rank keep ix) (q.pushNextJob job)
      sent := m'.sent ++ [(rank keep ix, job)] } := by
    refine { h.setQueue hkeep hq (q.pushNextJob job) with sent := ?_ }
    rw [h.sent, List.filter_append, List.map_append]
    simp [hkeep]
  refine ⟨_, ?_, hmail.signal hkeep⟩
  simp [IOWorkerMgr.sendJob, hix, h.workers ix hkeep q hq, pure_eq]

theorem Alike.sendJob_left (h : Alike keep ended m m') (hk : keep ix = false) {job : SendJob}
    (h₁ : m.sendJob job (some ix) = .ok m₁) : Alike keep ended m₁ m' := by
  simp only [IOWorkerMgr.sendJob, bind_eq_ok, require_eq_ok, pure_eq_ok_iff, Option.some.injEq] at h₁
  obtain ⟨_, rfl, q, hq, rfl⟩ := h₁
  refine Alike.signal_left ?_ hk
  refine { h.setQueue_left hk (q.pushNextJob job) with sent := ?_ }
  rw [h.sent, List.filter_append]
  simp [hk]

theorem Alike.eraseWorker (h : Alike keep ended m m') (hk : keep ix = true) :
    Alike keep ended (m.eraseWorker ix) (m'.eraseWorker (rank keep ix)) := by
  -- once the cleaner of `m'` is through, the two lists may differ
  have hrest : ∀ (n : IOWorkerMgr) (ix : Nat), n.eraseWorker ix = { n with
      toErase := (n.eraseWorker ix).toErase
      clearThreadsSemaphore := (n.eraseWorker ix).clearThreadsSemaphore } := by
    intro n ix
    unfold IOWorkerMgr.eraseWorker
    split <;> rfl
  rw [hrest m ix, hrest m' (rank keep ix)]
  refine { h with
    toErase := fun hexit jx hj => ?_
    semaphore := fun hexit => ?_
    waiting := ?_ }
  · rw [mem_eraseWorker, mem_eraseWorker, h.toErase hexit jx hj, rank_inj hj hk]
  · have hsem := h.semaphore hexit
    have hmem := h.toErase hexit ix hk
    unfold IOWorkerMgr.eraseWorker
    by_cases hix : ix ∈ m.toErase
    · rwa [if_pos hix, if_pos (hmem.mpr hix)]
    · rw [if_neg hix, if_neg (mt hmem.mp hix)]
      exact Nat.succ_le_succ hsem
  · have hwaiting := h.waiting
    unfold IOWorkerMgr.eraseWorker
    split
    · exact hwaiting
    · simpa using hwaiting

theorem Alike.eraseWorker_left (h : Alike keep ended m m') (hk : keep ix = false) :
    Alike keep ended (m.eraseWorker ix) m' := by
  unfold IOWorkerMgr.eraseWorker
  split
  · exact h
  · refine { h with
      toErase := fun hexit jx hj => ?_
      semaphore := fun hexit => (h.semaphore hexit).trans (Nat.le_succ _) }
    rw [h.toErase hexit jx hj, List.mem_append, List.mem_singleton]
    exact ⟨.inl, fun hor => hor.resolve_right (ne_of_keep hj hk)⟩

theorem Alike.handlePipe (h : Alike keep ended m m') (hk : keep ix = true) :
    Alike keep ended (m.handlePipe ix) (m'.handlePipe (rank keep ix)) := by
  refine { h with unread := fun jx hj => ?_ }
  have hread := h.unread jx hj
  simp only [IOWorkerMgr.unread, IOWorkerMgr.handlePipe, UnorderedMap.find?_insert, rank_inj hj hk] at hread ⊢
  split
  · rfl
  · exact hread

theorem Alike.handlePipe_left (h : Alike keep ended m m') (hk : keep ix = false) :
    Alike keep ended (m.handlePipe ix) m' := by
  refine { h with unread := fun jx hj => ?_ }
  rw [h.unread jx hj, IOWorkerMgr.unread, IOWorkerMgr.unread, IOWorkerMgr.handlePipe,
    UnorderedMap.find?_insert, if_neg (ne_of_keep hj hk)]

theorem Alike.popNextJob (h : Alike keep ended m m') (hk : keep ix = true) :
    Lockstep (Alike keep ended) (m.popNextJob ix) (m'.popNextJob (rank keep ix)) := by
  intro m₁ h₁
  simp only [IOWorkerMgr.popNextJob, bind_eq_ok, require_eq_ok, pure_eq_ok_iff] at h₁
  obtain ⟨q, hq, ⟨job, q'⟩, hpop, rfl⟩ := h₁
  refine ⟨_, ?_, h.setQueue hk hq q'⟩
  simp [IOWorkerMgr.popNextJob, h.workers ix hk q hq, hpop, pure_eq]

theorem Alike.popNextJob_left (h : Alike keep ended m m') (hk : keep ix = false)
    (h₁ : m.popNextJob ix = .ok m₁) : Alike keep ended m₁ m' := by
  simp only [IOWorkerMgr.popNextJob, bind_eq_ok, require_eq_ok, pure_eq_ok_iff] at h₁
  obtain ⟨q, -, ⟨job, q'⟩, -, rfl⟩ := h₁
  exact h.setQueue_left hk q'

theorem Alike.spawnNewWorker (h : Alike keep ended m m') (hk : keep m.nextIx = true)
    (role : WorkerStatus) :
    Alike keep ended (m.spawnNewWorker role) (m'.spawnNewWorker role) := by
  have hreg : ∀ jx, m.Registered jx → (m.spawnNewWorker role).Registered jx := fun jx hjx =>
    Registered.insert hjx m.nextIx .empty
  refine { h with
    nextIx := ?_
    roles := fun jx hj => ?_
    unread := fun jx hj => ?_
    workers := fun jx hj q hq => ?_
    known := fun hexit jx hjx => ?_
    alive := fun hfin hexit => ?_ }
  · show m'.nextIx + 1 = rank keep (m.nextIx + 1)
    rw [rank_succ hk, h.nextIx]
  · simp only [IOWorkerMgr.spawnNewWorker, UnorderedMap.find?_insert, h.nextIx, rank_inj hj hk,
      h.roles jx hj]
  · have hread := h.unread jx hj
    simp only [IOWorkerMgr.unread, IOWorkerMgr.spawnNewWorker, UnorderedMap.find?_insert, h.nextIx,
      rank_inj hj hk] at hread ⊢
    split
    · rfl
    · exact hread
  · simp only [IOWorkerMgr.spawnNewWorker, UnorderedMap.find?_insert, h.nextIx, rank_inj hj hk] at hq ⊢
    by_cases heq : jx = m.nextIx
    · rwa [if_pos heq] at hq ⊢
    · rw [if_neg heq] at hq ⊢
      exact h.workers jx hj q hq
  · -- a worker of the second run is the new one, or one whose original is known
    by_cases heq : jx = m'.nextIx
    · refine ⟨m.nextIx, hk, by rw [heq, h.nextIx], ?_⟩
      simp [Registered, IOWorkerMgr.spawnNewWorker]
    · have hjx' : m'.Registered jx := by
        simpa [Registered, IOWorkerMgr.spawnNewWorker, heq] using hjx
      obtain ⟨kx, hkx, hrank, hkreg⟩ := h.known hexit jx hjx'
      exact ⟨kx, hkx, hrank, hreg kx hkreg⟩
  · obtain ⟨kx, hkx, hkreg⟩ := h.alive hfin hexit
    exact ⟨kx, hkx, hreg kx hkreg⟩

theorem Alike.spawnNewWorker_left (h : Alike keep ended m m') (hk : keep m.nextIx = false)
    (role : WorkerStatus) : Alike keep ended (m.spawnNewWorker role) m' := by
  have hqueue := h.setQueue_left hk .empty
  refine { hqueue with
    nextIx := ?_
    roles := fun jx hj => ?_
    unread := fun jx hj => ?_ }
  · show m'.nextIx = rank keep (m.nextIx + 1)
    rw [rank_succ_of_not hk, h.nextIx]
  · rw [IOWorkerMgr.spawnNewWorker, UnorderedMap.find?_insert, if_neg (ne_of_keep hj hk)]
    exact h.roles jx hj
  · rw [h.unread jx hj, IOWorkerMgr.unread, IOWorkerMgr.unread, IOWorkerMgr.spawnNewWorker,
      UnorderedMap.find?_insert, if_neg (ne_of_keep hj hk)]

/-- The loop of `signalRole`. -/
theorem foldl_signal_eq (role : WorkerStatus) (l : List (Nat × WorkerStatus)) (m : IOWorkerMgr)
    (hnodup : (l.map Prod.fst).Nodup) :
    ∃ pipes, l.foldl (fun m it => if it.2 = role then m.signal it.1 else m) m = { m with pipes := pipes } ∧
      ∀ ix, (l.foldl (fun m it => if it.2 = role then m.signal it.1 else m) m).unread ix =
        m.unread ix + if (ix, role) ∈ l then 1 else 0 := by
  induction l generalizing m with
  | nil => exact ⟨m.pipes, rfl, by simp⟩
  | cons it rest ih =>
      obtain ⟨hfresh, hrest⟩ := List.nodup_cons.mp hnodup
      obtain ⟨jx, role'⟩ := it
      -- no worker has two roles, so it gets one byte
      have hnot : ∀ r, (jx, r) ∉ rest := fun r hr => hfresh (List.mem_map.mpr ⟨_, hr, rfl⟩)
      rw [List.foldl_cons]
      by_cases h : role' = role
      · subst h
        obtain ⟨pipes, heq, hunread⟩ := ih (m.signal jx) hrest
        rw [if_pos rfl]
        refine ⟨pipes, heq, fun ix => ?_⟩
        rw [hunread, unread_signal]
        by_cases hix : ix = jx
        · subst hix
          simp [hnot]
        · simp [hix]
      · obtain ⟨pipes, heq, hunread⟩ := ih m hrest
        rw [if_neg h]
        refine ⟨pipes, heq, fun ix => ?_⟩
        rw [hunread]
        simp [Ne.symm h]

/-- `signalRole` writes one byte for each worker with the role. -/
theorem signalRole_eq (m : IOWorkerMgr) (role : WorkerStatus) :
    ∃ pipes, m.signalRole role = { m with pipes := pipes } ∧ ∀ ix,
      (m.signalRole role).unread ix = m.unread ix + if m.roles.find? ix = some role then 1 else 0 := by
  obtain ⟨pipes, heq, hunread⟩ := foldl_signal_eq role m.roles.entries m m.roles.nodup
  refine ⟨pipes, heq, fun ix => ?_⟩
  rw [signalRole, hunread]
  simp only [UnorderedMap.mem_entries_iff]

theorem Alike.signalRole (h : Alike keep ended m m') (role : WorkerStatus) :
    Alike keep ended (m.signalRole role) (m'.signalRole role) := by
  obtain ⟨pipes, heq, hunread⟩ := signalRole_eq m role
  obtain ⟨pipes', heq', hunread'⟩ := signalRole_eq m' role
  have hbytes : ∀ ix, keep ix = true →
      (m'.signalRole role).unread (rank keep ix) = (m.signalRole role).unread ix := by
    intro ix hk
    rw [hunread, hunread', h.unread ix hk, h.roles ix hk]
  rw [heq, heq'] at hbytes ⊢
  exact { h with unread := hbytes }

/-- The loop of `finish`. -/
theorem foldlM_finishOne_eq (l : List Nat) (hnodup : l.Nodup) (h : l.foldlM finishOne m = .ok m₁) :
    ∃ workers pipes, m₁ = { m with workers := workers, pipes := pipes } ∧ ∀ ix,
      (m₁.workers.find? ix = if ix ∈ l ∧ ix ∉ m.toErase then
        (m.workers.find? ix).map JobQueue.setKillOrder else m.workers.find? ix) ∧
      m₁.unread ix = m.unread ix + if ix ∈ l ∧ ix ∉ m.toErase then 1 else 0 := by
  induction l generalizing m m₁ with
  | nil =>
      obtain rfl : m = m₁ := by simpa using h
      exact ⟨m.workers, m.pipes, rfl, by simp⟩
  | cons jx rest ih =>
      obtain ⟨hfresh, hrest⟩ := List.nodup_cons.mp hnodup
      rw [List.foldlM_cons, bind_eq_ok] at h
      obtain ⟨m₂, h₂, h⟩ := h
      unfold finishOne at h₂
      by_cases hgone : jx ∈ m.toErase
      · -- the cleaner has it already
        rw [if_pos hgone] at h₂
        cases h₂
        obtain ⟨workers, pipes, heq, hspec⟩ := ih hrest h
        refine ⟨workers, pipes, heq, fun ix => ?_⟩
        have hix : (ix ∈ jx :: rest ∧ ix ∉ m.toErase) ↔ ix ∈ rest ∧ ix ∉ m.toErase := by
          constructor
          · rintro ⟨hmem, hnot⟩
            rcases List.mem_cons.mp hmem with rfl | hmem
            · exact absurd hgone hnot
            · exact ⟨hmem, hnot⟩
          · exact fun hmem => ⟨List.mem_cons_of_mem _ hmem.1, hmem.2⟩
        simp only [hix]
        exact hspec ix
      · rw [if_neg hgone] at h₂
        simp only [IOWorkerMgr.sendKill, bind_eq_ok, require_eq_ok, pure_eq_ok_iff] at h₂
        obtain ⟨q, hq, rfl⟩ := h₂
        obtain ⟨workers, pipes, heq, hspec⟩ := ih hrest h
        refine ⟨workers, pipes, heq, fun ix => ?_⟩
        obtain ⟨hworkers, hunread⟩ := hspec ix
        rw [hworkers, hunread, unread_signal]
        by_cases hix : ix = jx
        · subst hix
          simp [signal, hfresh, hgone, hq, IOWorkerMgr.unread]
        · simp only [signal, hix, IOWorkerMgr.unread, List.mem_cons, false_or,
            UnorderedMap.find?_insert, if_false, true_and]
          exact congrArg _ (if_congr Iff.rfl rfl rfl)

/-- `finish` gives every worker that is not waiting to be erased its kill order and a byte. -/
theorem finish_eq (h : m.finish = .ok m₁) :
    ∃ workers pipes, m₁ = { m with workers := workers, pipes := pipes } ∧ ∀ ix,
      (m₁.workers.find? ix = if ix ∈ m.toErase then m.workers.find? ix
        else (m.workers.find? ix).map JobQueue.setKillOrder) ∧
      m₁.unread ix = m.unread ix +
        if (m.workers.find? ix).isSome ∧ ix ∉ m.toErase then 1 else 0 := by
  obtain ⟨workers, pipes, heq, hspec⟩ := foldlM_finishOne_eq m.workers.keys m.workers.keys_nodup h
  refine ⟨workers, pipes, heq, fun ix => ?_⟩
  obtain ⟨hworkers, hunread⟩ := hspec ix
  rw [hworkers, hunread]
  simp only [← UnorderedMap.find?_isSome_iff]
  refine ⟨?_, trivial⟩
  by_cases hgone : ix ∈ m.toErase
  · simp [hgone]
  · cases hq : m.workers.find? ix with
    | none => simp [hgone]
    | some q => simp [hgone]

/-- As long as the cleaner of `m'` is not through, both have the same kept workers. -/
theorem Alike.find?_eq (h : Alike keep ended m m') (hopen : m'.exitFlag = false) (hk : keep ix = true) :
    m'.workers.find? (rank keep ix) = m.workers.find? ix := by
  cases hq : m.workers.find? ix with
  | some q => exact h.workers ix hk q hq
  | none =>
      rw [Option.eq_none_iff_forall_ne_some]
      intro q hq'
      obtain ⟨jx, hj, hrank, hreg⟩ := h.known hopen (rank keep ix) (by rw [Registered, hq']; rfl)
      obtain rfl := (rank_inj hj hk).mp hrank
      rw [Registered, hq] at hreg
      cases hreg

/-- The server ends: every worker that is left gets its kill order, in both. -/
theorem Alike.finish (h : Alike keep false m m')
    (halive : ∃ ix, keep ix = true ∧ m.Registered ix) :
    Lockstep (Alike keep true) m.releaseCleaner.finish m'.releaseCleaner.finish := by
  intro m₁ h₁
  have hfin : m.finishFlag = false := by
    cases hfin : m.finishFlag with
    | false => rfl
    | true => exact absurd (h.ended hfin) (by simp)
  have hopen : m'.exitFlag = false := by
    cases hexit : m'.exitFlag with
    | false => rfl
    | true =>
        have hended := h.exiting hexit
        rw [hfin] at hended
        cases hended
  -- `finish` answers in both, and says of every index what becomes of its queue and its pipe
  obtain ⟨m₂, h₂⟩ := finish_ok m'.releaseCleaner
  obtain ⟨workers, pipes, heq, hspec⟩ := finish_eq h₁
  obtain ⟨workers', pipes', heq', hspec'⟩ := finish_eq h₂
  refine ⟨m₂, h₂, ?_⟩
  have hfind : ∀ ix, m₁.Registered ix ↔ m.Registered ix := by
    intro ix
    rw [Registered, (hspec ix).1, Registered]
    split <;> simp [releaseCleaner]
  have hfind' : ∀ ix, m₂.Registered ix ↔ m'.Registered ix := by
    intro ix
    rw [Registered, (hspec' ix).1, Registered]
    split <;> simp [releaseCleaner]
  -- before the end the kept queues are the same, and so they are with the order in them
  have hexact : ∀ ix, keep ix = true → m'.workers.find? (rank keep ix) = m.workers.find? ix :=
    fun ix hk => h.find?_eq hopen hk
  have hworkers : ∀ ix, keep ix = true → m₂.workers.find? (rank keep ix) = m₁.workers.find? ix := by
    intro ix hk
    rw [(hspec ix).1, (hspec' _).1]
    exact if_congr (h.toErase hopen ix hk) (hexact ix hk) (congrArg _ (hexact ix hk))
  have hunread : ∀ ix, keep ix = true → m₂.unread (rank keep ix) = m₁.unread ix := by
    intro ix hk
    have hread : m'.releaseCleaner.unread (rank keep ix) = m.releaseCleaner.unread ix := h.unread ix hk
    -- a byte is written to those that are registered and not handed over, the same in both
    have hleft : ((m'.workers.find? (rank keep ix)).isSome ∧ rank keep ix ∉ m'.toErase) ↔
        ((m.workers.find? ix).isSome ∧ ix ∉ m.toErase) := by
      rw [hexact ix hk, h.toErase hopen ix hk]
    rw [(hspec ix).2, (hspec' _).2, hread]
    exact congrArg _ (if_congr hleft rfl rfl)
  subst heq heq'
  exact {
    nextIx := h.nextIx
    roles := h.roles
    unread := hunread
    workers := fun ix hk q hq => (hworkers ix hk).trans hq
    known := fun _ jx hjx => by
      obtain ⟨kx, hkx, hrank, hreg⟩ := h.known hopen jx ((hfind' jx).mp hjx)
      exact ⟨kx, hkx, hrank, (hfind kx).mpr hreg⟩
    toErase := h.toErase
    semaphore := h.semaphore
    waiting := h.waiting
    finishFlag := rfl
    ended := fun _ => rfl
    exitFlag := h.exitFlag
    exiting := fun _ => rfl
    alive := fun _ _ => by
      obtain ⟨ix, hk, hreg⟩ := halive
      exact ⟨ix, hk, (hfind ix).mpr hreg⟩
    sent := h.sent }

theorem waitForClearing_eq (hexit : m.exitFlag = false) (hsem : m.clearThreadsSemaphore ≠ 0) :
    ∃ workers, m.waitForClearing = { m with
        clearThreadsSemaphore := m.clearThreadsSemaphore - 1
        workers := workers
        toErase := []
        exitFlag := m.finishFlag && workers.entries.isEmpty } ∧
      ∀ ix, workers.find? ix = if ix ∈ m.toErase then none else m.workers.find? ix := by
  refine ⟨m.toErase.reverse.foldl UnorderedMap.erase m.workers, ?_, fun ix => ?_⟩
  · unfold IOWorkerMgr.waitForClearing
    rw [if_neg (by simp [hexit, hsem])]
  · rw [UnorderedMap.find?_foldl_erase]
    simp only [List.mem_reverse]

/-- The cleaner stays while a worker is registered. -/
theorem isEmpty_eq_false {workers : UnorderedMap Nat JobQueue} :
    workers.entries.isEmpty = false ↔ ∃ ix, (workers.find? ix).isSome := by
  simp only [UnorderedMap.find?_isSome_iff, UnorderedMap.keys]
  cases workers.entries with
  | nil => simp
  | cons p rest => simp

/-- The cleaner, whose batch in `m'` lacks the workers that are left out. -/
theorem Alike.waitForClearing (h : Alike keep ended m m') :
    Alike keep ended m.waitForClearing m'.waitForClearing := by
  cases hexit' : m'.exitFlag with
  | true =>
      -- the cleaner of `m'` is through
      have hidle : m'.waitForClearing = m' := by simp [IOWorkerMgr.waitForClearing, hexit']
      rw [hidle]
      by_cases hgo : m.exitFlag = true ∨ m.clearThreadsSemaphore = 0
      · have hidle : m.waitForClearing = m := by simp [IOWorkerMgr.waitForClearing, hgo]
        rwa [hidle]
      · rw [not_or, Bool.not_eq_true] at hgo
        obtain ⟨workers, heq, hfind⟩ := waitForClearing_eq hgo.1 hgo.2
        rw [heq]
        refine { h with
          workers := fun ix hk q hq => ?_
          known := fun hopen => absurd (hexit'.symm.trans hopen) (by simp)
          toErase := fun hopen => absurd (hexit'.symm.trans hopen) (by simp)
          semaphore := fun hopen => absurd (hexit'.symm.trans hopen) (by simp)
          exitFlag := fun _ => hexit'
          alive := fun _ hopen => absurd (hexit'.symm.trans hopen) (by simp) }
        have hq' : workers.find? ix = some q := hq
        rw [hfind] at hq'
        split at hq'
        · cases hq'
        · exact h.workers ix hk q hq'
  | false =>
      have hexit : m.exitFlag = false := by
        cases hexit : m.exitFlag with
        | false => rfl
        | true => exact absurd (hexit'.symm.trans (h.exitFlag hexit)) (by simp)
      have hle := h.semaphore hexit'
      by_cases hsem : m.clearThreadsSemaphore = 0
      · have hsem' : m'.clearThreadsSemaphore = 0 := by omega
        have hidle : m.waitForClearing = m := by simp [IOWorkerMgr.waitForClearing, hsem]
        have hidle' : m'.waitForClearing = m' := by simp [IOWorkerMgr.waitForClearing, hsem']
        rwa [hidle, hidle']
      obtain ⟨workers, heq, hfind⟩ := waitForClearing_eq hexit hsem
      by_cases hsem' : m'.clearThreadsSemaphore = 0
      · -- nobody who is kept waits for the cleaner
        have hidle : m'.waitForClearing = m' := by simp [IOWorkerMgr.waitForClearing, hsem']
        have hnone : m'.toErase = [] := by
          have hwaiting := h.waiting
          rw [hsem'] at hwaiting
          exact List.length_eq_zero_iff.mp (by omega)
        have hstay : ∀ ix, keep ix = true → workers.find? ix = m.workers.find? ix := by
          intro ix hk
          rw [hfind, if_neg]
          rw [← h.toErase hexit' ix hk, hnone]
          exact List.not_mem_nil
        have halive : m.finishFlag = true → ∃ ix, keep ix = true ∧ (workers.find? ix).isSome := by
          intro hfin
          obtain ⟨ix, hk, hreg⟩ := h.alive hfin hexit'
          refine ⟨ix, hk, ?_⟩
          rw [hstay ix hk]
          exact hreg
        rw [hidle, heq]
        refine { h with
          workers := fun ix hk q hq => h.workers ix hk q ((hstay ix hk).symm.trans hq)
          known := fun hopen jx hjx => ?_
          toErase := fun _ ix _ => by simp [hnone]
          semaphore := fun _ => by simp [hsem']
          exitFlag := fun hdone => ?_
          alive := fun hfin _ => halive hfin }
        · obtain ⟨ix, hk, hrank, hreg⟩ := h.known hopen jx hjx
          refine ⟨ix, hk, hrank, ?_⟩
          rw [Registered, hstay ix hk]
          exact hreg
        · obtain ⟨hfin, hempty⟩ := Bool.and_eq_true_iff.mp hdone
          obtain ⟨ix, -, hreg⟩ := halive hfin
          rw [isEmpty_eq_false.mpr ⟨ix, hreg⟩] at hempty
          cases hempty
      · obtain ⟨workers', heq', hfind'⟩ := waitForClearing_eq hexit' hsem'
        have hknown : ∀ jx, (workers'.find? jx).isSome →
            ∃ ix, keep ix = true ∧ rank keep ix = jx ∧ (workers.find? ix).isSome := by
          intro jx hjx
          rw [hfind'] at hjx
          split at hjx
          case isTrue => cases hjx
          case isFalse hnot =>
            obtain ⟨ix, hk, rfl, hreg⟩ := h.known hexit' jx hjx
            rw [h.toErase hexit' ix hk] at hnot
            refine ⟨ix, hk, rfl, ?_⟩
            rw [hfind, if_neg hnot]
            exact hreg
        rw [heq, heq']
        refine { h with
          workers := fun ix hk q hq => ?_
          known := fun _ jx hjx => hknown jx hjx
          toErase := fun _ ix _ => by simp
          semaphore := fun _ => Nat.sub_le_sub_right hle 1
          waiting := by simp
          exitFlag := fun hdone => ?_
          exiting := fun hdone => ?_
          alive := fun hfin hopen => ?_ }
        · have hq' : workers.find? ix = some q := hq
          rw [hfind] at hq'
          show workers'.find? (rank keep ix) = some q
          rw [hfind']
          simp only [h.toErase hexit' ix hk]
          split at hq'
          · cases hq'
          · rename_i hnot
            rw [if_neg hnot]
            exact h.workers ix hk q hq'
        · obtain ⟨hfin, hempty⟩ := Bool.and_eq_true_iff.mp hdone
          rw [Bool.and_eq_true_iff, h.finishFlag]
          refine ⟨hfin, ?_⟩
          cases hempty' : workers'.entries.isEmpty with
          | true => rfl
          | false =>
              obtain ⟨jx, hjx⟩ := isEmpty_eq_false.mp hempty'
              obtain ⟨ix, -, -, hreg⟩ := hknown jx hjx
              rw [isEmpty_eq_false.mpr ⟨ix, hreg⟩] at hempty
              cases hempty
        · rw [← h.finishFlag]
          exact (Bool.and_eq_true_iff.mp hdone).1
        · have hfin' : m'.finishFlag = true := h.finishFlag.trans hfin
          have hsome : workers'.entries.isEmpty = false := by simpa [hfin'] using hopen
          obtain ⟨jx, hjx⟩ := isEmpty_eq_false.mp hsome
          obtain ⟨ix, hk, -, hreg⟩ := hknown jx hjx
          exact ⟨ix, hk, hreg⟩

end Operations

end IOWorkerMgr

end Kierki
