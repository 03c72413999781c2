import Kierki.Server.Effect

/-!
# What no call takes back

Indices are never reused, unread bytes are read only by the worker they belong to, a kill order stays
until its worker is collected, and the only way to the list of the cleaner is the worker's own exit.
-/

namespace Kierki

namespace IOWorkerMgr

/-- Worker `ix` is registered and has its kill order. -/
def Ordered (m : IOWorkerMgr) (ix : Nat) : Prop :=
  ∃ q, m.workers.find? ix = some q ∧ q.killFlag = true

theorem ordered_iff {m : IOWorkerMgr} {ix : Nat} :
    m.Ordered ix ↔ m.Registered ix ∧ m.Killed ix := by
  unfold Ordered Registered Killed
  cases h : m.workers.find? ix with
  | none => simp
  | some q => simp

/-- Every worker that was ever spawned has a role. -/
def Staffed (m : IOWorkerMgr) : Prop := ∀ ix, ix < m.nextIx → (m.roles.find? ix).isSome

/-- What `m'` keeps of `m`, apart from the pipe of the worker `reader` and the workers in `gone`. -/
structure Keeps (m m' : IOWorkerMgr) (reader : Option Nat) (gone : List Nat) : Prop where
  nextIx : m.nextIx ≤ m'.nextIx
  unread : ∀ ix, ix < m.nextIx → reader ≠ some ix → m.unread ix ≤ m'.unread ix
  ordered : ∀ ix, ix < m.nextIx → ix ∉ gone → m.Ordered ix → m'.Ordered ix
  staffed : m.Staffed → m'.Staffed

theorem Keeps.refl (m : IOWorkerMgr) (reader : Option Nat) (gone : List Nat) : Keeps m m reader gone :=
  ⟨le_refl _, fun _ _ _ => le_refl _, fun _ _ _ h => h, id⟩

theorem Staffed.withRole {m : IOWorkerMgr} (h : m.Staffed) (ix : Nat) (role : WorkerStatus) :
    (m.withRole ix role).Staffed := by
  intro jx hjx
  have hold := h jx hjx
  by_cases hne : jx = ix <;> simp [IOWorkerMgr.withRole, hne, hold]

theorem Keeps.of_withRole {m m' : IOWorkerMgr} {ix : Nat} {role : WorkerStatus}
    {reader : Option Nat} {gone : List Nat} (h : Keeps (m.withRole ix role) m' reader gone) :
    Keeps m m' reader gone :=
  ⟨h.nextIx, h.unread, h.ordered, fun hs => h.staffed (hs.withRole ix role)⟩

theorem Keeps.trans {m₁ m₂ m₃ : IOWorkerMgr} {reader : Option Nat} {gone : List Nat} (h₁ : Keeps m₁ m₂ reader gone)
    (h₂ : Keeps m₂ m₃ reader gone) :
    Keeps m₁ m₃ reader gone where
  nextIx := h₁.nextIx.trans h₂.nextIx
  unread := fun ix hix hne =>
    (h₁.unread ix hix hne).trans (h₂.unread ix (hix.trans_le h₁.nextIx) hne)
  ordered := fun ix hix hnot ho =>
    h₂.ordered ix (hix.trans_le h₁.nextIx) hnot (h₁.ordered ix hix hnot ho)
  staffed := h₂.staffed ∘ h₁.staffed

theorem Posted.keeps {m m' : IOWorkerMgr} {out : List (Nat × SendJob)} (h : Posted m m' out)
    (reader : Option Nat) (gone : List Nat) : Keeps m m' reader gone where
  nextIx := h.nextIx.ge
  unread := fun ix _ _ => h.unread ix
  ordered := fun ix _ _ ho => by
    rw [ordered_iff] at ho ⊢
    exact ⟨(h.registered ix).mpr ho.1, h.killed ix ho.2⟩
  staffed := by
    unfold Staffed
    rw [h.nextIx, h.roles]
    exact id

/-- Only `toErase`, the semaphore and the flags of the cleaner may differ. -/
theorem keeps_of_eq {m m' : IOWorkerMgr} (reader : Option Nat) (gone : List Nat)
    (hnext : m'.nextIx = m.nextIx) (hpipes : m'.pipes = m.pipes) (hworkers : m'.workers = m.workers)
    (hroles : m'.roles = m.roles) : Keeps m m' reader gone where
  nextIx := hnext.ge
  unread := fun ix _ _ => by rw [unread, unread, hpipes]
  ordered := fun ix _ _ ho => by rwa [Ordered, hworkers]
  staffed := by
    unfold Staffed
    rw [hnext, hroles]
    exact id

theorem keeps_spawn (m : IOWorkerMgr) (role : WorkerStatus) (reader : Option Nat) (gone : List Nat) :
    Keeps m (m.spawnNewWorker role) reader gone where
  nextIx := Nat.le_succ _
  unread := fun ix hix _ => by
    have hne : ix ≠ m.nextIx := hix.ne
    simp [unread, spawnNewWorker, hne]
  ordered := fun ix hix _ ho => by
    have hne : ix ≠ m.nextIx := hix.ne
    simpa [Ordered, spawnNewWorker, hne] using ho
  staffed := fun hs ix hix => by
    by_cases hne : ix = m.nextIx
    · simp [spawnNewWorker, hne]
    · have hold := hs ix (by simp only [spawnNewWorker] at hix; omega)
      simpa [spawnNewWorker, hne] using hold

theorem keeps_handlePipe (m : IOWorkerMgr) (ix : Nat) (gone : List Nat) :
    Keeps m (m.handlePipe ix) (some ix) gone where
  nextIx := le_refl _
  unread := fun jx _ hne => by
    have hjx : jx ≠ ix := fun h => hne (by rw [h])
    simp [unread, handlePipe, hjx]
  ordered := fun _ _ _ ho => ho
  staffed := id

theorem keeps_waitForClearing (m : IOWorkerMgr) (reader : Option Nat) :
    Keeps m m.waitForClearing reader m.toErase := by
  unfold waitForClearing
  split
  · exact Keeps.refl m reader _
  · refine ⟨le_refl _, fun ix _ _ => le_refl _, fun ix _ hne ho => ?_, id⟩
    obtain ⟨q, hq, hkill⟩ := ho
    refine ⟨q, ?_, hkill⟩
    change (m.toErase.reverse.foldl UnorderedMap.erase m.workers).find? ix = some q
    rw [UnorderedMap.find?_foldl_erase, if_neg (by simpa using hne), hq]

theorem keeps_eraseWorker (m : IOWorkerMgr) (ix : Nat) (reader : Option Nat) (gone : List Nat) :
    Keeps m (m.eraseWorker ix) reader gone := by
  unfold eraseWorker
  split
  · exact Keeps.refl m reader gone
  · exact keeps_of_eq reader gone rfl rfl rfl rfl

end IOWorkerMgr

namespace Server

open IOWorkerMgr

/-- The worker whose pipe a call reads. -/
def Call.reader : Call → Option Nat
  | .handlePipe ix => some ix
  | _ => none

/-- The workers that a call takes out of `workers`. -/
def gone (σ : Server) : Call → List Nat
  | .waitForClearing => σ.workerMgr.toErase
  | _ => []

theorem Finalized.keeps {σ σ' : Server} (h : Finalized σ σ') (reader : Option Nat) (gone : List Nat) :
    Keeps σ.workerMgr σ'.workerMgr reader gone := by
  cases h with
  | again _ => exact Keeps.refl _ reader gone
  | now _ mgr hpost _ =>
      have hkeeps := hpost.keeps reader gone
      exact ⟨hkeeps.nextIx, hkeeps.unread, hkeeps.ordered, hkeeps.staffed⟩

theorem Finalized.toErase {σ σ' : Server} (h : Finalized σ σ') :
    σ'.workerMgr.toErase = σ.workerMgr.toErase := by
  cases h with
  | again _ => rfl
  | now _ mgr hpost _ => exact hpost.toErase

theorem Accepted.keeps {σ σ' : Server} {side : Side} {card : Card} (h : Accepted σ side card σ')
    (reader : Option Nat) (gone : List Nat) : Keeps σ.workerMgr σ'.workerMgr reader gone := by
  cases h with
  | inTrick g mgr out _ _ hpost _ => exact hpost.keeps reader gone
  | trickDone g₀ g mgr out _ _ _ _ hpost _ => exact hpost.keeps reader gone
  | roundDone g₀ g₁ g r mgr out _ _ _ _ _ _ _ hpost _ => exact hpost.keeps reader gone
  | gameDone g₀ g₁ g mgr out σ' _ _ _ _ _ _ hpost _ hfin =>
      exact (hpost.keeps reader gone).trans (hfin.keeps reader gone)

theorem Accepted.toErase {σ σ' : Server} {side : Side} {card : Card} (h : Accepted σ side card σ') :
    σ'.workerMgr.toErase = σ.workerMgr.toErase := by
  cases h with
  | inTrick g mgr out _ _ hpost _ => exact hpost.toErase
  | trickDone g₀ g mgr out _ _ _ _ hpost _ => exact hpost.toErase
  | roundDone g₀ g₁ g r mgr out _ _ _ _ _ _ _ hpost _ => exact hpost.toErase
  | gameDone g₀ g₁ g mgr out σ' _ _ _ _ _ _ hpost _ hfin => exact hfin.toErase.trans hpost.toErase

theorem Accepted.exiting {σ σ' : Server} {side : Side} {card : Card} (h : Accepted σ side card σ')
    (hexit : σ.exiting = true) : σ'.exiting = true := by
  cases h with
  | gameDone g₀ g₁ g mgr out σ' _ _ _ _ _ _ _ _ hfin => exact hfin.rest.2.2
  | _ => exact hexit

/-- **Kept by every call**: indices, unread bytes, kill orders. -/
theorem Effect.keeps {σ σ' : Server} {e : Call} {b : Bool} (h : Effect σ e b σ') :
    Keeps σ.workerMgr σ'.workerMgr e.reader (σ.gone e) := by
  cases h with
  | introParked | trickParked | trickIgnored | timeoutIdle | wrongParked | exitRefused | exitDone
  | gate => exact Keeps.refl _ _ _
  -- posting and changing a role keep everything
  | introAgain side ix role mgr _ _ _ hpost _ _ => exact (hpost.keeps _ _).of_withRole
  | introBusy side ix jx mgr _ _ hpost => exact (hpost.keeps _ _).of_withRole
  | introLobby side ix _ _ _ _ => exact (keeps_of_eq _ _ rfl rfl rfl rfl : Keeps (withRole _ _ _) _ _ _).of_withRole
  | introFirstDeal side ix mgr out _ _ _ _ hpost _ => exact (hpost.keeps _ _).of_withRole
  | introRejoin side ix deal mgr out _ _ _ _ hpost _ => exact (hpost.keeps _ _).of_withRole
  | introResume side ix deal mgr out _ _ _ _ hpost _ _ => exact (hpost.keeps _ _).of_withRole
  | trickUnknown n card ix mgr _ _ hpost _ _ => exact (hpost.keeps _ _).of_withRole
  | trickProxy n card ix σ' _ _ hfin => exact (hfin.keeps _ _).of_withRole
  | trickRejected n card ix jx side mgr _ _ _ _ hpost => exact hpost.keeps _ _
  | trickAccepted n card ix side σ' _ _ _ hacc => exact hacc.keeps _ _
  | timeoutKill ix mgr _ _ hpost _ _ => exact hpost.keeps _ _
  | timeoutPrompt ix mgr _ _ _ _ hpost => exact hpost.keeps _ _
  | wrongKill ix mgr _ hpost _ _ => exact hpost.keeps _ _
  | exitInternal errs ix hasWork σ' _ hfin => exact hfin.keeps _ _
  | exitUnknown errs ix hasWork _ _ => exact (keeps_eraseWorker _ _ _ _).of_withRole
  | exitLeave errs ix hasWork s _ _ _ _ => exact (keeps_of_eq _ _ rfl rfl rfl rfl : Keeps (withRole _ _ _) _ _ _).of_withRole
  | exitLeaveErased errs ix hasWork s _ _ _ _ => exact (keeps_eraseWorker _ _ _ _).of_withRole
  | exitErased errs ix hasWork role _ _ _ _ => exact (keeps_eraseWorker _ _ _ _).of_withRole
  | exitProxy errs ix hasWork σ' _ _ hfin =>
      have herase : Keeps σ.workerMgr (σ.erased ix).workerMgr none [] :=
        (keeps_eraseWorker _ _ _ _).of_withRole
      exact herase.trans (hfin.keeps _ _)
  | connected => exact keeps_spawn _ _ _ _
  | popped ix q job rest hq _ =>
      -- a fetched job leaves its queue, and the kill order stays in it
      refine ⟨le_refl _, fun _ _ _ => le_refl _, fun jx _ _ ho => ?_, id⟩
      obtain ⟨q', hq', hkill⟩ := ho
      by_cases hjx : jx = ix
      · subst hjx
        obtain rfl : q = q' := Option.some.inj (hq.symm.trans hq')
        exact ⟨{ q with jobsPending := rest }, by simp, hkill⟩
      · exact ⟨q', by simpa [hjx] using hq', hkill⟩
  | piped ix => exact keeps_handlePipe _ _ _
  | cleared => exact keeps_waitForClearing _ _

/-- **The only way to the cleaner** is a worker's own exit, when it is allowed to go. -/
theorem Effect.toErase {σ σ' : Server} {e : Call} {b : Bool} (h : Effect σ e b σ') {ix : Nat}
    (hix : ix ∈ σ'.workerMgr.toErase) : ix ∈ σ.workerMgr.toErase ∨
      ∃ errs hasWork, e = .grandExitCallback errs ix hasWork ∧ b = true := by
  cases h with
  | introAgain side jx role mgr _ _ _ hpost _ _ => exact .inl (hpost.toErase ▸ hix)
  | introBusy side jx kx mgr _ _ hpost => exact .inl (hpost.toErase ▸ hix)
  | introFirstDeal side jx mgr out _ _ _ _ hpost _ => exact .inl (hpost.toErase ▸ hix)
  | introRejoin side jx deal mgr out _ _ _ _ hpost _ => exact .inl (hpost.toErase ▸ hix)
  | introResume side jx deal mgr out _ _ _ _ hpost _ _ => exact .inl (hpost.toErase ▸ hix)
  | trickUnknown n card jx mgr _ _ hpost _ _ => exact .inl (hpost.toErase ▸ hix)
  | trickProxy n card jx σ' _ _ hfin => exact .inl (hfin.toErase ▸ hix)
  | trickRejected n card jx kx side mgr _ _ _ _ hpost => exact .inl (hpost.toErase ▸ hix)
  | trickAccepted n card jx side σ' _ _ _ hacc => exact .inl (hacc.toErase ▸ hix)
  | timeoutKill jx mgr _ _ hpost _ _ => exact .inl (hpost.toErase ▸ hix)
  | timeoutPrompt jx mgr _ _ _ _ hpost => exact .inl (hpost.toErase ▸ hix)
  | wrongKill jx mgr _ hpost _ _ => exact .inl (hpost.toErase ▸ hix)
  | exitInternal errs jx hasWork σ' _ hfin => exact .inl (hfin.toErase ▸ hix)
  | exitUnknown errs jx hasWork _ _ | exitErased errs jx hasWork role _ _ _ _
  | exitLeaveErased errs jx hasWork s _ _ _ _ =>
      rcases mem_eraseWorker.mp hix with hold | rfl
      · exact .inl hold
      · exact .inr ⟨errs, hasWork, rfl, rfl⟩
  | exitProxy errs jx hasWork σ' _ _ hfin =>
      rcases mem_eraseWorker.mp (hfin.toErase ▸ hix) with hold | rfl
      · exact .inl hold
      · exact .inr ⟨errs, hasWork, rfl, rfl⟩
  | cleared =>
      left
      -- the cleaner lets the list alone or empties it
      rcases waitForClearing_toErase σ.workerMgr with hsame | hnone
      · exact hsame ▸ hix
      · change ix ∈ σ.workerMgr.waitForClearing.toErase at hix
        rw [hnone] at hix
        cases hix
  | _ => exact .inl hix

theorem Effect.exiting {σ σ' : Server} {e : Call} {b : Bool} (h : Effect σ e b σ')
    (hexit : σ.exiting = true) : σ'.exiting = true := by
  cases h with
  | trickProxy n card ix σ' _ _ hfin | exitInternal errs ix hasWork σ' _ hfin
  | exitProxy errs ix hasWork σ' _ _ hfin => exact hfin.rest.2.2
  | trickAccepted n card ix side σ' _ _ _ hacc => exact hacc.exiting hexit
  | _ => exact hexit

end Server

end Kierki
