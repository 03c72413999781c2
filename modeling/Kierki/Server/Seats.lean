import Kierki.Library.Execution
import Kierki.Server.Effect

/-!
# Seats

The five maps and the counter that say who sits where.  `SeatBook` is what every call keeps, whatever
is sent and from where: the counter counts the occupied sides, an occupied side and its worker name
each other in `activeSides` and `workerToSide`, a seated worker has its seat, and workers that may
still send are registered and do not wait to be erased.

It does not say that the worker on an occupied side is still `SERVING_ACTIVE`: a second `IAM` from a
seated worker, with four players connected, makes it `CLEANUP` and leaves its seat taken.
`Seats` adds that, and holds of the runs without such a call.
-/

namespace Kierki

open Execution Fallible

/-- The occupied sides. -/
def occupied (activeSides : Side → Option Nat) : Finset Side :=
  Finset.univ.filter fun s => activeSides s ≠ none

theorem occupied_update_some {activeSides : Side → Option Nat} {s : Side} (ix : Nat)
    (h : activeSides s = none) :
    (occupied (Function.update activeSides s (some ix))).card = (occupied activeSides).card + 1 := by
  have hset : occupied (Function.update activeSides s (some ix)) = insert s (occupied activeSides) := by
    ext t
    by_cases ht : t = s <;> simp [occupied, ht, Function.update_apply]
  rw [hset, Finset.card_insert_of_notMem (by simp [occupied, h])]

theorem occupied_update_none {activeSides : Side → Option Nat} {s : Side} {ix : Nat}
    (h : activeSides s = some ix) :
    (occupied (Function.update activeSides s none)).card + 1 = (occupied activeSides).card := by
  have hset : occupied (Function.update activeSides s none) = (occupied activeSides).erase s := by
    ext t
    by_cases ht : t = s <;> simp [occupied, ht, Function.update_apply]
  rw [hset, Finset.card_erase_add_one (by simp [occupied, h])]

theorem occupied_card_le (activeSides : Side → Option Nat) : (occupied activeSides).card ≤ 4 :=
  (Finset.card_le_univ _).trans (by decide)

theorem occupied_card_eq_four {activeSides : Side → Option Nat}
    (h : (occupied activeSides).card = 4) (s : Side) : ∃ ix, activeSides s = some ix := by
  have huniv : occupied activeSides = Finset.univ :=
    (Finset.card_eq_iff_eq_univ _).mp (h.trans (by decide))
  have hs : s ∈ occupied activeSides := huniv ▸ Finset.mem_univ s
  exact Option.ne_none_iff_exists'.mp (by simpa [occupied] using hs)

namespace Server

open IOWorkerMgr

/-- Roles of workers that have not yet said or lost anything that would remove them. -/
def Serving (role : WorkerStatus) : Prop := role = .servingUnknown ∨ role = .servingActive

/-- The bookkeeping of seats that every call keeps. -/
structure SeatBook (σ : Server) : Prop where
  count : σ.playersConnected = (occupied σ.activeSides).card
  seat : ∀ s ix, σ.activeSides s = some ix → σ.workerToSide.find? ix = some s ∧
    ∃ role, σ.workerMgr.roles.find? ix = some role ∧ role ≠ .servingUnknown
  active : ∀ ix, σ.workerMgr.roles.find? ix = some .servingActive →
    ∃ s, σ.activeSides s = some ix
  live : ∀ ix role, σ.workerMgr.roles.find? ix = some role → Serving role →
    σ.workerMgr.Registered ix ∧ ix ∉ σ.workerMgr.toErase
  known : ∀ ix role, σ.workerMgr.roles.find? ix = some role → ix < σ.workerMgr.nextIx
  waiting : ∀ ix ∈ σ.workerMgr.toErase, ix < σ.workerMgr.nextIx

/-- Two states with the same seats, the same roles and the same workers. -/
structure SameSeats (σ σ' : Server) : Prop where
  activeSides : σ'.activeSides = σ.activeSides
  playersConnected : σ'.playersConnected = σ.playersConnected
  workerToSide : σ'.workerToSide = σ.workerToSide
  roles : σ'.workerMgr.roles = σ.workerMgr.roles
  toErase : σ'.workerMgr.toErase = σ.workerMgr.toErase
  nextIx : σ'.workerMgr.nextIx = σ.workerMgr.nextIx
  registered : ∀ ix, σ'.workerMgr.Registered ix ↔ σ.workerMgr.Registered ix

theorem SameSeats.refl (σ : Server) : SameSeats σ σ :=
  ⟨rfl, rfl, rfl, rfl, rfl, rfl, fun _ => Iff.rfl⟩

theorem SameSeats.trans {σ₁ σ₂ σ₃ : Server} (h : SameSeats σ₁ σ₂) (h' : SameSeats σ₂ σ₃) :
    SameSeats σ₁ σ₃ where
  activeSides := h'.activeSides.trans h.activeSides
  playersConnected := h'.playersConnected.trans h.playersConnected
  workerToSide := h'.workerToSide.trans h.workerToSide
  roles := h'.roles.trans h.roles
  toErase := h'.toErase.trans h.toErase
  nextIx := h'.nextIx.trans h.nextIx
  registered := fun ix => (h'.registered ix).trans (h.registered ix)

/-- Mail leaves the seats alone. -/
theorem SameSeats.of_posted {σ σ' : Server} {out : List (Nat × SendJob)}
    (hpost : Posted σ.workerMgr σ'.workerMgr out) (hsides : σ'.activeSides = σ.activeSides)
    (hcount : σ'.playersConnected = σ.playersConnected)
    (hwts : σ'.workerToSide = σ.workerToSide) : SameSeats σ σ' :=
  ⟨hsides, hcount, hwts, hpost.roles, hpost.toErase, hpost.nextIx, hpost.registered⟩

theorem Finalized.sameSeats {σ σ' : Server} (h : Finalized σ σ') : SameSeats σ σ' := by
  cases h with
  | again _ => exact SameSeats.refl σ
  | now _ mgr hpost _ =>
      exact ⟨rfl, rfl, rfl, hpost.roles, hpost.toErase, hpost.nextIx, hpost.registered⟩

theorem Accepted.sameSeats {σ σ' : Server} {side : Side} {card : Card}
    (h : Accepted σ side card σ') : SameSeats σ σ' := by
  cases h with
  | inTrick g mgr out _ _ hpost _ => exact .of_posted hpost rfl rfl rfl
  | trickDone g₀ g mgr out _ _ _ _ hpost _ => exact .of_posted hpost rfl rfl rfl
  | roundDone g₀ g₁ g r mgr out _ _ _ _ _ _ _ hpost _ => exact .of_posted hpost rfl rfl rfl
  | gameDone g₀ g₁ g mgr out σ' _ _ _ _ _ _ hpost _ hfin =>
      have hmail : SameSeats σ { σ with game := g, workerMgr := mgr } :=
        .of_posted hpost rfl rfl rfl
      exact hmail.trans hfin.sameSeats

/-- What a call does to the roles of the workers. -/
inductive Recast (σ : Server) : Call → Bool → Server → Prop
  | same (e : Call) (b : Bool) (σ' : Server) (hroles : σ'.workerMgr.roles = σ.workerMgr.roles) : Recast σ e b σ'
  | introduced (side : Side) (ix : Nat) (role : WorkerStatus) (b : Bool) (σ' : Server)
      (hrole : role = .servingActive ∨ role = .cleanupUnknown ∨
        role = .cleanup ∧ b = true ∧ σ'.workerMgr.Killed ix)
      (hroles : σ'.workerMgr.roles = (σ.workerMgr.withRole ix role).roles) :
      Recast σ (.playerIntro side ix) b σ'
  | tricked (n : Nat) (card : Card) (ix : Nat) (b : Bool) (σ' : Server)
      (hroles : σ'.workerMgr.roles = (σ.workerMgr.withRole ix .cleanupUnknown).roles) :
      Recast σ (.playerTricked n card ix) b σ'
  | exited (errs : List IOErrClass) (ix : Nat) (hasWork : Bool) (role : WorkerStatus) (b : Bool) (σ' : Server)
      (hrole : role = .cleanup ∨ role = .shutdown ∧ ix ∈ σ'.workerMgr.toErase)
      (hroles : σ'.workerMgr.roles = (σ.workerMgr.withRole ix role).roles) :
      Recast σ (.grandExitCallback errs ix hasWork) b σ'
  | came (b : Bool) (σ' : Server)
      (hroles : σ'.workerMgr.roles = σ.workerMgr.roles.insert σ.workerMgr.nextIx .servingUnknown) :
      Recast σ .forwardConnection b σ'

/-- **The role of a worker changes** with its first words, with a card that it must not play, and with its exit. -/
theorem Effect.recast {σ σ' : Server} {e : Call} {b : Bool} (h : Effect σ e b σ') : Recast σ e b σ' := by
  cases h with
  | introAgain side ix role mgr _ _ _ hpost hkill _ =>
      exact .introduced side ix .cleanup _ _ (.inr (.inr ⟨rfl, rfl, hkill⟩)) hpost.roles
  | introBusy side ix jx mgr _ _ hpost => exact .introduced side ix .cleanupUnknown _ _ (.inr (.inl rfl)) hpost.roles
  | introLobby side ix => exact .introduced side ix .servingActive _ _ (.inl rfl) rfl
  | introFirstDeal side ix mgr out _ _ _ _ hpost | introRejoin side ix deal mgr out _ _ _ _ hpost
  | introResume side ix deal mgr out _ _ _ _ hpost =>
      exact .introduced side ix .servingActive _ _ (.inl rfl) hpost.roles
  | trickUnknown n card ix mgr _ _ hpost => exact .tricked n card ix _ _ hpost.roles
  | trickProxy n card ix σ' _ _ hfin => exact .tricked n card ix _ _ hfin.sameSeats.roles
  | exitUnknown errs ix hasWork | exitErased errs ix hasWork | exitLeaveErased errs ix hasWork =>
      exact .exited errs ix hasWork .shutdown _ _ (.inr ⟨rfl, self_mem_eraseWorker _ ix⟩) (eraseWorker_roles _ ix)
  | exitLeave errs ix hasWork => exact .exited errs ix hasWork .cleanup _ _ (.inl rfl) rfl
  | exitProxy errs ix hasWork σ' _ _ hfin =>
      refine .exited errs ix hasWork .shutdown _ _ (.inr ⟨rfl, ?_⟩)
        (hfin.sameSeats.roles.trans (eraseWorker_roles _ ix))
      rw [hfin.sameSeats.toErase]
      exact self_mem_eraseWorker _ ix
  | connected => exact .came _ _ rfl
  -- the other calls give no role
  | trickRejected n card ix jx side mgr _ _ _ _ hpost => exact .same _ _ _ hpost.roles
  | trickAccepted n card ix side σ' _ _ _ hacc => exact .same _ _ _ hacc.sameSeats.roles
  | timeoutKill ix mgr _ _ hpost => exact .same _ _ _ hpost.roles
  | timeoutPrompt ix mgr _ _ _ _ hpost => exact .same _ _ _ hpost.roles
  | wrongKill ix mgr _ hpost => exact .same _ _ _ hpost.roles
  | exitInternal errs ix hasWork σ' _ hfin => exact .same _ _ _ hfin.sameSeats.roles
  | cleared => exact .same _ _ _ (waitForClearing_roles _)
  | _ => exact .same _ _ _ rfl

theorem SeatBook.of_same {σ σ' : Server} (h : SeatBook σ) (hs : SameSeats σ σ') : SeatBook σ' where
  count := by rw [hs.playersConnected, hs.activeSides, h.count]
  seat := by
    rw [hs.activeSides, hs.workerToSide, hs.roles]
    exact h.seat
  active := by
    rw [hs.activeSides, hs.roles]
    exact h.active
  live := by
    intro ix role hrole hserv
    rw [hs.roles] at hrole
    rw [hs.registered, hs.toErase]
    exact h.live ix role hrole hserv
  known := by
    rw [hs.roles, hs.nextIx]
    exact h.known
  waiting := by
    rw [hs.toErase, hs.nextIx]
    exact h.waiting

/-- A worker may always get a role that does not serve. -/
theorem SeatBook.withRole {σ : Server} (h : SeatBook σ) {ix : Nat} {old role : WorkerStatus}
    (hold : σ.workerMgr.roles.find? ix = some old) (hnew : ¬ Serving role) :
    SeatBook { σ with workerMgr := σ.workerMgr.withRole ix role } where
  count := h.count
  seat := by
    intro s jx hs
    obtain ⟨hside, r, hr, hne⟩ := h.seat s jx hs
    refine ⟨hside, ?_⟩
    by_cases hjx : jx = ix
    · exact ⟨role, by simp [IOWorkerMgr.withRole, hjx], fun he => hnew (.inl he)⟩
    · exact ⟨r, by simp [IOWorkerMgr.withRole, hjx, hr], hne⟩
  active := by
    intro jx hjx
    by_cases he : jx = ix
    · subst he
      have hrole : role = .servingActive := by simpa [IOWorkerMgr.withRole] using hjx
      exact absurd (.inr hrole) hnew
    · exact h.active jx (by simpa [IOWorkerMgr.withRole, he] using hjx)
  live := by
    intro jx r hr hserv
    by_cases he : jx = ix
    · subst he
      have hrole : role = r := by simpa [IOWorkerMgr.withRole] using hr
      exact absurd (hrole ▸ hserv) hnew
    · exact h.live jx r (by simpa [IOWorkerMgr.withRole, he] using hr) hserv
  known := by
    intro jx r hr
    by_cases he : jx = ix
    · subst he
      exact h.known jx old hold
    · exact h.known jx r (by simpa [IOWorkerMgr.withRole, he] using hr)
  waiting := h.waiting

/-- A worker whose role is `SHUTDOWN` may be handed to the cleaner. -/
theorem SeatBook.eraseWorker {σ : Server} (h : SeatBook σ) {ix : Nat}
    (hrole : σ.workerMgr.roles.find? ix = some .shutdown) :
    SeatBook { σ with workerMgr := σ.workerMgr.eraseWorker ix } := by
  by_cases hin : ix ∈ σ.workerMgr.toErase
  · simpa [IOWorkerMgr.eraseWorker, hin] using h
  · refine ⟨h.count, ?_, ?_, ?_, ?_, ?_⟩ <;> simp only [IOWorkerMgr.eraseWorker, if_neg hin]
    · exact h.seat
    · exact h.active
    · intro jx r hr hserv
      obtain ⟨hreg, hne⟩ := h.live jx r hr hserv
      refine ⟨hreg, ?_⟩
      rw [List.mem_append, List.mem_singleton, not_or]
      refine ⟨hne, ?_⟩
      rintro rfl
      obtain rfl : WorkerStatus.shutdown = r := Option.some.inj (hrole.symm.trans hr)
      simp [Serving] at hserv
    · exact h.known
    · intro jx hjx
      rw [List.mem_append, List.mem_singleton] at hjx
      rcases hjx with hjx | rfl
      · exact h.waiting jx hjx
      · exact h.known jx _ hrole

/-- Handing a worker to the cleaner, with its role set to `SHUTDOWN`. -/
theorem SeatBook.erased {σ : Server} (h : SeatBook σ) {ix : Nat} {old : WorkerStatus}
    (hold : σ.workerMgr.roles.find? ix = some old) : SeatBook (σ.erased ix) :=
  (h.withRole hold (by simp [Serving] : ¬ Serving .shutdown)).eraseWorker
    (by simp [IOWorkerMgr.withRole])

/-- A worker that has not spoken yet takes a free side. -/
theorem SeatBook.seated {σ : Server} (h : SeatBook σ) {side : Side} {ix : Nat}
    (hrole : σ.workerMgr.roles.find? ix = some .servingUnknown)
    (hfree : σ.activeSides side = none) : SeatBook (σ.seated side ix) where
  count := by
    have hc := occupied_update_some ix hfree
    have hcount := h.count
    simp only [Server.seated]
    omega
  seat := by
    intro s jx hs
    by_cases hs' : s = side
    · subst hs'
      obtain rfl : ix = jx := by simpa [Server.seated] using hs
      exact ⟨by simp [Server.seated], .servingActive, by simp [Server.seated, IOWorkerMgr.withRole],
        by simp⟩
    · have hold : σ.activeSides s = some jx := by
        simpa [Server.seated, Function.update_apply, hs'] using hs
      obtain ⟨hside, r, hr, hne⟩ := h.seat s jx hold
      -- the newcomer has said nothing, and so is none of the seated
      have hjx : jx ≠ ix := by
        rintro rfl
        exact hne (Option.some.inj (hr.symm.trans hrole))
      exact ⟨by simpa [Server.seated, hjx] using hside, r,
        by simpa [Server.seated, IOWorkerMgr.withRole, hjx] using hr, hne⟩
  active := by
    intro jx hjx
    by_cases he : jx = ix
    · exact ⟨side, by simp [he]⟩
    · obtain ⟨s, hs⟩ := h.active jx (by simpa [Server.seated, IOWorkerMgr.withRole, he] using hjx)
      refine ⟨s, ?_⟩
      have hne : s ≠ side := by
        rintro rfl
        rw [hfree] at hs
        cases hs
      simpa [Server.seated, Function.update_apply, hne] using hs
  live := by
    intro jx r hr hserv
    by_cases he : jx = ix
    · subst he
      exact h.live jx _ hrole (.inl rfl)
    · exact h.live jx r (by simpa [Server.seated, IOWorkerMgr.withRole, he] using hr) hserv
  known := by
    intro jx r hr
    by_cases he : jx = ix
    · subst he
      exact h.known jx _ hrole
    · exact h.known jx r (by simpa [Server.seated, IOWorkerMgr.withRole, he] using hr)
  waiting := h.waiting

/-- A seated worker leaves its side, and gets a role that does not serve. -/
theorem SeatBook.unseated {σ : Server} (h : SeatBook σ) {s : Side} {ix : Nat} {role : WorkerStatus}
    (hrole : σ.workerMgr.roles.find? ix = some .servingActive)
    (hside : σ.workerToSide.find? ix = some s) (hnew : ¬ Serving role) :
    SeatBook { σ.unseated s ix with workerMgr := σ.workerMgr.withRole ix role } := by
  have hbook : SeatBook { σ with workerMgr := σ.workerMgr.withRole ix role } :=
    h.withRole hrole hnew
  -- a `SERVING_ACTIVE` worker sits on the side that `workerToSide` says
  have hseat : σ.activeSides s = some ix := by
    obtain ⟨t, ht⟩ := h.active ix hrole
    obtain ⟨hside', -⟩ := h.seat t ix ht
    obtain rfl : t = s := Option.some.inj (hside'.symm.trans hside)
    exact ht
  refine ⟨?_, ?_, ?_, hbook.live, hbook.known, hbook.waiting⟩
  · have hc := occupied_update_none hseat
    have hcount := h.count
    simp only [Server.unseated]
    omega
  · intro t jx ht
    by_cases hts : t = s
    · simp [Server.unseated, hts] at ht
    · have hold : σ.activeSides t = some jx := by
        simpa [Server.unseated, Function.update_apply, hts] using ht
      obtain ⟨hside', hrest⟩ := hbook.seat t jx hold
      have hne : jx ≠ ix := by
        rintro rfl
        exact hts (Option.some.inj (hside'.symm.trans hside))
      exact ⟨by simpa [Server.unseated, hne] using hside', hrest⟩
  · intro jx hjx
    obtain ⟨t, ht⟩ := hbook.active jx hjx
    refine ⟨t, ?_⟩
    have hne : t ≠ s := by
      rintro rfl
      obtain rfl : ix = jx := Option.some.inj (hseat.symm.trans ht)
      have hr : role = .servingActive := by simpa [IOWorkerMgr.withRole] using hjx
      exact hnew (.inr hr)
    simpa [Server.unseated, Function.update_apply, hne] using ht

/-- A new worker, with an index nobody has had. -/
theorem SeatBook.spawned {σ : Server} (h : SeatBook σ) {role : WorkerStatus}
    (hnew : role ≠ .servingActive) :
    SeatBook { σ with workerMgr := σ.workerMgr.spawnNewWorker role } where
  count := h.count
  seat := by
    intro s jx hs
    obtain ⟨hside, r, hr, hne⟩ := h.seat s jx hs
    -- the index is fresh, so that no seat is touched
    have hold : jx ≠ σ.workerMgr.nextIx := (h.known jx r hr).ne
    exact ⟨hside, r, by simp [spawnNewWorker, hold, hr], hne⟩
  active := by
    intro jx hjx
    by_cases he : jx = σ.workerMgr.nextIx
    · exact absurd (by simpa [spawnNewWorker, he] using hjx) hnew
    · exact h.active jx (by simpa [spawnNewWorker, he] using hjx)
  live := by
    intro jx r hr hserv
    by_cases he : jx = σ.workerMgr.nextIx
    · subst he
      refine ⟨by simp [Registered, spawnNewWorker], fun hin => ?_⟩
      exact absurd (h.waiting _ hin) (lt_irrefl _)
    · obtain ⟨hreg, hne⟩ := h.live jx r (by simpa [spawnNewWorker, he] using hr) hserv
      exact ⟨by simpa [Registered, spawnNewWorker, he] using hreg, hne⟩
  known := by
    intro jx r hr
    by_cases he : jx = σ.workerMgr.nextIx
    · simp [spawnNewWorker, he]
    · have hlt := h.known jx r (by simpa [spawnNewWorker, he] using hr)
      simp only [spawnNewWorker]
      omega
  waiting := by
    intro jx hjx
    have hlt := h.waiting jx hjx
    simp only [spawnNewWorker]
    omega

/-- The cleaner only removes workers that wait for it. -/
theorem SeatBook.cleared {σ : Server} (h : SeatBook σ) :
    SeatBook { σ with workerMgr := σ.workerMgr.waitForClearing } := by
  by_cases hblock : σ.workerMgr.exitFlag ∨ σ.workerMgr.clearThreadsSemaphore = 0
  · have heq : σ.workerMgr.waitForClearing = σ.workerMgr := by simp [waitForClearing, hblock]
    rw [heq]
    exact h
  · refine ⟨h.count, ?_, ?_, ?_, ?_, ?_⟩ <;> simp only [waitForClearing, if_neg hblock]
    · exact h.seat
    · exact h.active
    · intro jx r hr hserv
      obtain ⟨hreg, hne⟩ := h.live jx r hr hserv
      refine ⟨?_, by simp⟩
      rw [Registered, UnorderedMap.find?_foldl_erase, if_neg (by simpa using hne)]
      exact hreg
    · exact h.known
    · simp

/-- Every call keeps the book. -/
theorem SeatBook.effect {σ σ' : Server} {e : Call} {b : Bool} (h : SeatBook σ)
    (he : Effect σ e b σ') : SeatBook σ' := by
  cases he with
  | introParked | trickParked | trickIgnored | timeoutIdle | wrongParked | exitRefused | exitDone
  | gate => exact h
  | introAgain side ix role mgr hrole _ _ hpost _ _ =>
      exact (h.withRole hrole (by simp [Serving])).of_same (.of_posted hpost rfl rfl rfl)
  | introBusy side ix jx mgr hrole _ hpost =>
      exact (h.withRole hrole (by simp [Serving])).of_same (.of_posted hpost rfl rfl rfl)
  | introLobby side ix hrole hfree _ _ => exact h.seated hrole hfree
  | introFirstDeal side ix mgr out hrole hfree _ _ hpost _ =>
      exact (h.seated hrole hfree).of_same (.of_posted hpost rfl rfl rfl)
  | introRejoin side ix deal mgr out hrole hfree _ _ hpost _ =>
      exact (h.seated hrole hfree).of_same (.of_posted hpost rfl rfl rfl)
  | introResume side ix deal mgr out hrole hfree _ _ hpost _ _ =>
      exact (h.seated hrole hfree).of_same (.of_posted hpost rfl rfl rfl)
  | trickUnknown n card ix mgr _ hrole hpost _ _ =>
      exact (h.withRole hrole (by simp [Serving])).of_same (.of_posted hpost rfl rfl rfl)
  | trickProxy n card ix σ' _ hrole hfin =>
      exact (h.withRole hrole (by simp [Serving])).of_same hfin.sameSeats
  | trickRejected n card ix jx side mgr _ _ _ _ hpost =>
      exact h.of_same (.of_posted hpost rfl rfl rfl)
  | trickAccepted n card ix side σ' _ _ _ hacc => exact h.of_same hacc.sameSeats
  | timeoutKill ix mgr _ _ hpost _ _ => exact h.of_same (.of_posted hpost rfl rfl rfl)
  | timeoutPrompt ix mgr _ _ _ _ hpost => exact h.of_same (.of_posted hpost rfl rfl rfl)
  | wrongKill ix mgr _ hpost _ _ => exact h.of_same (.of_posted hpost rfl rfl rfl)
  | exitInternal errs ix hasWork σ' _ hfin =>
      have hbook : SeatBook { σ with exitCode := 1 } :=
        ⟨h.count, h.seat, h.active, h.live, h.known, h.waiting⟩
      exact hbook.of_same hfin.sameSeats
  | exitUnknown errs ix hasWork _ hrole => exact h.erased hrole
  | exitLeave errs ix hasWork s _ hrole hside _ =>
      exact h.unseated hrole hside (by simp [Serving])
  | exitLeaveErased errs ix hasWork s _ hrole hside _ =>
      have hleft := h.unseated hrole hside (by simp [Serving] : ¬ Serving .shutdown)
      exact hleft.eraseWorker (by simp [IOWorkerMgr.withRole])
  | exitErased errs ix hasWork role _ hrole _ _ => exact h.erased hrole
  | exitProxy errs ix hasWork σ' _ hrole hfin => exact (h.erased hrole).of_same hfin.sameSeats
  | connected => exact h.spawned (by simp)
  -- a queue without its first job is still there
  | popped ix q job rest hq _ =>
      refine h.of_same ⟨rfl, rfl, rfl, rfl, rfl, rfl, fun jx => ?_⟩
      by_cases hjx : jx = ix <;> simp [Registered, hjx, hq]
  | piped ix => exact h.of_same ⟨rfl, rfl, rfl, rfl, rfl, rfl, fun _ => Iff.rfl⟩
  | cleared => exact h.cleared

theorem seatBook_started (scenario : GameScenario) (timeout : Int) (r : Round) :
    SeatBook (started scenario timeout r) := by
  have hbook : SeatBook { new scenario timeout with game := Game.new.prepare r } := by
    refine ⟨?_, ?_, ?_, ?_, ?_, ?_⟩ <;> simp [new, IOWorkerMgr.new, occupied]
  exact hbook.spawned (by simp)

/-- The book is kept in every run. -/
theorem seatBook_run {scenario : GameScenario} {timeout : Int} {es : List Call} {σ : Server}
    (h : run scenario timeout es = some σ) : SeatBook σ :=
  run_invariant (fun r _ => seatBook_started scenario timeout r)
    (fun _ _ _ _ hbook heff => hbook.effect heff) h

theorem SeatBook.count_le {σ : Server} (h : SeatBook σ) : σ.playersConnected ≤ 4 := by
  have hle := occupied_card_le σ.activeSides
  have hcount := h.count
  omega

/-- The worker on an occupied side is `SERVING_ACTIVE`. -/
def Held (σ : Server) : Prop :=
  ∀ s ix, σ.activeSides s = some ix → σ.workerMgr.roles.find? ix = some .servingActive

theorem Held.of_same {σ σ' : Server} (h : Held σ) (hs : SameSeats σ σ') : Held σ' := by
  unfold Held
  rw [hs.activeSides, hs.roles]
  exact h

/-- A worker that is not `SERVING_ACTIVE` sits nowhere, so its role may change. -/
theorem Held.withRole {σ : Server} (h : Held σ) {ix : Nat} {old : WorkerStatus}
    (hold : σ.workerMgr.roles.find? ix = some old) (hne : old ≠ .servingActive)
    (role : WorkerStatus) : Held { σ with workerMgr := σ.workerMgr.withRole ix role } := by
  intro s jx hs
  have hrole := h s jx hs
  have hjx : jx ≠ ix := by
    rintro rfl
    exact hne (Option.some.inj (hold.symm.trans hrole))
  simpa [IOWorkerMgr.withRole, hjx] using hrole

theorem Held.erased {σ : Server} (h : Held σ) {ix : Nat} {old : WorkerStatus}
    (hold : σ.workerMgr.roles.find? ix = some old) (hne : old ≠ .servingActive) :
    Held (σ.erased ix) := by
  have hbook := h.withRole hold hne .shutdown
  by_cases hin : ix ∈ σ.workerMgr.toErase <;>
    simpa [Server.erased, IOWorkerMgr.eraseWorker, IOWorkerMgr.withRole, hin, Held] using hbook

theorem Held.seated {σ : Server} (h : Held σ) (side : Side) (ix : Nat) :
    Held (σ.seated side ix) := by
  intro s jx hs
  by_cases hjx : jx = ix
  · simp [Server.seated, IOWorkerMgr.withRole, hjx]
  · have hne : s ≠ side := by
      rintro rfl
      exact hjx (by simpa [Server.seated, eq_comm] using hs)
    have hrole := h s jx (by simpa [Server.seated, Function.update_apply, hne] using hs)
    simpa [Server.seated, IOWorkerMgr.withRole, hjx] using hrole

/-- Who leaves its side may get any role: its seat is free. -/
theorem Held.unseated {σ : Server} (h : Held σ) (hbook : SeatBook σ) {s : Side} {ix : Nat}
    (hside : σ.workerToSide.find? ix = some s) (mgr : IOWorkerMgr)
    (hmgr : ∀ jx, jx ≠ ix → mgr.roles.find? jx = σ.workerMgr.roles.find? jx) :
    Held { σ.unseated s ix with workerMgr := mgr } := by
  intro t jx ht
  by_cases hts : t = s
  · simp [Server.unseated, hts] at ht
  · have hold : σ.activeSides t = some jx := by
      simpa [Server.unseated, Function.update_apply, hts] using ht
    have hne : jx ≠ ix := by
      rintro rfl
      obtain ⟨hside', -⟩ := hbook.seat t jx hold
      exact hts (Option.some.inj (hside'.symm.trans hside))
    change mgr.roles.find? jx = _
    rw [hmgr jx hne]
    exact h t jx hold

theorem Held.spawned {σ : Server} (h : Held σ) (hbook : SeatBook σ) (role : WorkerStatus) :
    Held { σ with workerMgr := σ.workerMgr.spawnNewWorker role } := by
  intro s jx hs
  have hrole := h s jx hs
  have hold : jx ≠ σ.workerMgr.nextIx := (hbook.known jx _ hrole).ne
  simpa [spawnNewWorker, hold] using hrole

/-- A second `IAM` from the worker of an occupied side, while nobody is missing. -/
def SecondIntro (σ : Server) : Call → Prop
  | .playerIntro _ ix => σ.workerMgr.roles.find? ix = some .servingActive ∧ 4 ≤ σ.playersConnected
  | _ => False

instance (σ : Server) (e : Call) : Decidable (SecondIntro σ e) := by
  unfold SecondIntro
  split <;> infer_instance

/-- Every call but a second `IAM` leaves the workers of the occupied sides `SERVING_ACTIVE`. -/
theorem Held.effect {σ σ' : Server} {e : Call} {b : Bool} (h : Held σ) (hbook : SeatBook σ)
    (he : Effect σ e b σ') (hguard : ¬ SecondIntro σ e) : Held σ' := by
  cases he with
  | introParked | trickParked | trickIgnored | timeoutIdle | wrongParked | exitRefused | exitDone
  | gate => exact h
  | introAgain side ix role mgr hrole _ hpc hpost _ _ =>
      -- a second `IAM` of a seated worker at a full table is what is excluded
      have hne : role ≠ .servingActive := by
        rintro rfl
        exact hguard ⟨hrole, hpc⟩
      exact (h.withRole hrole hne .cleanup).of_same (.of_posted hpost rfl rfl rfl)
  | introBusy side ix jx mgr hrole _ hpost =>
      exact (h.withRole hrole (by simp) .cleanupUnknown).of_same (.of_posted hpost rfl rfl rfl)
  | introLobby side ix _ _ _ _ => exact h.seated side ix
  | introFirstDeal side ix mgr out _ _ _ _ hpost _ =>
      exact (h.seated side ix).of_same (.of_posted hpost rfl rfl rfl)
  | introRejoin side ix deal mgr out _ _ _ _ hpost _ =>
      exact (h.seated side ix).of_same (.of_posted hpost rfl rfl rfl)
  | introResume side ix deal mgr out _ _ _ _ hpost _ _ =>
      exact (h.seated side ix).of_same (.of_posted hpost rfl rfl rfl)
  | trickUnknown n card ix mgr _ hrole hpost _ _ =>
      exact (h.withRole hrole (by simp) .cleanupUnknown).of_same (.of_posted hpost rfl rfl rfl)
  | trickProxy n card ix σ' _ hrole hfin =>
      exact (h.withRole hrole (by simp) .cleanupUnknown).of_same hfin.sameSeats
  | trickRejected n card ix jx side mgr _ _ _ _ hpost =>
      exact h.of_same (.of_posted hpost rfl rfl rfl)
  | trickAccepted n card ix side σ' _ _ _ hacc => exact h.of_same hacc.sameSeats
  | timeoutKill ix mgr _ _ hpost _ _ => exact h.of_same (.of_posted hpost rfl rfl rfl)
  | timeoutPrompt ix mgr _ _ _ _ hpost => exact h.of_same (.of_posted hpost rfl rfl rfl)
  | wrongKill ix mgr _ hpost _ _ => exact h.of_same (.of_posted hpost rfl rfl rfl)
  | exitInternal errs ix hasWork σ' _ hfin =>
      have hheld : Held { σ with exitCode := 1 } := h
      exact hheld.of_same hfin.sameSeats
  | exitUnknown errs ix hasWork _ hrole => exact h.erased hrole (by simp)
  | exitLeave errs ix hasWork s _ _ hside _ =>
      exact h.unseated hbook hside _ fun jx hjx => by simp [IOWorkerMgr.withRole, hjx]
  | exitLeaveErased errs ix hasWork s _ _ hside _ =>
      refine h.unseated hbook hside _ fun jx hjx => ?_
      by_cases hin : ix ∈ σ.workerMgr.toErase <;>
        simp [Server.unseated, IOWorkerMgr.eraseWorker, IOWorkerMgr.withRole, hin, hjx]
  | exitErased errs ix hasWork role _ hrole hclean _ =>
      exact h.erased hrole (by rcases hclean with rfl | rfl <;> simp)
  | exitProxy errs ix hasWork σ' _ hrole hfin =>
      exact (h.erased hrole (by simp)).of_same hfin.sameSeats
  | connected => exact h.spawned hbook .servingUnknown
  | popped | piped => exact h
  | cleared =>
      by_cases hblock : σ.workerMgr.exitFlag ∨ σ.workerMgr.clearThreadsSemaphore = 0 <;>
        simpa [waitForClearing, hblock, Held] using h

/-- A seat and its worker name each other, and only seated workers are `SERVING_ACTIVE`. -/
structure Seats (σ : Server) : Prop where
  count : σ.playersConnected = (occupied σ.activeSides).card
  seat : ∀ s ix, σ.activeSides s = some ix →
    σ.workerMgr.roles.find? ix = some .servingActive ∧ σ.workerToSide.find? ix = some s ∧
      σ.workerMgr.Registered ix ∧ ix ∉ σ.workerMgr.toErase
  active : ∀ ix, σ.workerMgr.roles.find? ix = some .servingActive →
    ∃! s, σ.activeSides s = some ix

theorem SeatBook.seats {σ : Server} (hbook : SeatBook σ) (hheld : Held σ) : Seats σ where
  count := hbook.count
  seat := by
    intro s ix hs
    have hrole := hheld s ix hs
    exact ⟨hrole, (hbook.seat s ix hs).1, hbook.live ix _ hrole (.inr rfl)⟩
  active := by
    intro ix hrole
    obtain ⟨s, hs⟩ := hbook.active ix hrole
    refine ⟨s, hs, fun t ht => ?_⟩
    exact Option.some.inj ((hbook.seat t ix ht).1.symm.trans (hbook.seat s ix hs).1)

section Addressees

/-- Every side is occupied by a worker that is still there. -/
def FullTable (σ : Server) : Prop :=
  ∀ s, ∃ ix, σ.activeSides s = some ix ∧ σ.workerMgr.Registered ix

/-- With four players connected the table is full. -/
theorem Seats.fullTable {σ : Server} (h : Seats σ) (hpc : 4 ≤ σ.playersConnected) :
    FullTable σ := by
  intro s
  have hcard : (occupied σ.activeSides).card = 4 := by
    have hle := occupied_card_le σ.activeSides
    have hcount := h.count
    omega
  obtain ⟨ix, hix⟩ := occupied_card_eq_four hcard s
  exact ⟨ix, hix, (h.seat s ix hix).2.2.1⟩

theorem FullTable.sent {σ σ' : Server} {jobs : List (Option Nat × SendJob)} (h : FullTable σ)
    (hsend : σ.sendJobs jobs = .ok σ') : FullTable σ' := by
  obtain ⟨mgr, out, rfl, hpost, -⟩ := sendJobs_eq_ok hsend
  intro s
  obtain ⟨ix, hix, hreg⟩ := h s
  exact ⟨ix, hix, (hpost.registered ix).mpr hreg⟩

theorem FullTable.sendJobs_ne {σ : Server} (h : FullTable σ) {jobs : List (Option Nat × SendJob)}
    (hjobs : ∀ p ∈ jobs, ∃ s, p.1 = σ.activeSides s) (f : Fault) :
    σ.sendJobs jobs ≠ .error f := by
  have haddr : ∀ p ∈ jobs, ∃ ix, p.1 = some ix ∧ σ.workerMgr.Registered ix := by
    intro p hp
    obtain ⟨s, hs⟩ := hjobs p hp
    obtain ⟨ix, hix, hreg⟩ := h s
    exact ⟨ix, hs.trans hix, hreg⟩
  obtain ⟨σ', hσ'⟩ := sendJobs_ok haddr
  simp [hσ']

theorem FullTable.seatJob_ne {σ : Server} (h : FullTable σ) (s : Side) (msg : SendJob) (f : Fault) :
    σ.sendJobs [(σ.activeSides s, msg)] ≠ .error f := by
  refine h.sendJobs_ne (fun p hp => ⟨s, ?_⟩) f
  rw [List.mem_singleton.mp hp]

/-- Jobs for one registered worker can all be sent. -/
theorem sendJobs_registered_ne {σ : Server} {ix : Nat} (hreg : σ.workerMgr.Registered ix)
    {jobs : List (Option Nat × SendJob)} (hjobs : ∀ p ∈ jobs, p.1 = some ix) (f : Fault) :
    σ.sendJobs jobs ≠ .error f := by
  obtain ⟨σ', hσ'⟩ := sendJobs_ok fun p hp => ⟨ix, hjobs p hp, hreg⟩
  simp [hσ']

/-- `roundEnded` at a full table finds every addressee. -/
theorem FullTable.roundEnded_ne {σ : Server} (h : FullTable σ) :
    σ.roundEnded ≠ .error .sendJobTarget := by
  have hscores : FullTable { σ with game := σ.game.updatePenalties } := h
  unfold roundEnded
  refine bind_ne_error (hscores.sendJobs_ne ?_ _) fun σ₁ hσ₁ => ?_
  · intro p hp
    obtain ⟨s, -, hp⟩ := List.mem_flatMap.mp hp
    rcases List.mem_cons.mp hp with rfl | hp
    · exact ⟨s, rfl⟩
    · exact ⟨s, by rw [List.mem_singleton.mp hp]⟩
  · have hfull : FullTable σ₁ := hscores.sent hσ₁
    by_cases hlast : σ₁.game.leaveRound.roundNumber = σ₁.gameScenario.length
    · rw [if_pos hlast]
      refine bind_ne_error ?_ fun _ _ => by simp [pure_eq]
      obtain ⟨σ₂, hσ₂⟩ := finalize_ok { σ₁ with game := σ₁.game.leaveRound }
      simp [hσ₂]
    · rw [if_neg hlast]
      refine bind_ne_error ?_ fun g _ => ?_
      · rw [Game.prepareRound]
        exact bind_ne_error (by simp) fun _ _ => by simp [pure_eq]
      · have hdealt : FullTable { σ₁ with game := g, lastDeal := some g.hands } := hfull
        refine bind_ne_error (hdealt.sendJobs_ne ?_ _) fun _ _ => by simp [pure_eq]
        intro p hp
        obtain ⟨s, -, rfl⟩ := List.mem_map.mp hp
        exact ⟨s, rfl⟩

theorem FullTable.trickEnded_ne {σ : Server} (h : FullTable σ) :
    σ.trickEnded ≠ .error .sendJobTarget := by
  have htaken : FullTable { σ with game := σ.game.takeTrick } := h
  unfold trickEnded
  refine bind_ne_error (htaken.sendJobs_ne ?_ _) fun σ₁ hσ₁ => ?_
  · intro p hp
    obtain ⟨s, -, rfl⟩ := List.mem_map.mp hp
    exact ⟨s, rfl⟩
  · by_cases hno : σ₁.game.trickNo = TRICKS_PER_ROUND + 1
    · rw [if_pos hno]
      exact FullTable.roundEnded_ne (htaken.sent hσ₁)
    · rw [if_neg hno]
      simp [pure_eq]

/-- The table is still full when the next player is prompted. -/
theorem FullTable.trickEnded {σ σ' : Server} (h : FullTable σ)
    (hend : σ.trickEnded = .ok (false, σ')) : FullTable σ' := by
  have htaken : FullTable { σ with game := σ.game.takeTrick } := h
  unfold Server.trickEnded at hend
  simp only [bind_eq_ok] at hend
  obtain ⟨σ₁, hσ₁, hend⟩ := hend
  have hfull : FullTable σ₁ := htaken.sent hσ₁
  by_cases hno : σ₁.game.trickNo = TRICKS_PER_ROUND + 1
  · rw [if_pos hno] at hend
    rcases roundEnded_eq_ok hend with ⟨-, r, g₁, g, mgr, out, -, -, -, -, rfl, hpost, -⟩ | ⟨hd, -⟩
    · intro s
      obtain ⟨ix, hix, hreg⟩ := hfull s
      exact ⟨ix, hix, (hpost.registered ix).mpr hreg⟩
    · cases hd
  · rw [if_neg hno] at hend
    obtain rfl : σ₁ = σ' := by simpa using hend
    exact hfull

/-- A card offered at a full table finds every addressee. -/
theorem FullTable.offerCard_ne {σ : Server} (h : FullTable σ) (n : Nat) (card : Card)
    (side : Side) : σ.offerCard n card side ≠ .error .sendJobTarget := by
  unfold offerCard
  by_cases hturn : n ≠ σ.game.trickNo ∨ σ.game.nextMove ≠ side
  · rw [if_pos hturn]
    exact h.seatJob_ne _ _ _
  · rw [if_neg hturn]
    by_cases hlegal : GameRules.isMoveLegal side card σ.game.hands σ.game.table = false
    · rw [if_pos hlegal]
      exact h.seatJob_ne _ _ _
    · rw [if_neg hlegal]
      have hput : FullTable { σ with game := σ.game.putCard side card } := h
      dsimp only
      by_cases hlen : (σ.game.putCard side card).table.length = 4
      · rw [if_pos hlen]
        refine bind_ne_error hput.trickEnded_ne fun p hp => ?_
        obtain ⟨done, σ₁⟩ := p
        cases done with
        | true => simp [pure_eq]
        | false => exact (hput.trickEnded hp).seatJob_ne _ _ _
      · rw [if_neg hlen, ok_bind]
        exact hput.seatJob_ne _ _ _

/-- `playerTricked` never addresses a worker that is gone. -/
theorem Seats.playerTricked_ne {σ : Server} (h : Seats σ) (n : Nat) (card : Card) (ix : Nat) :
    σ.playerTricked n card ix ≠ .error .sendJobTarget := by
  unfold playerTricked
  by_cases hpc : σ.playersConnected < 4
  · simp [hpc]
  · rw [if_neg hpc]
    have hfull : FullTable σ := h.fullTable (by omega)
    refine bind_ne_error (by simp [getRole]) fun role _ => ?_
    have hrole (role : WorkerStatus) : σ.workerMgr.setRole ix role ≠ .error .sendJobTarget := by
      unfold IOWorkerMgr.setRole
      split <;> simp
    cases role with
    | servingUnknown =>
        refine bind_ne_error (hrole _) fun mgr _ => bind_ne_error ?_ fun _ _ => by simp [pure_eq]
        exact bind_ne_error (by simp) fun _ _ => by simp [pure_eq]
    | servingActive =>
        refine bind_ne_error (by simp) fun side _ => ?_
        exact bind_ne_error (hfull.offerCard_ne n card side) fun _ _ => by simp [pure_eq]
    | servingProxy =>
        refine bind_ne_error (hrole _) fun mgr _ => bind_ne_error ?_ fun _ _ => by simp [pure_eq]
        obtain ⟨σ', hσ'⟩ := finalize_ok { σ with workerMgr := mgr }
        simp [hσ']
    | cleanup =>
        refine bind_ne_error (by simp) fun side _ => ?_
        exact bind_ne_error (hfull.offerCard_ne n card side) fun _ _ => by simp [pure_eq]
    | cleanupUnknown | shutdown => simp [pure_eq]

theorem Seats.firstDeal_ne {σ : Server} (h : Seats σ) (hpc : σ.playersConnected = 4) :
    σ.firstDeal ≠ .error .sendJobTarget := by
  have hfull : FullTable { σ with lastDeal := some σ.game.hands } := h.fullTable hpc.ge
  unfold firstDeal
  refine bind_ne_error (hfull.sendJobs_ne ?_ _) fun σ₁ hσ₁ => ?_
  · intro p hp
    obtain ⟨s, -, rfl⟩ := List.mem_map.mp hp
    exact ⟨s, rfl⟩
  · exact (hfull.sent hσ₁).seatJob_ne _ _ _

theorem Seats.rejoin_ne {σ : Server} (h : Seats σ) {side : Side} {ix : Nat}
    (hseat : σ.activeSides side = some ix) (deal : TableState) :
    σ.rejoin side ix deal ≠ .error .sendJobTarget := by
  have hreg : σ.workerMgr.Registered ix := (h.seat side ix hseat).2.2.1
  unfold rejoin
  refine bind_ne_error (sendJobs_registered_ne hreg (by simp [hseat]) _) fun σ₁ hσ₁ => ?_
  obtain ⟨mgr₁, out₁, rfl, hpost₁, -⟩ := sendJobs_eq_ok hσ₁
  refine bind_ne_error ?_ fun σ₂ hσ₂ => ?_
  · exact sendJobs_registered_ne ((hpost₁.registered ix).mpr hreg) (by simp) _
  · obtain ⟨mgr₂, out₂, rfl, hpost₂, -⟩ := sendJobs_eq_ok hσ₂
    by_cases hpc : σ.playersConnected = 4
    · rw [if_pos hpc]
      obtain ⟨hpostA, -⟩ := posted_signalRole mgr₂ .servingActive
      obtain ⟨hpostC, -⟩ := posted_signalRole (mgr₂.signalRole .servingActive) .cleanupUnknown
      obtain ⟨hpostU, -⟩ := posted_signalRole
        ((mgr₂.signalRole .servingActive).signalRole .cleanupUnknown) .servingUnknown
      have hpost := hpost₁.trans (hpost₂.trans (hpostA.trans (hpostC.trans hpostU)))
      refine FullTable.seatJob_ne (fun s => ?_) _ _ _
      obtain ⟨jx, hjx, hreg'⟩ := h.fullTable hpc.ge s
      exact ⟨jx, hjx, (hpost.registered jx).mpr hreg'⟩
    · rw [if_neg hpc]
      simp

/-- `playerIntro` never addresses a worker that is gone. -/
theorem SeatBook.playerIntro_ne {σ : Server} (hbook : SeatBook σ) (hheld : Held σ) (side : Side)
    (ix : Nat) : σ.playerIntro side ix ≠ .error .sendJobTarget := by
  have hset (m : IOWorkerMgr) (role : WorkerStatus) : m.setRole ix role ≠ .error .sendJobTarget := by
    unfold IOWorkerMgr.setRole
    split <;> simp
  unfold playerIntro
  refine bind_ne_error (by simp [getRole]) fun role hrole => ?_
  rw [getRole_eq_ok] at hrole
  by_cases hne : role = .servingUnknown
  · subst hne
    rw [if_neg (by simp)]
    cases hseat : σ.activeSides side with
    | some jx =>
        refine bind_ne_error (hset _ _) fun mgr hmgr => bind_ne_error ?_ fun _ _ => by simp [pure_eq]
        obtain ⟨-, rfl⟩ := setRole_eq_ok.mp hmgr
        apply sendJobs_registered_ne
        · -- the worker that is told `BUSY` has just spoken
          exact (hbook.live ix _ hrole (.inl rfl)).1
        · simp
    | none =>
        -- a deal or a replay goes to seated workers only, and these are registered
        have hseats : Seats (σ.seated side ix) :=
          (hbook.seated hrole hseat).seats (hheld.seated side ix)
        refine bind_ne_error ?_ fun σ₁ hσ₁ => ?_
        · unfold takeSeat
          exact bind_ne_error (hset _ _) fun _ _ => by simp [pure_eq]
        · obtain rfl := takeSeat_eq_ok hσ₁
          cases hdeal : σ.lastDeal with
          | none =>
              simp only [seated_lastDeal, hdeal]
              by_cases hpc : (σ.seated side ix).playersConnected = 4
              · rw [if_pos hpc]
                exact bind_ne_error (hseats.firstDeal_ne hpc) fun _ _ => by simp [pure_eq]
              · rw [if_neg hpc]
                simp [pure_eq]
          | some deal =>
              simp only [seated_lastDeal, hdeal]
              exact bind_ne_error
                (hseats.rejoin_ne (seated_activeSides_self σ side ix) deal)
                fun _ _ => by simp [pure_eq]
  · rw [if_pos hne]
    by_cases hpc : σ.playersConnected < 4
    · rw [if_pos hpc]
      simp
    · rw [if_neg hpc]
      refine bind_ne_error ?_ fun mgr _ => bind_ne_error (hset _ _) fun _ _ => by simp [pure_eq]
      exact bind_ne_error (by simp) fun _ _ => by simp [pure_eq]

end Addressees

/-- **The seat invariant.**  In a run without a second `IAM` from a seated worker while nobody is
missing, seats, roles and indices agree in every state, and neither `playerTricked` nor `playerIntro`
ever addresses a worker that is gone. -/
theorem seats_of_guarded {scenario : GameScenario} {timeout : Int} {es : List Call} {σ₀ σ : Server}
    (h₀ : start scenario timeout = .ok σ₀) (hes : exec step σ₀ es = some σ)
    (hguard : Guarded step (fun σ e => ¬ SecondIntro σ e) σ₀ es) :
    Seats σ ∧ (∀ n card ix, σ.playerTricked n card ix ≠ .error .sendJobTarget) ∧
      ∀ side ix, σ.playerIntro side ix ≠ .error .sendJobTarget := by
  have hbook : SeatBook σ := seatBook_run (run_eq_some.mpr ⟨σ₀, h₀, hes⟩)
  have hheld : SeatBook σ ∧ Held σ := by
    refine hguard.invariant (P := fun σ => SeatBook σ ∧ Held σ) hes ?_ fun σ e σ' hinv hg he => ?_
    · obtain ⟨r, -, rfl⟩ := start_eq_ok h₀
      exact ⟨seatBook_started scenario timeout r, fun s ix hs => by simp [started, new] at hs⟩
    · obtain ⟨b, heff⟩ := step_effect he
      exact ⟨hinv.1.effect heff, hinv.2.effect hinv.1 heff hg⟩
  have hseats : Seats σ := hbook.seats hheld.2
  exact ⟨hseats, hseats.playerTricked_ne, hbook.playerIntro_ne hheld.2⟩

/-- Four connections, and an `IAM` from each. -/
def fourPlayers : List Call :=
  [.forwardConnection, .forwardConnection, .forwardConnection, .forwardConnection,
    .playerIntro .N 1, .playerIntro .E 2, .playerIntro .S 3, .playerIntro .W 4]

/-- The whole of `suitRound`: the four sides play their suits from the lowest rank up. -/
def wholeRound : List Call :=
  fourPlayers ++ CardValue.ranks.flatMap fun v =>
    [.playerTricked (v.trueVal - 1) ⟨v, .colorC⟩ 1, .playerTricked (v.trueVal - 1) ⟨v, .colorD⟩ 2,
      .playerTricked (v.trueVal - 1) ⟨v, .colorH⟩ 3, .playerTricked (v.trueVal - 1) ⟨v, .colorS⟩ 4]

theorem seats_of_guarded_fourPlayers :
    ∃ σ, exec step (started [suitRound] 5 suitRound) fourPlayers = some σ ∧ Seats σ := by
  have hsome : (exec step (started [suitRound] 5 suitRound) fourPlayers).isSome := by
    decide +kernel
  obtain ⟨σ, hσ⟩ := Option.isSome_iff_exists.mp hsome
  exact ⟨σ, hσ, (seats_of_guarded (start_cons suitRound [] 5) hσ (by decide +kernel)).1⟩

/-- The calls after which `N` has said `IAM` twice and its worker has been collected. -/
def secondIntro : List Call :=
  fourPlayers ++ [.playerTricked 1 ⟨.v2, .colorC⟩ 1, .playerTricked 1 ⟨.v2, .colorD⟩ 2,
    .playerIntro .N 1, .grandExitCallback [] 1 false, .grandExitCallback [] 1 false,
    .waitForClearing, .playerTricked 1 ⟨.v2, .colorH⟩ 3]

/-- After a second `IAM` a side names a worker without a seat, and the last card of the trick is
announced to a worker that is no longer there. -/
theorem not_seats_secondIntro :
    ∃ σ, run [suitRound] 5 secondIntro = some σ ∧ ¬ Seats σ ∧
      σ.playerTricked 1 ⟨.v2, .colorS⟩ 4 = .error .sendJobTarget := by
  have hfacts : (run [suitRound] 5 secondIntro).map (fun σ =>
      (σ.activeSides .N, σ.workerMgr.roles.find? 1,
        (σ.playerTricked 1 ⟨.v2, .colorS⟩ 4).map fun p => p.1)) =
      some (some 1, some .shutdown, .error .sendJobTarget) := by
    decide +kernel
  obtain ⟨σ, hσ, heq⟩ := Option.map_eq_some_iff.mp hfacts
  obtain ⟨hseat, hrole, hthrow⟩ : σ.activeSides .N = some 1 ∧
      σ.workerMgr.roles.find? 1 = some .shutdown ∧
      (σ.playerTricked 1 ⟨.v2, .colorS⟩ 4).map (fun p => p.1) = .error .sendJobTarget := by
    simpa using heq
  refine ⟨σ, hσ, fun hseats => ?_, ?_⟩
  · have hactive := (hseats.seat .N 1 hseat).1
    rw [hrole] at hactive
    cases hactive
  · cases htrick : σ.playerTricked 1 ⟨.v2, .colorS⟩ 4 with
    | error f => simpa [htrick, Except.map] using hthrow
    | ok p => simp [htrick, Except.map] at hthrow

end Server
end Kierki
