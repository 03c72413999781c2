import Kierki.Server.Threads

/-!
# Who is collected in the end

`IOWorker::run` ends with one more call of `exitCb`, whose answer it ignores.  `ExitGranted` is the
condition under which this call finds the worker handed over to the cleaner or hands it over; the
threads whose last call misses it leave their worker in `workers` for good.
-/

namespace Kierki

open Execution Fallible

namespace Server

open IOWorkerMgr

/-- `grandExitCallback` hands worker `ix` over, or has done so before. -/
def ExitGranted (σ : Server) (errs : List IOErrClass) (ix : Nat) (hasWork : Bool) : Prop :=
  match σ.workerMgr.roles.find? ix with
  | none => False
  | some .shutdown => True
  | some .servingUnknown | some .servingProxy => .internal ∉ errs
  | some .servingActive =>
      .internal ∉ errs ∧ hasWork = false ∧ (4 ≤ σ.playersConnected ∨ σ.exiting = true)
  | some .cleanup | some .cleanupUnknown =>
      .internal ∉ errs ∧ hasWork = false ∧ σ.playersConnected = 4

instance (σ : Server) (errs : List IOErrClass) (ix : Nat) (hasWork : Bool) :
    Decidable (ExitGranted σ errs ix hasWork) := by
  unfold ExitGranted
  split <;> infer_instance

theorem shutDown_ok {σ : Server} {ix : Nat} (hrole : (σ.workerMgr.roles.find? ix).isSome) :
    σ.shutDown ix = .ok (σ.erased ix) := by
  have hset : σ.workerMgr.setRole ix .shutdown = .ok (σ.workerMgr.withRole ix .shutdown) :=
    setRole_eq_ok.mpr ⟨hrole, rfl⟩
  rw [shutDown, hset]
  rfl

theorem exitErrors_ok (σ : Server) (errs : List IOErrClass) :
    ∃ ended σ', σ.exitErrors errs = .ok (ended, σ') := by
  induction errs with
  | nil => exact ⟨false, σ, rfl⟩
  | cons err errs ih =>
      by_cases herr : err = .internal
      · obtain ⟨σ', hσ'⟩ := finalize_ok { σ with exitCode := 1 }
        exact ⟨true, σ', by simp [exitErrors, handleSysErr, herr, hσ']⟩
      · obtain ⟨ended, σ', hσ'⟩ := ih
        exact ⟨ended, σ', by simp [exitErrors, handleSysErr, herr, hσ']⟩

/-- The exit of a worker never ends the process. -/
theorem SeatBook.exit_ok {σ : Server} (h : SeatBook σ) {ix : Nat}
    (hrole : (σ.workerMgr.roles.find? ix).isSome) (errs : List IOErrClass) (hasWork : Bool) :
    ∃ b σ', σ.grandExitCallback errs ix hasWork = .ok (b, σ') := by
  obtain ⟨ended, σ₁, hended⟩ := exitErrors_ok σ errs
  rcases exitErrors_eq_ok hended with ⟨rfl, -, rfl⟩ | ⟨rfl, -, -⟩
  · obtain ⟨role, hfind⟩ := Option.isSome_iff_exists.mp hrole
    have hget : σ₁.workerMgr.getRole ix = .ok role := getRole_eq_ok.mpr hfind
    have hshut : σ₁.shutDown ix = .ok (σ₁.erased ix) := shutDown_ok hrole
    cases role with
    | servingUnknown => exact ⟨true, _, by simp [grandExitCallback, hended, hget, hshut]; rfl⟩
    | servingActive =>
        -- a `SERVING_ACTIVE` worker has a seat, so that the look-up of its side succeeds
        obtain ⟨s, hs⟩ := h.active ix hfind
        have hside := (h.seat s ix hs).1
        have hshut' : (σ₁.unseated s ix).shutDown ix = .ok ((σ₁.unseated s ix).erased ix) :=
          shutDown_ok hrole
        have hset : σ₁.workerMgr.setRole ix .cleanup = .ok (σ₁.workerMgr.withRole ix .cleanup) :=
          setRole_eq_ok.mpr ⟨hrole, rfl⟩
        have hfree : require Fault.noSide (σ₁.workerToSide.find? ix) = .ok s := require_eq_ok.mpr hside
        by_cases hlater : hasWork = true ∨ (σ₁.playersConnected - 1 < 3 ∧ σ₁.exiting = false)
        · refine ⟨false, { σ₁.unseated s ix with workerMgr := σ₁.workerMgr.withRole ix .cleanup }, ?_⟩
          simp only [grandExitCallback, hended, ok_bind, hget, hfree, if_pos hlater, hset]
          rfl
        · refine ⟨true, (σ₁.unseated s ix).erased ix, ?_⟩
          unfold Server.unseated at hshut' ⊢
          simp only [grandExitCallback, hended, ok_bind, hget, hfree, if_neg hlater, hshut']
          rfl
    | servingProxy =>
        obtain ⟨σ', hσ'⟩ := finalize_ok (σ₁.erased ix)
        exact ⟨true, σ', by simp [grandExitCallback, hended, hget, hshut, hσ']⟩
    | cleanup | cleanupUnknown =>
        by_cases hgo : σ₁.playersConnected = 4 ∧ hasWork = false
        · exact ⟨true, _, by simp [grandExitCallback, hended, hget, hshut, hgo]; rfl⟩
        · exact ⟨false, σ₁, by simp [grandExitCallback, hended, hget, if_neg hgo]⟩
    | shutdown => exact ⟨true, σ₁, by simp [grandExitCallback, hended, hget]⟩
  · exact ⟨true, σ₁, by simp [grandExitCallback, hended]⟩

theorem SameSeats.handedOver {σ σ' : Server} (h : SameSeats σ σ') (ix : Nat) :
    HandedOver σ' ix ↔ HandedOver σ ix := by
  rw [HandedOver, HandedOver, h.toErase, h.registered ix]

/-- **What an exit does to its worker.** -/
theorem Effect.exit {σ σ' : Server} {errs : List IOErrClass} {ix : Nat} {hasWork b : Bool}
    (h : Effect σ (.grandExitCallback errs ix hasWork) b σ')
    (hretired : σ.workerMgr.roles.find? ix = some .shutdown → HandedOver σ ix) :
    (HandedOver σ' ix ∧ σ'.workerMgr.roles.find? ix = some .shutdown) ↔
      ExitGranted σ errs ix hasWork := by
  have herased : ∀ τ : Server, HandedOver (τ.erased ix) ix ∧
      (τ.erased ix).workerMgr.roles.find? ix = some .shutdown := by
    intro τ
    refine ⟨.inl (self_mem_eraseWorker _ ix), ?_⟩
    simp [erased, IOWorkerMgr.withRole]
  cases h with
  | exitInternal _ _ _ σ' herr hfin =>
      rw [hfin.sameSeats.roles, (hfin.sameSeats.handedOver ix)]
      show HandedOver σ ix ∧ σ.workerMgr.roles.find? ix = some .shutdown ↔ _
      constructor
      · rintro ⟨-, hrole⟩
        simp [ExitGranted, hrole]
      · -- with an internal error only a worker that was handed over before is
        intro hgo
        unfold ExitGranted at hgo
        split at hgo
        case h_2 hrole => exact ⟨hretired hrole, hrole⟩
        all_goals simp [herr] at hgo
  | exitUnknown _ _ _ herr hrole => simp [ExitGranted, hrole, herr, herased σ]
  | exitLeave _ _ _ s herr hrole hside hlater =>
      have hnot : ¬ ExitGranted σ errs ix hasWork := by
        simp only [ExitGranted, hrole]
        rintro ⟨-, hwork, hgo⟩
        rcases hlater with hlater | ⟨hfew, hexit⟩
        · simp [hwork] at hlater
        · rcases hgo with hgo | hgo
          · omega
          · simp [hexit] at hgo
      simp [hnot, unseated, IOWorkerMgr.withRole]
  | exitLeaveErased _ _ _ s herr hrole hside hnow =>
      have hgo : ExitGranted σ errs ix hasWork := by
        simp only [ExitGranted, hrole]
        refine ⟨herr, hnow.1, hnow.2.imp_left fun hmany => by omega⟩
      simp [hgo, herased (σ.unseated s ix)]
  | exitRefused _ _ _ role herr hrole hclean hlater =>
      have hnot : ¬ ExitGranted σ errs ix hasWork := by
        rcases hclean with rfl | rfl <;> simp only [ExitGranted, hrole]
        all_goals
          rintro ⟨-, hwork, hpc⟩
          rcases hlater with hlater | hlater
          · exact hlater hpc
          · simp [hwork] at hlater
      rcases hclean with rfl | rfl <;> simp [hnot, hrole]
  | exitErased _ _ _ role herr hrole hclean hnow =>
      rcases hclean with rfl | rfl <;> simp [ExitGranted, hrole, herr, hnow, herased σ]
  | exitDone _ _ _ herr hrole => simp [ExitGranted, hrole, hretired hrole]
  | exitProxy _ _ _ σ' herr hrole hfin =>
      rw [hfin.sameSeats.roles, (hfin.sameSeats.handedOver ix)]
      simp [ExitGranted, hrole, herr, herased σ]

/-- Who was handed over in this call has the role `SHUTDOWN`. -/
theorem Effect.exit_shutdown {σ σ' : Server} {errs : List IOErrClass} {ix : Nat} {hasWork b : Bool}
    (h : Effect σ (.grandExitCallback errs ix hasWork) b σ') (hmem : ix ∈ σ'.workerMgr.toErase) :
    ix ∈ σ.workerMgr.toErase ∨ σ'.workerMgr.roles.find? ix = some .shutdown := by
  cases h with
  | exitInternal _ _ _ σ' herr hfin => exact .inl (hfin.toErase ▸ hmem)
  | exitLeave | exitRefused | exitDone => exact .inl hmem
  | exitProxy _ _ _ σ' herr hrole hfin =>
      right
      rw [hfin.sameSeats.roles]
      simp [erased, IOWorkerMgr.withRole]
  | _ => exact .inr (by simp [erased, IOWorkerMgr.withRole])

end Server

namespace System

open IOWorker

/-- The worker was handed over and its role is `SHUTDOWN`. -/
def Collected (S : System) (ix : Nat) : Prop :=
  Server.HandedOver S.server ix ∧ S.server.workerMgr.roles.find? ix = some .shutdown

/-- A thread makes its last call, and the exit is not granted. -/
def LeftBehind (S : System) : Event → Prop
  | .cleaner => False
  | .worker ix _ _ =>
      match S.threads ix with
      | none => False
      | some w => w.stage = .last ∧ ¬ S.server.ExitGranted w.errs ix w.hasWork

instance (S : System) (ev : Event) : Decidable (LeftBehind S ev) := by
  unfold LeftBehind
  split
  · infer_instance
  · split <;> infer_instance

/-- A worker whose thread has ended is left alone. -/
theorem Turn.collected {S S' : System} {ev : Event} (h : Turn S ev S') {ix : Nat}
    (hknown : ix < S.server.workerMgr.nextIx) (hother : ∀ a closeFails, ev ≠ .worker ix a closeFails)
    (hcol : S.Collected ix) : S'.Collected ix := by
  rcases h.effect with hsame | ⟨e, b, hcall, heff⟩
  · rw [Collected, hsame]
    exact hcol
  · have hne : e.owner ≠ some ix := by
      intro hown
      obtain ⟨a, closeFails, hev⟩ := h.owner hcall hown
      exact hother a closeFails hev
    exact ⟨heff.handedOver (fun _ => hknown) hcol.1, (heff.roles_other hne hknown).trans hcol.2⟩

/-- **The last call of a thread** finds its worker handed over, or hands it over, just when the exit is
granted; it always returns, and the thread ends. -/
theorem last_turn {scenario : GameScenario} {timeout tcpListenSock : Int} {evs : List Event}
    {S : System} (h : run scenario timeout tcpListenSock evs = some S) {ix : Nat} {w : IOWorker}
    (hw : S.threads ix = some w) (hlast : w.stage = .last) (a : Answer) (closeFails : Bool) :
    ∃ S', S.step (.worker ix a closeFails) = some S' ∧ S'.threads ix = some (w.goto .done) ∧
      (S'.Collected ix ↔ S.server.ExitGranted w.errs ix w.hasWork) := by
  have hcrew := crewed_run h
  obtain ⟨b, σ', hexit⟩ := (seatBook_run h).exit_ok (hcrew.staffed ix (hcrew.known ix w hw)) w.errs w.hasWork
  have hact : S.action ix a closeFails =
      some (.call (.grandExitCallback w.errs ix w.hasWork) fun _ => w.goto .done) := by
    rw [action, hw, Option.bind_some, turn, hlast]
  have hstep : S.step (.worker ix a closeFails) =
      some ({ S with server := σ' }.setThread ix (w.goto .done)) := by
    have hhandle : S.server.handle (.grandExitCallback w.errs ix w.hasWork) = .ok (b, σ') := hexit
    simp only [step, hact, call, hhandle]
  refine ⟨_, hstep, setThread_self _ _ _, ?_⟩
  exact (Server.grandExitCallback_effect hexit).exit (hcrew.retired ix)

/-- **Every finished worker is collected**, as long as no thread makes its last call while its exit is
not granted; and a last call collects the worker just when its exit is granted. -/
theorem collected_of_guarded {scenario : GameScenario} {timeout tcpListenSock : Int}
    {evs : List Event} {S₀ S : System} (h₀ : start scenario timeout tcpListenSock = .ok S₀)
    (hevs : exec step S₀ evs = some S) :
    (∀ ix w a closeFails S', S.threads ix = some w → w.stage = .last →
      S.step (.worker ix a closeFails) = some S' →
      (S'.Collected ix ↔ S.server.ExitGranted w.errs ix w.hasWork)) ∧
    (Guarded step (fun S ev => ¬ LeftBehind S ev) S₀ evs →
      ∀ ix w, S.threads ix = some w → w.stage = .done → S.Collected ix) := by
  have hrun : run scenario timeout tcpListenSock evs = some S := run_eq_some.mpr ⟨S₀, h₀, hevs⟩
  constructor
  · intro ix w a closeFails S' hw hlast hstep
    obtain ⟨S'', hstep', -, hiff⟩ := last_turn hrun hw hlast a closeFails
    obtain rfl : S'' = S' := Option.some.inj (hstep'.symm.trans hstep)
    exact hiff
  · intro hguard
    refine guarded_invariant
      (I := fun S => ∀ ix w, S.threads ix = some w → w.stage = .done → S.Collected ix)
      h₀ hevs hguard ?_ ?_
    · intro ix w hw hdone
      obtain ⟨-, rfl⟩ := start_thread h₀ hw
      cases hdone
    · intro S ev S' hcrew hbook ih hgranted hstep ix w' hw' hdone
      have hturn := step_turn hstep
      rcases hturn.thread hw' with ⟨hw, hother⟩ |
        ⟨a, closeFails, w, act, b, rfl, hw, hmove, hcall, rfl, hact⟩ | ⟨-, -, fd, rfl⟩
      · exact hturn.collected (hcrew.known ix w' hw) hother (ih ix w' hw hdone)
      · -- the thread has ended in this turn
        have hlast : w.stage = .last := hmove.ended b hdone
        have hgo : S.server.ExitGranted w.errs ix w.hasWork := by
          by_contra hnot
          exact hgranted (by simp [LeftBehind, hw, hlast, hnot])
        cases hmove with
        | lastExit _ =>
            have heff := Server.handle_effect (hact _ rfl)
            exact (heff.exit (hcrew.retired ix)).mpr hgo
        | _ => simp_all
      · cases hdone

/-- A connection is accepted, and its other end closes it at once. -/
def comesAndGoes : List Event :=
  [.worker 0 (.fcntl false false) false, .worker 0 .pollReady false, .worker 0 .pipeEmpty false,
    .worker 0 (.accepted 11) false, .worker 1 (.fcntl false false) false, .worker 1 .pollReady false,
    .worker 1 .pipeEmpty false, .worker 1 .recvEnd false, .worker 1 .go false, .worker 1 .go false,
    .worker 1 .go false, .worker 1 .go false, .worker 1 .go false, .worker 1 .go false]

theorem collected_of_guarded_comesAndGoes :
    ∃ S w, exec step (started [suitRound] 5 3 suitRound) comesAndGoes = some S ∧
      S.threads 1 = some w ∧ w.stage = .done ∧ S.Collected 1 := by
  have hfacts : (exec step (started [suitRound] 5 3 suitRound) comesAndGoes).bind
      (fun S => (S.threads 1).map fun w => w.stage) = some .done := by decide +kernel
  obtain ⟨S, hS, hthread⟩ := Option.bind_eq_some_iff.mp hfacts
  obtain ⟨w, hw, hdone⟩ := Option.map_eq_some_iff.mp hthread
  have hcol := (collected_of_guarded (start_cons suitRound [] 5 3) hS).2 (by decide +kernel)
  exact ⟨S, w, hS, hw, hdone, hcol 1 w hw hdone⟩

/-- The turns of the accepting thread, up to its end after a failed read from its pipe. -/
def brokenPipe : List Event :=
  [.worker 0 (.fcntl false false) false, .worker 0 .pollReady false, .worker 0 .pipeFailed false,
    .worker 0 .go false]

/-- An accepting thread whose pipe cannot be read ends, and its worker stays where it is. -/
theorem not_collected_brokenPipe :
    ∃ S w, run [suitRound] 5 3 brokenPipe = some S ∧ S.threads 0 = some w ∧ w.stage = .done ∧
      ¬ Server.HandedOver S.server 0 := by
  have hfacts : (run [suitRound] 5 3 brokenPipe).bind (fun S => (S.threads 0).map fun w =>
      (w.stage, S.server.workerMgr.toErase, (S.server.workerMgr.workers.find? 0).isSome)) =
      some (.done, [], true) := by decide +kernel
  obtain ⟨S, hS, hthread⟩ := Option.bind_eq_some_iff.mp hfacts
  obtain ⟨w, hw, heq⟩ := Option.map_eq_some_iff.mp hthread
  obtain ⟨hdone, hrest⟩ := Prod.mk.inj heq
  obtain ⟨hwaiting, hreg⟩ := Prod.mk.inj hrest
  refine ⟨S, w, hS, hw, hdone, ?_⟩
  simp [Server.HandedOver, IOWorkerMgr.Registered, hwaiting, hreg]

end System

namespace Server

/-- Only a worker that leaves its seat comes to a side it once had. -/
theorem Effect.zombies {σ σ' : Server} {e : Call} {b : Bool} (h : Effect σ e b σ') {ix : Nat}
    (hnew : σ'.zombieWorkerToSide.find? ix ≠ σ.zombieWorkerToSide.find? ix) :
    ∃ errs hasWork, e = .grandExitCallback errs ix hasWork := by
  have hfinal {τ τ' : Server} (hfin : Finalized τ τ') : τ'.zombieWorkerToSide = τ.zombieWorkerToSide := by
    cases hfin <;> rfl
  cases h with
  | exitLeave errs jx hasWork s | exitLeaveErased errs jx hasWork s =>
      refine ⟨errs, hasWork, ?_⟩
      by_contra hne
      have hix : ix ≠ jx := fun heq => hne (heq ▸ rfl)
      exact hnew (by simp [unseated, erased, hix])
  | trickProxy n card jx σ' _ _ hfin | exitInternal errs jx hasWork σ' _ hfin
  | exitProxy errs jx hasWork σ' _ _ hfin =>
      rw [hfinal hfin] at hnew
      exact absurd rfl hnew
  | trickAccepted n card jx side σ' _ _ _ hacc =>
      cases hacc with
      | gameDone g₀ g₁ g mgr out σ' _ _ _ _ _ _ _ _ hfin =>
          rw [hfinal hfin] at hnew
          exact absurd rfl hnew
      | _ => exact absurd rfl hnew
  | _ => exact absurd rfl hnew

end Server

namespace IOWorker

variable {σ : Server} {ix : Nat} {w : IOWorker} {act : Action}

/-- A thread that comes to an exit from within the loop wants to quit. -/
def Leaves (w : IOWorker) : Prop :=
  w.stage = .pollFailed ∨ w.peerCorrupted = true → w.wantToToQuit = true

/-- A thread that has no message to offer any more. -/
def Silent (w : IOWorker) : Prop :=
  w.stage = .last ∨ w.stage = .done ∨ (w.wantToToQuit = true ∧ w.stage ≠ .offer)

/-- A thread does not change its mind. -/
theorem Move.wantToToQuit (h : w.Move σ ix act) (hquit : w.wantToToQuit = true) (b : Bool) :
    (act.next b).wantToToQuit = true := by
  cases h with
  | started pipeFails mainFails => cases pipeFails <;> cases mainFails <;> exact hquit
  | received c closeFails hstage hwant => rw [hwant] at hquit; cases hquit
  | offerInvalid | offerIntro | offerTrick | pollExit | corruptedExit | leaveExit =>
      cases b <;> first | exact hquit | rfl
  | sent | sentLast =>
      cases b
      · exact hquit
      · show (transmit _ _ _ _ _).wantToToQuit = true
        unfold transmit
        split
        · exact hquit
        · rfl
  | pollFailed | recvEnd | recvFailed | closed => rfl
  | _ => exact hquit

/-- A peer that is found corrupt is cut off at once. -/
theorem Move.corrupted (h : w.Move σ ix act) (b : Bool) (hcorrupted : (act.next b).peerCorrupted = true) :
    w.peerCorrupted = true ∨ (act.next b).wantToToQuit = true := by
  cases h with
  | started pipeFails mainFails => cases pipeFails <;> cases mainFails <;> exact .inl hcorrupted
  | received c closeFails =>
      revert hcorrupted
      show (w.receive c closeFails).peerCorrupted = true →
        w.peerCorrupted = true ∨ (w.receive c closeFails).wantToToQuit = true
      unfold receive
      dsimp only
      split
      · exact fun _ => .inr rfl
      · split <;> exact .inl
  | offerInvalid | offerIntro | offerTrick | pollExit | corruptedExit | leaveExit =>
      cases b <;> exact .inl hcorrupted
  | sent job rest n closeFails | sentLast job rest n closeFails =>
      cases b
      · exact .inl hcorrupted
      · revert hcorrupted
        show (w.transmit job rest n closeFails).peerCorrupted = true → _
        unfold transmit
        split <;> exact .inl
  | _ => exact .inl hcorrupted

theorem Move.leaves (h : w.Move σ ix act) (hleaves : w.Leaves) (b : Bool) : (act.next b).Leaves := by
  rintro (hstage | hcorrupted)
  · -- only a failed `poll` leads there, and it closes the connection
    have hmem := h.successor b
    rw [hstage] at hmem
    have hpoll : w.stage = .poll := by cases hw : w.stage <;> simp_all [successors]
    cases h with
    | pollFailed => rfl
    | pollExpired | pollReady => cases hstage
    | _ => simp_all
  · rcases h.corrupted b hcorrupted with hold | hquit
    · exact h.wantToToQuit (hleaves (.inr hold)) b
    · exact hquit

theorem Move.silent (h : w.Move σ ix act) (hsilent : w.Silent) (b : Bool) : (act.next b).Silent := by
  have hmem := h.successor b
  rcases hsilent with hlast | hdone | ⟨hquit, hoffer⟩
  · rw [hlast] at hmem
    exact .inr (.inl (List.mem_singleton.mp hmem))
  · rw [hdone] at hmem
    cases hmem
  · refine .inr (.inr ⟨h.wantToToQuit hquit b, fun hnext => ?_⟩)
    rw [hnext] at hmem
    -- it would have to come from the socket, which it does not read any more
    have hsocket : w.stage = .socket := by cases hw : w.stage <;> simp_all [successors]
    cases h with
    | quitting | acceptBlocked | accepted => cases hnext
    | _ => simp_all

/-- Behind a call of `exitCb` there is nothing to offer. -/
theorem Move.silent_exit (h : w.Move σ ix act) (hleaves : w.Leaves) {errs : List IOErrClass} {hasWork : Bool}
    (he : act.call? = some (.grandExitCallback errs ix hasWork)) (b : Bool) : (act.next b).Silent := by
  have hmem := h.successor b
  cases h with
  | lastExit => exact .inr (.inl rfl)
  | pollExit hstage =>
      have hquit := hleaves (.inl hstage)
      refine (Move.pollExit hstage : w.Move σ ix _).silent (.inr (.inr ⟨hquit, ?_⟩)) b
      simp [hstage]
  | corruptedExit hstage hpeer =>
      have hquit := hleaves (.inr hpeer)
      refine (Move.corruptedExit hstage hpeer : w.Move σ ix _).silent (.inr (.inr ⟨hquit, ?_⟩)) b
      simp [hstage]
  | leaveExit hstage hquit =>
      refine (Move.leaveExit hstage hquit : w.Move σ ix _).silent (.inr (.inr ⟨hquit, ?_⟩)) b
      simp [hstage]
  | _ => cases he

end IOWorker

namespace System

open IOWorker

/-- A call is made by a thread. -/
theorem callOf_eq_some {S : System} {ix : Nat} {a : Answer} {closeFails : Bool} {e : Server.Call}
    (h : S.callOf (.worker ix a closeFails) = some e) :
    ∃ w act, S.threads ix = some w ∧ w.Move S.server ix act ∧ act.call? = some e := by
  obtain ⟨act, hact, he⟩ := Option.bind_eq_some_iff.mp h
  obtain ⟨w, hw, hturn⟩ := Option.bind_eq_some_iff.mp hact
  exact ⟨w, act, hw, turn_move hturn, he⟩

/-- A worker that has been on a side is silent. -/
structure Hushed (S : System) : Prop where
  leaves : ∀ ix w, S.threads ix = some w → w.Leaves
  ghosts : ∀ ix, S.server.zombieWorkerToSide.find? ix ≠ none →
    ix < S.server.workerMgr.nextIx ∧ ∀ w, S.threads ix = some w → w.Silent

theorem Hushed.turn {S S' : System} {ev : Event} (h : Hushed S) (hcrew : Crewed S) (hturn : Turn S ev S') :
    Hushed S' := by
  constructor
  case leaves =>
    intro ix w' hw'
    rcases hturn.thread hw' with ⟨hw, -⟩ | ⟨a, closeFails, w, act, b, -, hw, hmove, -, rfl, -⟩ | ⟨-, -, fd, rfl⟩
    · exact h.leaves ix w' hw
    · exact hmove.leaves (h.leaves ix w hw) b
    · rintro (hstage | hcorrupted)
      · cases hstage
      · cases hcorrupted
  case ghosts =>
    intro ix hghost
    by_cases hold : S.server.zombieWorkerToSide.find? ix = none
    · -- the seat is left in this turn
      rcases hturn.effect with hsame | ⟨e, b, hcall, heff⟩
      · rw [hsame] at hghost
        exact absurd hold hghost
      · obtain ⟨errs, hasWork, rfl⟩ := heff.zombies fun heq => hghost (heq.trans hold)
        obtain ⟨a, closeFails, rfl⟩ := hturn.owner hcall rfl
        obtain ⟨w, -, hw, -⟩ := callOf_eq_some hcall
        refine ⟨(hcrew.known ix w hw).trans_le hturn.nextIx, fun w' hw' => ?_⟩
        rcases hturn.thread hw' with ⟨-, hother⟩ | ⟨_, _, w, act, b, -, hw, hmove, hact, rfl, -⟩ | ⟨-, hnew, -⟩
        · exact absurd rfl (hother a closeFails)
        · exact hmove.silent_exit (h.leaves ix w hw) (hact.symm.trans hcall) b
        · rw [hcall] at hnew
          cases hnew
    · obtain ⟨hknown, hsilent⟩ := h.ghosts ix hold
      refine ⟨hknown.trans_le hturn.nextIx, fun w' hw' => ?_⟩
      rcases hturn.thread hw' with ⟨hw, -⟩ | ⟨a, closeFails, w, act, b, -, hw, hmove, -, rfl, -⟩ | ⟨rfl, -⟩
      · exact hsilent w' hw
      · exact hmove.silent (hsilent w hw) b
      · exact absurd hknown (Nat.lt_irrefl _)

theorem hushed_run {scenario : GameScenario} {timeout tcpListenSock : Int} {evs : List Event} {S : System}
    (h : run scenario timeout tcpListenSock evs = some S) : Hushed S := by
  have hboth : Crewed S ∧ Hushed S := by
    refine run_invariant (I := fun S => Crewed S ∧ Hushed S) (fun S₀ h₀ => ⟨crewed_start h₀, ?_⟩)
      (fun S ev S' hbook hinv hturn => ⟨hinv.1.turn hbook hturn, hinv.2.turn hinv.1 hturn⟩) h
    obtain ⟨r, -, hstarted⟩ := Server.start_eq_ok (start_eq_ok h₀).1
    refine ⟨fun ix w hw => ?_, fun ix hghost => ?_⟩
    · obtain ⟨-, rfl⟩ := start_thread h₀ hw
      rintro (hstage | hcorrupted)
      · cases hstage
      · cases hcorrupted
    · rw [hstarted] at hghost
      exact absurd rfl hghost
  exact hboth.2

/-- **A worker that has lost its side offers nothing for it**: a card that is put for a side comes from the
worker that has the seat. -/
theorem silent_zombie {scenario : GameScenario} {timeout tcpListenSock : Int} {evs : List Event} {S : System}
    (h : run scenario timeout tcpListenSock evs = some S) {ev : Event} {n : Nat} {card : Card} {ix : Nat} {s : Side}
    (hcall : S.callOf ev = some (.playerTricked n card ix)) (hside : S.server.sideOf ix = some s) :
    S.server.activeSides s = some ix := by
  have hbook := seatBook_run h
  cases ev with
  | cleaner => cases hcall
  | worker jx a closeFails =>
      obtain ⟨w, act, hw, hmove, he⟩ := callOf_eq_some hcall
      obtain rfl := hmove.owner he rfl
      have hoffer : w.stage = .offer := by
        cases hmove with
        | offerTrick _ _ _ _ hstage => exact hstage
        | _ => cases he
      -- so it is no zombie
      have hnever : S.server.zombieWorkerToSide.find? ix = none := by
        by_contra hghost
        have hsilent := ((hushed_run h).ghosts ix hghost).2 w hw
        simp [Silent, hoffer] at hsilent
      unfold Server.sideOf at hside
      split at hside
      · rename_i hrole
        obtain ⟨t, ht⟩ := hbook.active ix hrole
        obtain rfl := Option.some.inj (hside.symm.trans (hbook.seat t ix ht).1)
        exact ht
      · rw [hnever] at hside
        cases hside
      · cases hside

end System

end Kierki
