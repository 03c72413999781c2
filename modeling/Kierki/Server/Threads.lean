import Kierki.Server.Delivery
import Kierki.Server.Frame
import Kierki.Server.System

/-!
# Threads and the calls they make

A call comes from the thread of the worker it names, so the role of a worker and its entry in the list
of the cleaner change in its own turns only.  `Crewed` is what every run keeps: a thread that is still
in its loop belongs to a worker that is registered and does not wait for the cleaner.
-/

namespace Kierki

open Execution

namespace Server

open IOWorkerMgr

/-- The worker whose thread makes a call. -/
def Call.owner : Call → Option Nat
  | .playerIntro _ ix | .playerTricked _ _ ix | .handleTimeout ix | .handleWrongMessage ix
  | .grandExitCallback _ ix _ | .popNextJob ix | .handlePipe ix => some ix
  | .execMutexed | .forwardConnection | .waitForClearing => none

/-- Worker `ix` was handed to `eraseWorker`: the cleaner will collect it, or has done so. -/
def HandedOver (σ : Server) (ix : Nat) : Prop :=
  ix ∈ σ.workerMgr.toErase ∨ ¬ σ.workerMgr.Registered ix

theorem withRole_find?_of_ne (m : IOWorkerMgr) {ix jx : Nat} (role : WorkerStatus) (h : jx ≠ ix) :
    (m.withRole ix role).roles.find? jx = m.roles.find? jx := by
  simp [IOWorkerMgr.withRole, h]

/-- Only the thread of a worker changes the role of the worker. -/
theorem Effect.roles_other {σ σ' : Server} {e : Call} {b : Bool} (h : Effect σ e b σ') {ix : Nat}
    (hne : e.owner ≠ some ix) (hix : ix < σ.workerMgr.nextIx) :
    σ'.workerMgr.roles.find? ix = σ.workerMgr.roles.find? ix := by
  have hother : ∀ {jx : Nat}, e.owner = some jx → ix ≠ jx := fun hown heq => hne (heq ▸ hown)
  cases h.recast with
  | same _ _ _ hroles => rw [hroles]
  | introduced _ jx _ _ _ _ hroles | tricked _ _ jx _ _ hroles | exited _ jx _ _ _ _ _ hroles =>
      rw [hroles, withRole_find?_of_ne _ _ (hother rfl)]
  | came _ _ hroles =>
      -- the new worker has an index of its own
      rw [hroles, UnorderedMap.find?_insert, if_neg hix.ne]

/-- Worker `ix` is still there or still gone, and exactly the jobs `msgs` were enqueued for it. -/
structure Appended (m m' : IOWorkerMgr) (ix : Nat) (msgs : List SendJob) : Prop where
  inbox : inbox m'.sent ix = inbox m.sent ix ++ msgs
  queue : ∀ q, m.workers.find? ix = some q →
    ∃ q', m'.workers.find? ix = some q' ∧ q'.jobsPending = q.jobsPending ++ msgs
  absent : ¬ m.Registered ix → ¬ m'.Registered ix ∧ msgs = []

theorem appended_of_eq {m m' : IOWorkerMgr} {ix : Nat}
    (hworker : m'.workers.find? ix = m.workers.find? ix) (hsent : m'.sent = m.sent) :
    Appended m m' ix [] where
  inbox := by rw [hsent, List.append_nil]
  queue := fun q hq => ⟨q, hworker.trans hq, (List.append_nil _).symm⟩
  absent := fun hgone => ⟨by rwa [Registered, hworker], rfl⟩

theorem Appended.of_withRole {m m' : IOWorkerMgr} {ix jx : Nat} {role : WorkerStatus}
    {msgs : List SendJob} (h : Appended (m.withRole jx role) m' ix msgs) : Appended m m' ix msgs :=
  ⟨h.inbox, h.queue, h.absent⟩

theorem Appended.trans {m₁ m₂ m₃ : IOWorkerMgr} {ix : Nat} {msgs msgs' : List SendJob}
    (h : Appended m₁ m₂ ix msgs) (h' : Appended m₂ m₃ ix msgs') :
    Appended m₁ m₃ ix (msgs ++ msgs') where
  inbox := by rw [h'.inbox, h.inbox, List.append_assoc]
  queue := by
    intro q hq
    obtain ⟨q₂, hq₂, hjobs₂⟩ := h.queue q hq
    obtain ⟨q₃, hq₃, hjobs₃⟩ := h'.queue q₂ hq₂
    exact ⟨q₃, hq₃, by rw [hjobs₃, hjobs₂, List.append_assoc]⟩
  absent := by
    intro hgone
    obtain ⟨hgone₂, rfl⟩ := h.absent hgone
    obtain ⟨hgone₃, rfl⟩ := h'.absent hgone₂
    exact ⟨hgone₃, rfl⟩

theorem appended_of_posted {m m' : IOWorkerMgr} {out : List (Nat × SendJob)} (h : Posted m m' out)
    (ix : Nat) : Appended m m' ix (inbox out ix) where
  inbox := by rw [h.sent, inbox_append]
  queue := h.queue ix
  absent := by
    intro hgone
    refine ⟨fun hreg => hgone ((h.registered ix).mp hreg), ?_⟩
    rw [List.eq_nil_iff_forall_not_mem]
    intro msg hmsg
    exact hgone (h.addressee _ (mem_inbox.mp hmsg))

theorem Finalized.appended {σ σ' : Server} (h : Finalized σ σ') (ix : Nat) :
    Appended σ.workerMgr σ'.workerMgr ix [] := by
  cases h with
  | again _ => exact appended_of_eq rfl rfl
  | now _ mgr hpost _ =>
      have hmail := appended_of_posted hpost ix
      exact ⟨hmail.inbox, hmail.queue, hmail.absent⟩

theorem Accepted.appended {σ σ' : Server} {side : Side} {card : Card} (h : Accepted σ side card σ')
    (ix : Nat) : ∃ msgs, Appended σ.workerMgr σ'.workerMgr ix msgs := by
  cases h with
  | inTrick g mgr out _ _ hpost _ => exact ⟨_, appended_of_posted hpost ix⟩
  | trickDone g₀ g mgr out _ _ _ _ hpost _ => exact ⟨_, appended_of_posted hpost ix⟩
  | roundDone g₀ g₁ g r mgr out _ _ _ _ _ _ _ hpost _ => exact ⟨_, appended_of_posted hpost ix⟩
  | gameDone g₀ g₁ g mgr out σ' _ _ _ _ _ _ hpost _ hfin =>
      exact ⟨_, (appended_of_posted hpost ix).trans (hfin.appended ix)⟩

theorem appended_erased (σ : Server) (ix jx : Nat) :
    Appended σ.workerMgr (σ.erased ix).workerMgr jx [] := by
  exact appended_of_eq (congrArg (UnorderedMap.find? · jx) (eraseWorker_workers _ ix)) (erased_sent σ ix)

/-- Jobs leave a queue when its own thread takes them, or together with the worker. -/
theorem Effect.appended {σ σ' : Server} {e : Call} {b : Bool} (h : Effect σ e b σ') {ix : Nat}
    (hold : e = .forwardConnection → ix < σ.workerMgr.nextIx) (hpop : e ≠ .popNextJob ix) (hclear : e ≠ .waitForClearing) :
    ∃ msgs, Appended σ.workerMgr σ'.workerMgr ix msgs := by
  cases h with
  | introAgain side jx role mgr _ _ _ hpost _ _ => exact ⟨_, (appended_of_posted hpost ix).of_withRole⟩
  | introBusy side jx kx mgr _ _ hpost => exact ⟨_, (appended_of_posted hpost ix).of_withRole⟩
  | introFirstDeal side jx mgr out _ _ _ _ hpost _ => exact ⟨_, (appended_of_posted hpost ix).of_withRole⟩
  | introRejoin side jx deal mgr out _ _ _ _ hpost _ => exact ⟨_, (appended_of_posted hpost ix).of_withRole⟩
  | introResume side jx deal mgr out _ _ _ _ hpost _ _ => exact ⟨_, (appended_of_posted hpost ix).of_withRole⟩
  | trickUnknown n card jx mgr _ _ hpost _ _ => exact ⟨_, (appended_of_posted hpost ix).of_withRole⟩
  | trickProxy n card jx σ' _ _ hfin => exact ⟨_, (hfin.appended ix).of_withRole⟩
  | trickRejected n card jx kx side mgr _ _ _ _ hpost => exact ⟨_, appended_of_posted hpost ix⟩
  | trickAccepted n card jx side σ' _ _ _ hacc => exact hacc.appended ix
  | timeoutKill jx mgr _ _ hpost _ _ => exact ⟨_, appended_of_posted hpost ix⟩
  | timeoutPrompt jx mgr _ _ _ _ hpost => exact ⟨_, appended_of_posted hpost ix⟩
  | wrongKill jx mgr _ hpost _ _ => exact ⟨_, appended_of_posted hpost ix⟩
  | exitInternal errs jx hasWork σ' _ hfin => exact ⟨_, hfin.appended ix⟩
  | exitUnknown errs jx hasWork _ _ => exact ⟨_, appended_erased σ jx ix⟩
  | exitLeaveErased errs jx hasWork s _ _ _ _ => exact ⟨_, appended_erased (σ.unseated s jx) jx ix⟩
  | exitErased errs jx hasWork role _ _ _ _ => exact ⟨_, appended_erased σ jx ix⟩
  | exitProxy errs jx hasWork σ' _ _ hfin => exact ⟨_, (appended_erased σ jx ix).trans (hfin.appended ix)⟩
  | connected =>
      have hnew : ix ≠ σ.workerMgr.nextIx := (hold rfl).ne
      exact ⟨_, appended_of_eq (by simp [forwardConnection, spawnNewWorker, hnew]) rfl⟩
  | popped jx q job rest hq _ =>
      have hne : ix ≠ jx := fun heq => hpop (by rw [heq])
      exact ⟨_, appended_of_eq (by simp [hne]) rfl⟩
  | cleared => exact absurd rfl hclear
  | _ => exact ⟨_, appended_of_eq rfl rfl⟩

/-- The cleaner keeps a queue as it is or takes it away with the worker. -/
theorem waitForClearing_find? (m : IOWorkerMgr) (ix : Nat) :
    m.waitForClearing.workers.find? ix = m.workers.find? ix ∨
      (ix ∈ m.toErase ∧ m.waitForClearing.workers.find? ix = none) := by
  unfold waitForClearing
  split
  · exact .inl rfl
  · show (m.toErase.reverse.foldl UnorderedMap.erase m.workers).find? ix = _ ∨
      ix ∈ m.toErase ∧ (m.toErase.reverse.foldl UnorderedMap.erase m.workers).find? ix = none
    rw [UnorderedMap.find?_foldl_erase]
    by_cases hix : ix ∈ m.toErase <;> simp [hix]

/-- A worker that is not waiting for the cleaner stays registered. -/
theorem Effect.registered {σ σ' : Server} {e : Call} {b : Bool} (h : Effect σ e b σ') {ix : Nat}
    (hreg : σ.workerMgr.Registered ix) (hix : ix < σ.workerMgr.nextIx)
    (hwait : ix ∉ σ.workerMgr.toErase) : σ'.workerMgr.Registered ix := by
  obtain ⟨q, hq⟩ := Option.isSome_iff_exists.mp hreg
  by_cases hpop : e = .popNextJob ix
  · subst hpop
    cases h with
    | popped _ q' job rest hq' _ => simp [Registered]
  by_cases hclear : e = .waitForClearing
  · subst hclear
    cases h with
    | cleared =>
        rcases waitForClearing_find? σ.workerMgr ix with hsame | ⟨hmem, -⟩
        · rwa [Registered, hsame]
        · exact absurd hmem hwait
  obtain ⟨msgs, hmsgs⟩ := h.appended (fun _ => hix) hpop hclear
  obtain ⟨q', hq', -⟩ := hmsgs.queue q hq
  rw [Registered, hq']
  rfl

/-- Who waits for the cleaner goes on waiting, or has been collected. -/
theorem Effect.waiting {σ σ' : Server} {e : Call} {b : Bool} (h : Effect σ e b σ') {ix : Nat}
    (hwait : ix ∈ σ.workerMgr.toErase) : HandedOver σ' ix := by
  have hkept : ∀ {jx : Nat} (τ : Server), ix ∈ τ.workerMgr.toErase →
      ix ∈ (τ.erased jx).workerMgr.toErase := by
    exact fun τ hmem => mem_eraseWorker.mpr (.inl hmem)
  cases h with
  | introAgain side jx role mgr _ _ _ hpost _ _ => exact .inl (hpost.toErase.symm ▸ hwait)
  | introBusy side jx kx mgr _ _ hpost => exact .inl (hpost.toErase.symm ▸ hwait)
  | introFirstDeal side jx mgr out _ _ _ _ hpost _ => exact .inl (hpost.toErase.symm ▸ hwait)
  | introRejoin side jx deal mgr out _ _ _ _ hpost _ => exact .inl (hpost.toErase.symm ▸ hwait)
  | introResume side jx deal mgr out _ _ _ _ hpost _ _ => exact .inl (hpost.toErase.symm ▸ hwait)
  | trickUnknown n card jx mgr _ _ hpost _ _ => exact .inl (hpost.toErase.symm ▸ hwait)
  | trickProxy n card jx σ' _ _ hfin => exact .inl (hfin.toErase.symm ▸ hwait)
  | trickRejected n card jx kx side mgr _ _ _ _ hpost => exact .inl (hpost.toErase.symm ▸ hwait)
  | trickAccepted n card jx side σ' _ _ _ hacc => exact .inl (hacc.toErase.symm ▸ hwait)
  | timeoutKill jx mgr _ _ hpost _ _ => exact .inl (hpost.toErase.symm ▸ hwait)
  | timeoutPrompt jx mgr _ _ _ _ hpost => exact .inl (hpost.toErase.symm ▸ hwait)
  | wrongKill jx mgr _ hpost _ _ => exact .inl (hpost.toErase.symm ▸ hwait)
  | exitInternal errs jx hasWork σ' _ hfin => exact .inl (hfin.toErase.symm ▸ hwait)
  | exitUnknown errs jx hasWork _ _ | exitErased errs jx hasWork role _ _ _ _ =>
      exact .inl (hkept σ hwait)
  | exitLeaveErased errs jx hasWork s _ _ _ _ => exact .inl (hkept (σ.unseated s jx) hwait)
  | exitProxy errs jx hasWork σ' _ _ hfin => exact .inl (hfin.toErase.symm ▸ hkept σ hwait)
  | cleared =>
      show ix ∈ (waitForClearing _).toErase ∨ ¬ Registered (waitForClearing _) ix
      unfold waitForClearing
      split
      · exact .inl hwait
      · right
        unfold Registered
        rw [UnorderedMap.find?_foldl_erase, if_pos (by simpa using hwait)]
        simp
  | _ => exact .inl hwait

/-- Nobody comes back who was collected. -/
theorem Effect.absent {σ σ' : Server} {e : Call} {b : Bool} (h : Effect σ e b σ') {ix : Nat}
    (hold : e = .forwardConnection → ix < σ.workerMgr.nextIx) (hgone : ¬ σ.workerMgr.Registered ix) :
    ¬ σ'.workerMgr.Registered ix := by
  by_cases hpop : e = .popNextJob ix
  · subst hpop
    cases h with
    | popped _ q job rest hq _ => exact absurd (by simp [Registered, hq]) hgone
  by_cases hclear : e = .waitForClearing
  · subst hclear
    cases h with
    | cleared =>
        show ¬ Registered (waitForClearing _) ix
        rcases waitForClearing_find? σ.workerMgr ix with hsame | ⟨-, hnone⟩
        · rwa [Registered, hsame]
        · rw [Registered, hnone]
          simp
  obtain ⟨msgs, hmsgs⟩ := h.appended hold hpop hclear
  exact (hmsgs.absent hgone).1

/-- Who was handed over stays so. -/
theorem Effect.handedOver {σ σ' : Server} {e : Call} {b : Bool} (h : Effect σ e b σ') {ix : Nat}
    (hold : e = .forwardConnection → ix < σ.workerMgr.nextIx) (hover : HandedOver σ ix) :
    HandedOver σ' ix := by
  rcases hover with hwait | hgone
  · exact h.waiting hwait
  · exact .inr (h.absent hold hgone)

theorem withRole_shutdown {m : IOWorkerMgr} {ix jx : Nat} {role : WorkerStatus}
    (hne : role ≠ .shutdown) (h : (m.withRole jx role).roles.find? ix = some .shutdown) :
    m.roles.find? ix = some .shutdown := by
  by_cases hix : ix = jx
  · have heq : role = .shutdown := by simpa [IOWorkerMgr.withRole, hix] using h
    exact absurd heq hne
  · rwa [withRole_find?_of_ne m role hix] at h

/-- A worker gets the role `SHUTDOWN` in the call that hands it over. -/
theorem Effect.shutdown {σ σ' : Server} {e : Call} {b : Bool} (h : Effect σ e b σ') {ix : Nat}
    (hrole : σ'.workerMgr.roles.find? ix = some .shutdown) :
    σ.workerMgr.roles.find? ix = some .shutdown ∨ ix ∈ σ'.workerMgr.toErase := by
  cases h.recast with
  | same _ _ _ hroles => exact .inl (hroles ▸ hrole)
  | introduced _ jx new _ _ hnew hroles =>
      rw [hroles] at hrole
      refine .inl (withRole_shutdown ?_ hrole)
      rcases hnew with rfl | rfl | ⟨rfl, -⟩ <;> decide
  | tricked _ _ jx _ _ hroles =>
      rw [hroles] at hrole
      exact .inl (withRole_shutdown (by decide) hrole)
  | exited _ jx _ new _ _ hnew hroles =>
      rw [hroles] at hrole
      rcases hnew with rfl | ⟨rfl, hwait⟩
      · exact .inl (withRole_shutdown (by decide) hrole)
      by_cases hix : ix = jx
      · subst hix
        exact .inr hwait
      · exact .inl (by rwa [withRole_find?_of_ne _ _ hix] at hrole)
  | came _ _ hroles =>
      rw [hroles, UnorderedMap.find?_insert] at hrole
      split at hrole
      · cases hrole
      · exact .inl hrole

end Server

namespace IOWorker

/-- A turn calls the server for its own worker. -/
theorem Move.owner {σ : Server} {ix : Nat} {w : IOWorker} {act : Action} (h : w.Move σ ix act)
    {e : Server.Call} (he : act.call? = some e) {jx : Nat} (hjx : e.owner = some jx) : jx = ix := by
  cases h with
  | sent | sentLast | accepted =>
      obtain rfl := Option.some.inj he
      cases hjx
  | expired | pollExit | piped | offerInvalid | offerIntro | offerTrick | corruptedExit | fetched
  | leaveExit | overdue | lastExit =>
      obtain rfl := Option.some.inj he
      exact (Option.some.inj hjx).symm
  | _ => cases he

/-- A thread leaves its loop when it is allowed to go. -/
theorem Move.allowed {σ : Server} {ix : Nat} {w : IOWorker} {act : Action} (h : w.Move σ ix act)
    {errs : List IOErrClass} {hasWork : Bool}
    (he : act.call? = some (.grandExitCallback errs ix hasWork)) :
    (act.next true).stage = .last ∨ (act.next true).stage = .done := by
  cases h with
  | pollExit | corruptedExit | leaveExit => exact .inl rfl
  | lastExit => exact .inr rfl
  | _ => cases he

/-- A thread that may still go round its loop, or through the callbacks on the way out of it. -/
def Looping (w : IOWorker) : Prop := w.stage ≠ .last ∧ w.stage ≠ .done

/-- Nobody comes back to the loop. -/
theorem Move.looping {σ : Server} {ix : Nat} {w : IOWorker} {act : Action} (h : w.Move σ ix act)
    (b : Bool) (hnext : Looping (act.next b)) : Looping w := by
  have hmem := h.successor b
  constructor <;> intro hstage <;> rw [hstage] at hmem
  · exact hnext.2 (List.mem_singleton.mp hmem)
  · cases hmem

/-- A thread ends with its last call. -/
theorem Move.ended {σ : Server} {ix : Nat} {w : IOWorker} {act : Action} (h : w.Move σ ix act)
    (b : Bool) (hdone : (act.next b).stage = .done) : w.stage = .last := by
  have hmem := h.successor b
  rw [hdone] at hmem
  cases hstage : w.stage <;> simp_all [successors]

end IOWorker

namespace System

open IOWorker

/-- The turn makes a call of a certain kind. -/
def Makes (kind : Server → Server.Call → Prop) (S : System) (ev : Event) : Prop :=
  ∃ e, S.callOf ev = some e ∧ kind S.server e

instance (kind : Server → Server.Call → Prop) [∀ σ e, Decidable (kind σ e)] (S : System) (ev : Event) :
    Decidable (Makes kind S ev) :=
  match h : S.callOf ev with
  | some e => decidable_of_iff (kind S.server e) (by simp [Makes, h])
  | none => .isFalse (by simp [Makes, h])

/-- What the server makes of a turn. -/
theorem Turn.effect {S S' : System} {ev : Event} (h : Turn S ev S') :
    S'.server = S.server ∨ ∃ e b, S.callOf ev = some e ∧ Server.Effect S.server e b S'.server := by
  rcases h.server with ⟨-, hsame⟩ | ⟨e, b, hcall, hhandle⟩
  · exact .inl hsame
  · exact .inr ⟨e, b, hcall, Server.handle_effect hhandle⟩

/-- A call for worker `ix` is a turn of its thread. -/
theorem Turn.owner {S S' : System} {ev : Event} (h : Turn S ev S') {e : Server.Call}
    (hcall : S.callOf ev = some e) {ix : Nat} (hown : e.owner = some ix) :
    ∃ a closeFails, ev = .worker ix a closeFails := by
  cases h with
  | cleaner =>
      obtain rfl := Option.some.inj hcall
      cases hown
  | silent jx a closeFails w w' hw hmove hnone => simp [hnone] at hcall
  | call jx a closeFails w e' k b σ hw hmove hcall' hhandle =>
      obtain rfl : e' = e := Option.some.inj (hcall'.symm.trans hcall)
      obtain rfl := hmove.owner rfl hown
      exact ⟨a, closeFails, rfl⟩
  | connect jx a closeFails w w' fd hw hmove hcall' =>
      obtain rfl := Option.some.inj (hcall'.symm.trans hcall)
      cases hown

/-- **Induction over runs of the system**, with the book of seats at hand. -/
theorem run_invariant {scenario : GameScenario} {timeout tcpListenSock : Int} {I : System → Prop}
    (hstart : ∀ S₀, start scenario timeout tcpListenSock = .ok S₀ → I S₀)
    (hstep : ∀ S ev S', Server.SeatBook S.server → I S → Turn S ev S' → I S')
    {evs : List Event} {S : System} (h : run scenario timeout tcpListenSock evs = some S) : I S := by
  obtain ⟨S₀, h₀, hevs⟩ := run_eq_some.mp h
  refine exec_induction (P := fun _ S => I S) (hstart S₀ h₀) (fun es S ev S' hes hinv hS' => ?_) evs S hevs
  have hbook := Server.seatBook_run (run_server (run_eq_some.mpr ⟨S₀, h₀, hes⟩))
  exact hstep S ev S' hbook hinv (step_turn hS')

/-- What every run keeps of threads and workers. -/
structure Crewed (S : System) : Prop where
  known : ∀ ix w, S.threads ix = some w → ix < S.server.workerMgr.nextIx
  staffed : S.server.workerMgr.Staffed
  present : ∀ ix w, S.threads ix = some w → Looping w →
    S.server.workerMgr.Registered ix ∧ ix ∉ S.server.workerMgr.toErase
  retired : ∀ ix, S.server.workerMgr.roles.find? ix = some .shutdown → Server.HandedOver S.server ix
  bounded : ∀ ix, S.server.workerMgr.Registered ix → ix < S.server.workerMgr.nextIx

theorem crewed_start {scenario : GameScenario} {timeout tcpListenSock : Int} {S₀ : System}
    (h : start scenario timeout tcpListenSock = .ok S₀) : Crewed S₀ := by
  obtain ⟨r, -, hstarted⟩ := Server.start_eq_ok (start_eq_ok h).1
  constructor
  case known =>
    intro ix w hw
    rw [(start_thread h hw).1, hstarted]
    exact Nat.one_pos
  case staffed =>
    rw [hstarted]
    intro ix hix
    obtain rfl : ix = 0 := Nat.lt_one_iff.mp hix
    rfl
  case present =>
    intro ix w hw _
    rw [(start_thread h hw).1, hstarted]
    exact ⟨rfl, List.not_mem_nil⟩
  case retired =>
    intro ix hrole
    rw [hstarted] at hrole
    by_cases hix : ix = 0
    · subst hix
      cases hrole
    · simp [Server.started, IOWorkerMgr.new, IOWorkerMgr.spawnNewWorker, hix] at hrole
  case bounded =>
    intro ix hreg
    rw [hstarted] at hreg ⊢
    by_contra hlt
    have hix : ix ≠ 0 := fun hzero => hlt (hzero ▸ Nat.one_pos)
    simp [Server.started, IOWorkerMgr.Registered, IOWorkerMgr.new, IOWorkerMgr.spawnNewWorker, hix] at hreg

theorem Turn.nextIx {S S' : System} {ev : Event} (h : Turn S ev S') :
    S.server.workerMgr.nextIx ≤ S'.server.workerMgr.nextIx := by
  rcases h.effect with hsame | ⟨e, b, -, heff⟩
  · rw [hsame]
  · exact heff.keeps.nextIx

/-- The turn after which a new thread is there. -/
theorem Turn.spawned {S S' : System} {ev : Event} (h : Turn S ev S')
    (hcall : S.callOf ev = some .forwardConnection) : S'.server = S.server.forwardConnection := by
  rcases h.server with ⟨hnone, -⟩ | ⟨e, b, hsome, hhandle⟩
  · simp [hnone] at hcall
  · obtain rfl := Option.some.inj (hsome.symm.trans hcall)
    exact (congrArg Prod.snd (Except.ok.inj hhandle)).symm

theorem Crewed.turn {S S' : System} {ev : Event} (h : Crewed S) (hbook : Server.SeatBook S.server)
    (hturn : Turn S ev S') : Crewed S' := by
  constructor
  case known =>
    intro ix w' hw'
    rcases hturn.thread hw' with ⟨hw, -⟩ | ⟨a, closeFails, w, act, b, -, hw, -⟩ | ⟨rfl, hcall, -⟩
    · exact (h.known ix w' hw).trans_le hturn.nextIx
    · exact (h.known ix w hw).trans_le hturn.nextIx
    · rw [hturn.spawned hcall]
      exact Nat.lt_succ_self _
  case staffed =>
    rcases hturn.effect with hsame | ⟨e, b, -, heff⟩
    · rw [hsame]
      exact h.staffed
    · exact heff.keeps.staffed h.staffed
  case present =>
    intro ix w' hw' hloop
    -- it was in its loop before, and the turn did not hand it over
    have hkept : ∀ w, S.threads ix = some w → Looping w →
        (∀ errs hasWork, S.callOf ev = some (.grandExitCallback errs ix hasWork) →
          S.server.handle (.grandExitCallback errs ix hasWork) ≠ .ok (true, S'.server)) →
        S'.server.workerMgr.Registered ix ∧ ix ∉ S'.server.workerMgr.toErase := by
      intro w hw hold hrefused
      obtain ⟨hreg, hwait⟩ := h.present ix w hw hold
      rcases hturn.server with ⟨-, hsame⟩ | ⟨e, b, hcall, hhandle⟩
      · rw [hsame]
        exact ⟨hreg, hwait⟩
      · have heff := Server.handle_effect hhandle
        refine ⟨heff.registered hreg (h.known ix w hw) hwait, fun hmem => ?_⟩
        rcases heff.toErase hmem with hmem | ⟨errs, hasWork, rfl, rfl⟩
        · exact hwait hmem
        · exact hrefused errs hasWork hcall hhandle
    rcases hturn.thread hw' with ⟨hw, hother⟩ | ⟨a, closeFails, w, act, b, -, hw, hmove, hcall, rfl, hact⟩ |
      ⟨rfl, hcall, -⟩
    · refine hkept w' hw hloop fun errs hasWork hcall => ?_
      obtain ⟨a, closeFails, hev⟩ := hturn.owner hcall rfl
      exact absurd hev (hother a closeFails)
    · refine hkept w hw (hmove.looping b hloop) fun errs hasWork hcall' hhandle => ?_
      · have he := hcall.symm.trans hcall'
        obtain rfl : b = true := congrArg Prod.fst (Except.ok.inj ((hact _ he).symm.trans hhandle))
        rcases hmove.allowed he with hlast | hdone
        · exact hloop.1 hlast
        · exact hloop.2 hdone
    · rw [hturn.spawned hcall]
      refine ⟨?_, fun hmem => Nat.lt_irrefl _ (hbook.waiting _ hmem)⟩
      simp [IOWorkerMgr.Registered, Server.forwardConnection, IOWorkerMgr.spawnNewWorker]
  case retired =>
    intro ix hrole
    rcases hturn.effect with hsame | ⟨e, b, -, heff⟩
    · rw [hsame] at hrole ⊢
      exact h.retired ix hrole
    · rcases heff.shutdown hrole with hold | hwait
      · exact heff.handedOver (fun _ => hbook.known ix _ hold) (h.retired ix hold)
      · exact .inl hwait
  case bounded =>
    intro ix hreg
    by_contra hlt
    have hgone : ¬ S.server.workerMgr.Registered ix := fun hold =>
      hlt ((h.bounded ix hold).trans_le hturn.nextIx)
    rcases hturn.effect with hsame | ⟨e, b, hcall, heff⟩
    · rw [hsame] at hreg
      exact hgone hreg
    · refine heff.absent (fun hnew => ?_) hgone hreg
      rw [hturn.spawned (hnew ▸ hcall)] at hreg hlt
      by_contra hle
      have hne : ix ≠ S.server.workerMgr.nextIx := by
        rintro rfl
        exact hlt (Nat.lt_succ_self _)
      exact hgone (by
        simpa [IOWorkerMgr.Registered, Server.forwardConnection, IOWorkerMgr.spawnNewWorker, hne] using hreg)

theorem crewed_run {scenario : GameScenario} {timeout tcpListenSock : Int} {evs : List Event}
    {S : System} (h : run scenario timeout tcpListenSock evs = some S) : Crewed S :=
  run_invariant (fun _ => crewed_start) (fun _ _ _ hbook hinv hturn => hinv.turn hbook hturn) h

theorem seatBook_run {scenario : GameScenario} {timeout tcpListenSock : Int} {evs : List Event}
    {S : System} (h : run scenario timeout tcpListenSock evs = some S) : Server.SeatBook S.server :=
  Server.seatBook_run (run_server h)

/-- **Induction over the runs whose every turn meets a condition.** -/
theorem guarded_invariant {scenario : GameScenario} {timeout tcpListenSock : Int} {I : System → Prop}
    {guard : System → Event → Prop} {S₀ S : System} {evs : List Event}
    (h₀ : start scenario timeout tcpListenSock = .ok S₀) (hevs : exec step S₀ evs = some S)
    (hguard : Guarded step guard S₀ evs) (hstart : I S₀)
    (hstep : ∀ S ev S', Crewed S → Server.SeatBook S.server → I S → guard S ev →
      step S ev = some S' → I S') : I S := by
  refine exec_induction (P := fun evs S => Guarded step guard S₀ evs → I S) (fun _ => hstart)
    (fun evs S ev S' hes ih hS' hguard => ?_) evs S hevs hguard
  have hrun : run scenario timeout tcpListenSock evs = some S := run_eq_some.mpr ⟨S₀, h₀, hes⟩
  obtain ⟨hinit, hlast⟩ := guarded_concat hes hguard
  exact hstep S ev S' (crewed_run hrun) (seatBook_run hrun) (ih hinit) hlast hS'

/-- A thread's own turn, with the answers of the system. -/
theorem own_turn {S S' : System} {ix : Nat} {a : Answer} {closeFails : Bool}
    (h : S.step (.worker ix a closeFails) = some S') :
    ∃ w act b, S.threads ix = some w ∧ w.turn S.server ix a closeFails = some act ∧
      S'.threads ix = some (act.next b) ∧
      ∀ e, act.call? = some e → S.server.handle e = .ok (b, S'.server) := by
  cases hact : S.action ix a closeFails with
  | none => simp [step, hact] at h
  | some act =>
      obtain ⟨w, hw, hturn⟩ := Option.bind_eq_some_iff.mp hact
      simp only [step, hact] at h
      cases act with
      | silent w' =>
          obtain rfl := Option.some.inj h
          exact ⟨w, _, true, hw, hturn, setThread_self _ _ _, by simp [Action.call?]⟩
      | connect fd w' =>
          obtain rfl := Option.some.inj h
          refine ⟨w, _, true, hw, hturn, setThread_self _ _ _, ?_⟩
          rintro _ ⟨rfl⟩
          rfl
      | call e k =>
          obtain ⟨b, σ, hhandle, rfl⟩ := call_eq_some h
          refine ⟨w, _, b, hw, hturn, setThread_self _ _ _, ?_⟩
          rintro _ ⟨rfl⟩
          exact hhandle

end System

end Kierki
