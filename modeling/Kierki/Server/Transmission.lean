import Kierki.Server.Shutdown

/-!
# From the job queue to the wire

A job passes from the queue that other threads fill through `pendingOutgoing`, which only the worker's
own thread sees, to the attempts recorded in `wire`.  `Accounted` says that nothing is lost, doubled or
overtaken on the way.
-/

namespace Kierki

open Execution

namespace IOWorker

/-- What the thread has taken from its job queue, in the order in which it goes out. -/
def outbox (w : IOWorker) : List SendJob := w.wire.map Prod.fst ++ w.pendingOutgoing

/-- All bytes of the message got through. -/
def Whole (p : SendJob × Nat) : Prop := p.2 = p.1.genMsg.length

instance : DecidablePred Whole := fun p => inferInstanceAs (Decidable (p.2 = p.1.genMsg.length))

/-- The messages that got through, in the order in which they were sent. -/
def transmitted (w : IOWorker) : List SendJob := (w.wire.filter fun p => Whole p).map Prod.fst

@[simp] theorem outbox_goto (w : IOWorker) (stage : Stage) : (w.goto stage).outbox = w.outbox := rfl

@[simp] theorem outbox_addErr (w : IOWorker) (err : IOErrClass) : (w.addErr err).outbox = w.outbox := rfl

@[simp] theorem outbox_closeConn (w : IOWorker) (closeFails : Bool) :
    (w.closeConn closeFails).outbox = w.outbox := rfl

@[simp] theorem outbox_loop (w : IOWorker) : w.loop.outbox = w.outbox := rfl

@[simp] theorem outbox_fcntl (w : IOWorker) (fails : Bool) : (w.fcntl fails).outbox = w.outbox := by
  cases fails <;> rfl

@[simp] theorem outbox_receive (w : IOWorker) (c : Char) (closeFails : Bool) :
    (w.receive c closeFails).outbox = w.outbox := by
  unfold receive
  dsimp only
  split
  · rfl
  · split <;> rfl

@[simp] theorem outbox_answered (w : IOWorker) (rest : List (List Char)) (taken : Bool) :
    (w.answered rest taken).outbox = w.outbox := by
  cases taken <;> rfl

@[simp] theorem outbox_dismissed (w : IOWorker) (rest : List (List Char)) (taken : Bool) :
    (w.dismissed rest taken).outbox = w.outbox := by
  cases taken <;> rfl

/-- An attempt to send moves a job on, whether or not it gets through. -/
theorem outbox_transmit (w : IOWorker) {job : SendJob} {rest : List SendJob}
    (hout : w.pendingOutgoing = job :: rest) (n : Nat) (closeFails : Bool) :
    (w.transmit job rest n closeFails).outbox = w.outbox := by
  unfold transmit
  split <;> simp [outbox, hout, closeConn, addErr]

/-- Only taking a job from the queue changes what the thread has taken. -/
theorem Move.outbox {σ : Server} {ix : Nat} {w : IOWorker} {act : Action} (h : w.Move σ ix act) (b : Bool) :
    (act.call? ≠ some (.popNextJob ix) ∧ (act.next b).outbox = w.outbox) ∨
      ∃ job rest, act.call? = some (.popNextJob ix) ∧ (jobQueue σ ix).jobsPending = job :: rest ∧
        (act.next b).outbox = w.outbox ++ [job] := by
  cases h with
  | fetched job rest hstage hjobs =>
      exact .inr ⟨job, rest, rfl, hjobs, (List.append_assoc _ _ _).symm⟩
  | sent job rest n closeFails hstage hout hlen | sentLast job rest n closeFails hstage hout hlen =>
      refine .inl ⟨by simp [Action.call?], ?_⟩
      cases b
      · rfl
      · exact w.outbox_transmit hout n closeFails
  | pollExit | corruptedExit | leaveExit => exact .inl ⟨by simp [Action.call?, exit], by cases b <;> rfl⟩
  | _ => exact .inl ⟨by simp [Action.call?], by simp [Action.next] <;> rfl⟩

/-- Nothing is sent in the other turns, and a closed descriptor stays closed. -/
theorem Move.wire {σ : Server} {ix : Nat} {w : IOWorker} {act : Action} (h : w.Move σ ix act) (b : Bool) :
    ((w.stage = .send ∨ w.stage = .sendLast) ∧ w.pendingOutgoing ≠ []) ∨
      (act.next b).wire = w.wire ∧ (w.closedFd = true → (act.next b).closedFd = true) := by
  cases h with
  | sent job rest n closeFails hstage hout => exact .inl ⟨.inl hstage, by simp [hout]⟩
  | sentLast job rest n closeFails hstage hout => exact .inl ⟨.inr hstage, by simp [hout]⟩
  | pollExit | corruptedExit | leaveExit | offerInvalid | offerIntro | offerTrick =>
      right
      cases b <;> exact ⟨rfl, id⟩
  | started pipeFails mainFails =>
      right
      cases pipeFails <;> cases mainFails <;> exact ⟨rfl, id⟩
  | received c closeFails =>
      right
      unfold Action.next receive
      dsimp only
      split
      · exact ⟨rfl, fun _ => rfl⟩
      · split <;> exact ⟨rfl, id⟩
  | pollFailed | recvEnd | recvFailed | closed => exact .inr ⟨rfl, fun _ => rfl⟩
  | _ => exact .inr ⟨rfl, id⟩

/-- The turn that tries to send. -/
theorem turn_sent {σ : Server} {ix : Nat} {w : IOWorker} {a : Answer} {closeFails : Bool} {act : Action}
    (h : w.turn σ ix a closeFails = some act) (hstage : w.stage = .send ∨ w.stage = .sendLast)
    (hout : w.pendingOutgoing ≠ []) :
    ∃ job rest n next, a = .sent n ∧ w.pendingOutgoing = job :: rest ∧
      act = .call .execMutexed fun run => if run then w.transmit job rest n closeFails else w.goto next := by
  have hsend : ∃ next, w.turnSend closeFails next a = some act := by
    unfold turn at h
    rcases hstage with hstage | hstage <;> rw [hstage] at h <;> exact ⟨_, h⟩
  obtain ⟨next, hsend⟩ := hsend
  unfold turnSend at hsend
  split at hsend
  case h_1 _ hnone => exact absurd hnone hout
  case h_2 job rest n hjobs =>
      split at hsend
      · obtain rfl := Option.some.inj hsend
        exact ⟨job, rest, n, next, rfl, hjobs, rfl⟩
      · cases hsend
  case h_3 => cases hsend

theorem transmit_wire (w : IOWorker) (job : SendJob) (rest : List SendJob) (n : Nat) (closeFails : Bool) :
    (w.transmit job rest n closeFails).wire = w.wire ++ [(job, n)] := by
  unfold transmit
  split <;> rfl

theorem transmit_closedFd (w : IOWorker) (job : SendJob) (rest : List SendJob) (n : Nat)
    (closeFails : Bool) : (w.transmit job rest n closeFails).closedFd =
      if n = job.genMsg.length then w.closedFd else true := by
  unfold transmit
  split <;> rfl

/-- What got through came first, and once something did not get through, the descriptor is closed. -/
def InOrder (w : IOWorker) : Prop :=
  ∃ done lost, w.wire = done ++ lost ∧ (∀ p ∈ done, Whole p) ∧ (∀ p ∈ lost, ¬ Whole p) ∧
    (lost ≠ [] → w.closedFd = true)

theorem InOrder.transmitted {w : IOWorker} (h : InOrder w) : w.transmitted <+: w.outbox := by
  obtain ⟨done, lost, hwire, hdone, hlost, -⟩ := h
  have hfilter : w.wire.filter (fun p => Whole p) = done := by
    rw [hwire, List.filter_append, List.filter_eq_self.mpr (by simpa using hdone),
      List.filter_eq_nil_iff.mpr (by simpa using hlost), List.append_nil]
  refine ⟨lost.map Prod.fst ++ w.pendingOutgoing, ?_⟩
  rw [IOWorker.transmitted, hfilter, IOWorker.outbox, hwire, List.map_append, List.append_assoc]

/-- On an open connection everything got through. -/
theorem InOrder.transmitted_eq {w : IOWorker} (h : InOrder w) (hopen : w.closedFd = false) :
    w.transmitted = w.wire.map Prod.fst := by
  obtain ⟨done, lost, hwire, hdone, -, hclosed⟩ := h
  have hnone : lost = [] := by
    by_contra hne
    simp [hclosed hne] at hopen
  subst hnone
  rw [List.append_nil] at hwire
  rw [IOWorker.transmitted, hwire, List.filter_eq_self.mpr (by simpa using hdone)]

/-- An attempt keeps the order, if nothing gets through on a closed descriptor. -/
theorem InOrder.transmit {w : IOWorker} (h : InOrder w) (job : SendJob) (rest : List SendJob) (n : Nat)
    (closeFails : Bool) (hstray : w.closedFd = true → n ≠ job.genMsg.length) :
    InOrder (w.transmit job rest n closeFails) := by
  obtain ⟨done, lost, hwire, hdone, hlost, hclosed⟩ := h
  by_cases hwhole : n = job.genMsg.length
  · -- the descriptor is open, so nothing was lost before
    have hnone : lost = [] := by
      by_contra hne
      exact hstray (hclosed hne) hwhole
    subst hnone
    refine ⟨done ++ [(job, n)], [], ?_, ?_, by simp, by simp⟩
    · rw [transmit_wire, hwire, List.append_nil, List.append_nil]
    · intro p hp
      rcases List.mem_append.mp hp with hp | hp
      · exact hdone p hp
      · obtain rfl := List.mem_singleton.mp hp
        exact hwhole
  · refine ⟨done, lost ++ [(job, n)], ?_, hdone, ?_, fun _ => ?_⟩
    · rw [transmit_wire, hwire, List.append_assoc]
    · intro p hp
      rcases List.mem_append.mp hp with hp | hp
      · exact hlost p hp
      · obtain rfl := List.mem_singleton.mp hp
        exact hwhole
    · rw [transmit_closedFd, if_neg hwhole]

theorem InOrder.of_wire {w w' : IOWorker} (h : InOrder w) (hwire : w'.wire = w.wire)
    (hclosed : w.closedFd = true → w'.closedFd = true) : InOrder w' := by
  obtain ⟨done, lost, heq, hdone, hlost, hlostClosed⟩ := h
  exact ⟨done, lost, hwire.trans heq, hdone, hlost, fun hne => hclosed (hlostClosed hne)⟩

/-- The thread empties its queue a last time before it closes the connection. -/
def Obeying (w : IOWorker) : Prop := w.stage = .fetchLast ∨ w.stage = .sendLast ∨ w.stage = .close

/-- A thread obeys only when it has seen its kill order. -/
theorem Move.obeying {σ : Server} {ix : Nat} {w : IOWorker} {act : Action} (h : w.Move σ ix act)
    (b : Bool) (hnext : Obeying (act.next b)) : Obeying w ∨ (jobQueue σ ix).killFlag = true := by
  have hmem := h.successor b
  by_cases horder : w.stage = .order
  · cases h with
    | ordered _ hkill => exact .inr hkill
    | unordered => simp [Obeying, Action.next] at hnext
    | _ => simp_all
  · left
    rcases hnext with heq | heq | heq <;> rw [heq] at hmem <;>
      cases hstage : w.stage <;> simp_all [successors, Obeying]

/-- The two ways to the last sends: the queue is empty, or they go on. -/
theorem Move.sendLast {σ : Server} {ix : Nat} {w : IOWorker} {act : Action} (h : w.Move σ ix act)
    (b : Bool) (hnext : (act.next b).stage = .sendLast) :
    (w.stage = .fetchLast ∧ (jobQueue σ ix).jobsPending = []) ∨ w.stage = .sendLast := by
  have hmem := h.successor b
  rw [hnext] at hmem
  by_cases hlast : w.stage = .sendLast
  · exact .inr hlast
  have hfetch : w.stage = .fetchLast := by
    cases hstage : w.stage <;> simp_all [successors]
  cases h with
  | fetchLastDone hstage hjobs => exact .inl ⟨hstage, hjobs⟩
  | fetched => simp_all [Action.next]
  | _ => simp_all

/-- The way to the close on an open connection: nothing is left, or the gate is shut. -/
theorem Move.close {σ : Server} {ix : Nat} {w : IOWorker} {act : Action} (h : w.Move σ ix act)
    (b : Bool) (hnext : (act.next b).stage = .close) (hopen : (act.next b).closedFd = false) :
    w.stage = .sendLast ∧ (act.next b).wire = w.wire ∧
      (w.pendingOutgoing = [] ∨ act.call? = some .execMutexed ∧ b = false) := by
  have hmem := h.successor b
  rw [hnext] at hmem
  have hstage : w.stage = .fetchLast ∨ w.stage = .sendLast := by
    cases hstage : w.stage <;> simp_all [successors]
  cases h with
  | fetched => simp_all [Action.next]
  | fetchLastDone hfetch hjobs =>
      -- the thread skips the sends because the connection is closed
      have hclosed : w.closedFd = false := hopen
      simp [Action.next, hclosed] at hnext
  | sendLastDone hlast hnone => exact ⟨hlast, rfl, .inl hnone⟩
  | sentLast job rest n closeFails hlast =>
      cases b
      · exact ⟨hlast, rfl, .inr ⟨rfl, rfl⟩⟩
      · simp_all [Action.next]
  | _ => simp_all

end IOWorker

namespace Server

open IOWorker IOWorkerMgr

/-- What was enqueued for a worker is what its thread has taken and what is still in the queue. -/
def AccountedFor (σ : Server) (ix : Nat) (w : IOWorker) : Prop :=
  ∃ rest, σ.history ix = w.outbox ++ rest ∧
    ∀ q, σ.workerMgr.workers.find? ix = some q → q.jobsPending = rest

/-- The calls that only move workers and jobs about. -/
theorem Effect.history_same {σ σ' : Server} {e : Call} {b : Bool} (h : Effect σ e b σ') (ix : Nat)
    (hquiet : e = .forwardConnection ∨ e = .popNextJob ix ∨ e = .waitForClearing) :
    σ'.history ix = σ.history ix := by
  rcases hquiet with rfl | rfl | rfl
  · cases h
    rfl
  · cases h
    rfl
  · cases h
    exact congrArg (inbox · ix) (waitForClearing_sent σ.workerMgr)

/-- What was enqueued before stays enqueued. -/
theorem Effect.history {σ σ' : Server} {e : Call} {b : Bool} (h : Effect σ e b σ') (ix : Nat) :
    σ.history ix <+: σ'.history ix := by
  by_cases hquiet : e = .forwardConnection ∨ e = .popNextJob ix ∨ e = .waitForClearing
  · rw [h.history_same ix hquiet]
  · simp only [not_or] at hquiet
    obtain ⟨msgs, hmsgs⟩ := h.appended (fun heq => absurd heq hquiet.1) hquiet.2.1 hquiet.2.2
    exact ⟨msgs, hmsgs.inbox.symm⟩

/-- A call that is not the worker's own `popNextJob` adds to its history what it adds to its queue. -/
theorem AccountedFor.effect {σ σ' : Server} {e : Call} {b : Bool} {ix : Nat} {w w' : IOWorker}
    (h : AccountedFor σ ix w) (he : Effect σ e b σ') (hix : ix < σ.workerMgr.nextIx)
    (hpop : e ≠ .popNextJob ix) (hsame : w'.outbox = w.outbox) : AccountedFor σ' ix w' := by
  obtain ⟨rest, hhistory, hqueue⟩ := h
  by_cases hclear : e = .waitForClearing
  · have hsent := he.history_same ix (.inr (.inr hclear))
    subst hclear
    cases he with
    | cleared =>
        refine ⟨rest, ?_, fun q hq => ?_⟩
        · rw [hsame, ← hhistory, hsent]
        · have hfind : σ.workerMgr.waitForClearing.workers.find? ix = some q := hq
          rcases waitForClearing_find? σ.workerMgr ix with heq | ⟨-, hnone⟩
          · exact hqueue q (heq ▸ hfind)
          · simp [hnone] at hfind
  obtain ⟨msgs, hmsgs⟩ := he.appended (fun _ => hix) hpop hclear
  refine ⟨rest ++ msgs, ?_, fun q' hq' => ?_⟩
  · rw [hsame, Server.history, hmsgs.inbox, ← List.append_assoc, ← hhistory]
    rfl
  · have hreg : σ.workerMgr.Registered ix := by
      by_contra hgone
      exact (hmsgs.absent hgone).1 (by simp [Registered, hq'])
    obtain ⟨q, hq⟩ := Option.isSome_iff_exists.mp hreg
    obtain ⟨q'', hq'', hjobs⟩ := hmsgs.queue q hq
    obtain rfl : q'' = q' := Option.some.inj (hq''.symm.trans hq')
    rw [hjobs, hqueue q hq]

/-- The worker's own `popNextJob` moves the first job on. -/
theorem AccountedFor.popped {σ σ' : Server} {b : Bool} {ix : Nat} {w w' : IOWorker} {job : SendJob}
    {jobs : List SendJob} (h : AccountedFor σ ix w) (he : Effect σ (.popNextJob ix) b σ')
    (hjobs : (jobQueue σ ix).jobsPending = job :: jobs) (hmoved : w'.outbox = w.outbox ++ [job]) :
    AccountedFor σ' ix w' := by
  obtain ⟨rest, hhistory, hqueue⟩ := h
  cases he with
  | popped _ q job' rest' hq hq' =>
      have hfind : (jobQueue σ ix).jobsPending = q.jobsPending := by simp [jobQueue, hq]
      obtain ⟨rfl, rfl⟩ : job' = job ∧ rest' = jobs := by
        simpa using hq'.symm.trans (hfind.symm.trans hjobs)
      refine ⟨rest', ?_, fun q' hq'' => ?_⟩
      · rw [hmoved, List.append_assoc, List.singleton_append, ← hq', hqueue q hq, ← hhistory]
        rfl
      · obtain rfl : { q with jobsPending := rest' } = q' := by simpa using hq''
        rfl

/-- Nobody has mail before there is a worker. -/
def NoEarlyMail (σ : Server) : Prop := ∀ ix, σ.workerMgr.nextIx ≤ ix → σ.history ix = []

theorem NoEarlyMail.effect {σ σ' : Server} {e : Call} {b : Bool} (h : NoEarlyMail σ)
    (he : Effect σ e b σ') (hbound : ∀ ix, σ.workerMgr.Registered ix → ix < σ.workerMgr.nextIx) :
    NoEarlyMail σ' := by
  intro ix hix
  have hold : σ.workerMgr.nextIx ≤ ix := he.keeps.nextIx.trans hix
  have hgone : ¬ σ.workerMgr.Registered ix := fun hreg => absurd (hbound ix hreg) (not_lt.mpr hold)
  by_cases hquiet : e = .forwardConnection ∨ e = .popNextJob ix ∨ e = .waitForClearing
  · rw [he.history_same ix hquiet]
    exact h ix hold
  · simp only [not_or] at hquiet
    obtain ⟨msgs, hmsgs⟩ := he.appended (fun heq => absurd heq hquiet.1) hquiet.2.1 hquiet.2.2
    obtain ⟨-, rfl⟩ := hmsgs.absent hgone
    rw [Server.history, hmsgs.inbox, List.append_nil]
    exact h ix hold

end Server

namespace System

open IOWorker

/-- The jobs of every thread are accounted for, and nobody has mail before there is a worker. -/
structure Accounted (S : System) : Prop where
  jobs : ∀ ix w, S.threads ix = some w → Server.AccountedFor S.server ix w
  early : Server.NoEarlyMail S.server

theorem Accounted.turn {S S' : System} {ev : Event} (h : Accounted S) (hcrew : Crewed S)
    (hturn : Turn S ev S') : Accounted S' := by
  constructor
  case early =>
    rcases hturn.effect with hsame | ⟨e, b, -, heff⟩
    · rw [hsame]
      exact h.early
    · exact h.early.effect heff hcrew.bounded
  case jobs =>
    intro ix w' hw'
    rcases hturn.thread hw' with ⟨hw, hother⟩ | ⟨a, closeFails, w, act, b, -, hw, hmove, hcall, rfl, hact⟩ |
      ⟨rfl, hcall, fd, rfl⟩
    · have hold := h.jobs ix w' hw
      rcases hturn.effect with hsame | ⟨e, b, hcall, heff⟩
      · rw [hsame]
        exact hold
      · refine hold.effect heff (hcrew.known ix w' hw) (fun hpop => ?_) rfl
        obtain ⟨a, closeFails, hev⟩ := hturn.owner hcall (by rw [hpop]; rfl)
        exact hother a closeFails hev
    · have hold := h.jobs ix w hw
      rcases hmove.outbox b with ⟨hpop, hsame⟩ | ⟨job, jobs, hpop, hjobs, hmoved⟩
      · rcases hturn.effect with hserver | ⟨e, b', hcall', heff⟩
        · obtain ⟨rest, hhistory, hqueue⟩ := hold
          rw [hserver]
          exact ⟨rest, hsame ▸ hhistory, hqueue⟩
        · exact hold.effect heff (hcrew.known ix w hw)
            (fun heq => hpop (hcall.symm.trans (heq ▸ hcall'))) hsame
      · exact hold.popped (Server.handle_effect (hact _ hpop)) hjobs hmoved
    · -- a new worker starts with nothing
      rw [hturn.spawned hcall]
      refine ⟨[], h.early _ (le_refl _), fun q hq => ?_⟩
      obtain rfl : JobQueue.empty = q := by
        simpa [Server.forwardConnection, IOWorkerMgr.spawnNewWorker] using hq
      rfl

theorem accounted_run {scenario : GameScenario} {timeout tcpListenSock : Int} {evs : List Event}
    {S : System} (h : run scenario timeout tcpListenSock evs = some S) : Accounted S := by
  have hinv : Crewed S ∧ Accounted S := by
    refine run_invariant (I := fun S => Crewed S ∧ Accounted S) (fun S₀ h₀ => ?_)
      (fun S ev S' hbook hinv hturn => ⟨hinv.1.turn hbook hturn, hinv.2.turn hinv.1 hturn⟩) h
    obtain ⟨r, -, hstarted⟩ := Server.start_eq_ok (start_eq_ok h₀).1
    refine ⟨crewed_start h₀, ⟨fun ix w hw => ?_, fun ix _ => ?_⟩⟩ <;> rw [hstarted]
    · obtain ⟨rfl, rfl⟩ := start_thread h₀ hw
      refine ⟨[], rfl, fun q hq => ?_⟩
      obtain rfl : JobQueue.empty = q := Option.some.inj hq
      rfl
    · rfl
  exact hinv.2

/-- A job gets through on a descriptor that was closed after a job before it did not: the number was
given to another connection in between. -/
def Stray (S : System) : Event → Prop
  | .worker ix (.sent n) _ =>
      match S.threads ix with
      | some w => (w.stage = .send ∨ w.stage = .sendLast) ∧ w.closedFd = true ∧
          S.server.execMutexed = true ∧ w.pendingOutgoing.head?.map (fun job => job.genMsg.length) = some n
      | none => False
  | _ => False

instance (S : System) (ev : Event) : Decidable (Stray S ev) := by
  unfold Stray
  split
  · rename_i ix n _
    exact decidable_of_iff (∃ w ∈ S.threads ix, (w.stage = .send ∨ w.stage = .sendLast) ∧ w.closedFd = true ∧
      S.server.execMutexed = true ∧ w.pendingOutgoing.head?.map (fun job => job.genMsg.length) = some n)
      (by cases S.threads ix <;> simp)
  · infer_instance

theorem inOrder_of_guarded {scenario : GameScenario} {timeout tcpListenSock : Int} {evs : List Event}
    {S₀ S : System} (h₀ : start scenario timeout tcpListenSock = .ok S₀)
    (hevs : exec step S₀ evs = some S) (hguard : Guarded step (fun S ev => ¬ Stray S ev) S₀ evs) :
    ∀ ix w, S.threads ix = some w → InOrder w := by
  refine guarded_invariant (I := fun S => ∀ ix w, S.threads ix = some w → InOrder w)
    h₀ hevs hguard ?_ ?_
  · intro ix w hw
    obtain ⟨-, rfl⟩ := start_thread h₀ hw
    exact ⟨[], [], rfl, by simp, by simp, by simp⟩
  · intro S ev S' hcrew hbook ih hstray hstep ix w' hw'
    rcases (step_turn hstep).thread hw' with ⟨hw, -⟩ | ⟨a, closeFails, -, -, -, rfl, -⟩ | ⟨-, -, fd, rfl⟩
    · exact ih ix w' hw
    · obtain ⟨w, act, b, hw, hturn, hnext, hact⟩ := own_turn hstep
      obtain rfl : act.next b = w' := Option.some.inj (hnext.symm.trans hw')
      have hold := ih ix w hw
      rcases (turn_move hturn).wire b with ⟨hstage, hout⟩ | ⟨hwire, hclosed⟩
      · obtain ⟨job, rest, n, next, rfl, hjobs, rfl⟩ := turn_sent hturn hstage hout
        obtain rfl : S.server.execMutexed = b := congrArg Prod.fst (Except.ok.inj (hact _ rfl))
        cases hgate : S.server.execMutexed with
        | false => exact hold.of_wire rfl id
        | true =>
            refine hold.transmit job rest n closeFails fun hclosed hwhole => hstray ?_
            simp only [Stray, hw]
            exact ⟨hstage, hclosed, hgate, by simp [hjobs, hwhole]⟩
      · exact hold.of_wire hwire hclosed
    · exact ⟨[], [], rfl, by simp, by simp, by simp⟩

/-- Every thread that empties its queue a last time has its kill order. -/
theorem obeying_run {scenario : GameScenario} {timeout tcpListenSock : Int} {evs : List Event}
    {S : System} (h : run scenario timeout tcpListenSock evs = some S) :
    ∀ ix w, S.threads ix = some w → Obeying w → S.server.workerMgr.Ordered ix := by
  have hinv : Crewed S ∧ ∀ ix w, S.threads ix = some w → Obeying w → S.server.workerMgr.Ordered ix := by
    refine run_invariant (I := fun S => Crewed S ∧ ∀ ix w, S.threads ix = some w → Obeying w →
      S.server.workerMgr.Ordered ix) (fun S₀ h₀ => ⟨crewed_start h₀, ?_⟩)
      (fun S ev S' hbook hinv hturn => ⟨hinv.1.turn hbook hturn, ?_⟩) h
    · intro ix w hw hobey
      obtain ⟨-, rfl⟩ := start_thread h₀ hw
      simp [Obeying, IOWorker.new] at hobey
    · intro ix w' hw' hobey
      obtain ⟨hcrew, ih⟩ := hinv
      -- an order given before is still there
      have hkept : ∀ w, S.threads ix = some w → Looping w → S.server.workerMgr.Ordered ix →
          S'.server.workerMgr.Ordered ix := by
        intro w hw hloop hordered
        rcases hturn.effect with hsame | ⟨e, b, -, heff⟩
        · rwa [hsame]
        · have hgone : ix ∉ S.server.gone e := by
            unfold Server.gone
            split
            · exact (hcrew.present ix w hw hloop).2
            · exact List.not_mem_nil
          exact heff.keeps.ordered ix (hcrew.known ix w hw) hgone hordered
      have hlooping : ∀ {w : IOWorker}, Obeying w → Looping w := by
        intro w h
        rcases h with h | h | h <;> simp [Looping, h]
      rcases hturn.thread hw' with ⟨hw, -⟩ | ⟨a, closeFails, w, act, b, -, hw, hmove, -, rfl, -⟩ |
        ⟨-, -, fd, rfl⟩
      · exact hkept w' hw (hlooping hobey) (ih ix w' hw hobey)
      · have hloop := hmove.looping b (hlooping hobey)
        refine hkept w hw hloop ?_
        rcases hmove.obeying b hobey with hold | hkill
        · exact ih ix w hw hold
        · obtain ⟨q, hq⟩ := Option.isSome_iff_exists.mp (hcrew.present ix w hw hloop).1
          exact ⟨q, hq, by simpa [jobQueue, hq] using hkill⟩
      · simp [Obeying, IOWorker.new] at hobey
  exact hinv.2

/-- The jobs `jobs` are out, or are among the last to go out. -/
def Flushing (jobs : List SendJob) (w : IOWorker) : Prop :=
  (w.stage = .sendLast → jobs <+: w.outbox) ∧
    (w.stage = .close → w.closedFd = false → jobs <+: w.wire.map Prod.fst)

/-- What was enqueued before stays enqueued. -/
theorem Turn.history {S S' : System} {ev : Event} (h : Turn S ev S') (ix : Nat) :
    S.server.history ix <+: S'.server.history ix := by
  rcases h.effect with hsame | ⟨e, b, -, heff⟩
  · rw [hsame]
  · exact heff.history ix

/-- While the server is exiting, a thread that obeys flushes what it was given before. -/
theorem Flushing.turn {S S' : System} {ev : Event} {jobs : List SendJob} {ix : Nat}
    (h : ∀ w, S.threads ix = some w → Flushing jobs w) (hjobs : jobs <+: S.server.history ix)
    (hexit : S.server.exiting = true) (hcrew : Crewed S) (hacc : Accounted S) (hturn : Turn S ev S') :
    ∀ w, S'.threads ix = some w → Flushing jobs w := by
  intro w' hw'
  rcases hturn.thread hw' with ⟨hw, -⟩ | ⟨a, closeFails, w, act, b, -, hw, hmove, -, rfl, hact⟩ |
    ⟨-, -, fd, rfl⟩
  · exact h w' hw
  · constructor
    · intro hlast
      rcases hmove.sendLast b hlast with ⟨hfetch, hempty⟩ | hlast'
      · -- the queue is empty: everything that was ever enqueued has been taken
        have hloop : Looping w := by simp [Looping, hfetch]
        obtain ⟨q, hq⟩ := Option.isSome_iff_exists.mp (hcrew.present ix w hw hloop).1
        obtain ⟨rest, hhistory, hqueue⟩ := hacc.jobs ix w hw
        have hnone : rest = [] := by
          rw [← hqueue q hq]
          simpa [jobQueue, hq] using hempty
        have hsame : (act.next b).outbox = w.outbox := by
          rcases hmove.outbox b with ⟨-, hsame⟩ | ⟨job, jobs', -, hjobs', -⟩
          · exact hsame
          · simp [hempty] at hjobs'
        rw [hsame]
        simpa [hhistory, hnone] using hjobs
      · have hsame : (act.next b).outbox = w.outbox := by
          rcases hmove.outbox b with ⟨-, hsame⟩ | ⟨job, jobs', hpop, -⟩
          · exact hsame
          · cases hmove <;> simp_all [Action.call?]
        rw [hsame]
        exact (h w hw).1 hlast'
    · intro hclose hopen
      obtain ⟨hlast, hwire, hwhy⟩ := hmove.close b hclose hopen
      have hout := (h w hw).1 hlast
      rcases hwhy with hnone | ⟨hcall, rfl⟩
      · rw [hwire]
        simpa [IOWorker.outbox, hnone] using hout
      · -- the gate is open while the server is exiting
        have hgate := congrArg Prod.fst (Except.ok.inj (hact _ hcall))
        simp [Server.execMutexed, hexit] at hgate
  · constructor
    · intro hlast
      cases hlast
    · intro hclose
      cases hclose

theorem Turn.exiting {S S' : System} {ev : Event} (h : Turn S ev S') (hexit : S.server.exiting = true) :
    S'.server.exiting = true := by
  rcases h.effect with hsame | ⟨e, b, -, heff⟩
  · rwa [hsame]
  · exact heff.exiting hexit

/-- A thread that closes its connection on the order of `finalize` has flushed what it was given up to
that order. -/
theorem flushed_of_finalize {scenario : GameScenario} {timeout tcpListenSock : Int}
    {evs₁ evs₂ : List Event} {ev : Event} {S₁ S₂ S : System} {ix : Nat}
    (h₁ : run scenario timeout tcpListenSock evs₁ = some S₁) (hev : step S₁ ev = some S₂)
    (hevs₂ : exec step S₂ evs₂ = some S) (hafter : S₂.server.exiting = true)
    (hfirst : ∀ q, S₁.server.workerMgr.workers.find? ix = some q → q.killFlag = false) :
    ∀ w, S.threads ix = some w → Flushing (S₂.server.history ix) w := by
  obtain ⟨S₀, h₀, hevs₁⟩ := run_eq_some.mp h₁
  have hrun : ∀ es S, exec step S₂ es = some S →
      run scenario timeout tcpListenSock (evs₁ ++ ev :: es) = some S := by
    intro es S hes
    refine run_eq_some.mpr ⟨S₀, h₀, ?_⟩
    rw [exec_append, hevs₁, Option.bind_some]
    simp only [exec, hev, Option.bind_some, hes]
  -- nobody is at its last sends when the order is given
  have hstart : ∀ w, S₂.threads ix = some w → Flushing (S₂.server.history ix) w := by
    intro w hw
    have hunkilled : ¬ S₁.server.workerMgr.Ordered ix := by
      rintro ⟨q, hq, hkill⟩
      simp [hfirst q hq] at hkill
    have hnot : ¬ Obeying w := by
      intro hobey
      rcases (step_turn hev).thread hw with ⟨hw₁, -⟩ | ⟨a, closeFails, w₁, act, b, -, hw₁, hmove, -, rfl, -⟩ |
        ⟨-, -, fd, rfl⟩
      · exact hunkilled (obeying_run h₁ ix w hw₁ hobey)
      · rcases hmove.obeying b hobey with hold | hkill
        · exact hunkilled (obeying_run h₁ ix w₁ hw₁ hold)
        · cases hq : S₁.server.workerMgr.workers.find? ix with
          | none => simp [jobQueue, hq, JobQueue.empty] at hkill
          | some q => simp [jobQueue, hq, hfirst q hq] at hkill
      · simp [Obeying, IOWorker.new] at hobey
    exact ⟨fun hlast => absurd (.inr (.inl hlast)) hnot, fun hclose => absurd (.inr (.inr hclose)) hnot⟩
  have hinv : S.server.exiting = true ∧ S₂.server.history ix <+: S.server.history ix ∧
      ∀ w, S.threads ix = some w → Flushing (S₂.server.history ix) w := by
    refine exec_induction (P := fun _ S => S.server.exiting = true ∧
      S₂.server.history ix <+: S.server.history ix ∧
      ∀ w, S.threads ix = some w → Flushing (S₂.server.history ix) w)
      ⟨hafter, List.prefix_rfl, hstart⟩ (fun es S e S' hes ih he => ?_) evs₂ S hevs₂
    obtain ⟨hexit, hjobs, hflush⟩ := ih
    have hturn := step_turn he
    exact ⟨hturn.exiting hexit, hjobs.trans (hturn.history ix),
      Flushing.turn hflush hjobs hexit (crewed_run (hrun es S hes)) (accounted_run (hrun es S hes)) hturn⟩
  exact hinv.2.2

/-- **Jobs go out in order, at most once, and before the connection is closed.**  As long as nothing gets
through on a closed descriptor, what a worker has transmitted is a prefix of what was enqueued for it.
And when it comes to close an open connection on the kill order of `finalize`, everything that was
enqueued up to that order has been transmitted. -/
theorem transmitted_of_guarded {scenario : GameScenario} {timeout tcpListenSock : Int}
    {evs : List Event} {S₀ S : System} (h₀ : start scenario timeout tcpListenSock = .ok S₀)
    (hevs : exec step S₀ evs = some S) (hguard : Guarded step (fun S ev => ¬ Stray S ev) S₀ evs)
    {ix : Nat} {w : IOWorker} (hw : S.threads ix = some w) :
    w.transmitted <+: S.server.history ix ∧
      ∀ evs₁ ev evs₂ S₁ S₂, evs = evs₁ ++ ev :: evs₂ → exec step S₀ evs₁ = some S₁ →
        step S₁ ev = some S₂ → S₁.server.exiting = false → S₂.server.exiting = true →
        (∀ q, S₁.server.workerMgr.workers.find? ix = some q → q.killFlag = false) →
        w.stage = .close → w.closedFd = false → S₂.server.history ix <+: w.transmitted := by
  have horder := inOrder_of_guarded h₀ hevs hguard ix w hw
  constructor
  · obtain ⟨rest, hhistory, -⟩ := (accounted_run (run_eq_some.mpr ⟨S₀, h₀, hevs⟩)).jobs ix w hw
    exact horder.transmitted.trans ⟨rest, hhistory.symm⟩
  · rintro evs₁ ev evs₂ S₁ S₂ rfl hevs₁ hev - hafter hfirst hclose hopen
    have hevs₂ : exec step S₂ evs₂ = some S := by
      rw [exec_append, hevs₁, Option.bind_some] at hevs
      simpa only [exec, hev, Option.bind_some] using hevs
    rw [horder.transmitted_eq hopen]
    exact (flushed_of_finalize (run_eq_some.mpr ⟨S₀, h₀, hevs₁⟩) hev hevs₂ hafter hfirst w hw).2
      hclose hopen

/-- The first turns of a worker's thread, in which a line comes in and is offered to the server. -/
def speaks (ix : Nat) (line : String) : List Event :=
  [.worker ix (.fcntl false false) false, .worker ix .pollReady false, .worker ix .pipeEmpty false] ++
    (line ++ "\r\n").toList.map (fun c => .worker ix (.recv c) false) ++ [.worker ix .go false]

/-- The thread of worker 0 accepts connections on the descriptors `fds`, and is back at its socket. -/
def accepts (fds : List Int) : List Event :=
  [.worker 0 (.fcntl false false) false, .worker 0 .pollReady false, .worker 0 .pipeEmpty false] ++
    fds.flatMap fun fd => .worker 0 (.accepted fd) false :: idleRound 0

/-- A line comes in at a thread that was in `poll`. -/
def hears (ix : Nat) (line : String) : List Event :=
  [.worker ix .pollReady false, .worker ix .pipeEmpty false] ++
    (line ++ "\r\n").toList.map (fun c => .worker ix (.recv c) false)

/-- A thread that has offered its message goes back to `poll`, and sends as many jobs as there are sizes. -/
def settles (ix : Nat) (sizes : List Nat) : List Event :=
  goes ix (3 + sizes.length) ++ sizes.map (fun n => .worker ix (.sent n) false) ++ goes ix 4

/-- Two players ask for `N`; the second one's `BUSY` has to wait, and then `poll` fails for worker 0. -/
def busyWaits : List Event :=
  accepts [11, 12] ++ .worker 0 .acceptBlocked false :: goes 0 5 ++ speaks 1 "IAMN" ++ speaks 2 "IAMN" ++
    goes 2 4 ++ [.worker 2 (.sent 7) false] ++ goes 2 3 ++ [.worker 0 .pollFailed false]

/-- Worker 2 is woken by its kill order. -/
def busyGoesOut : List Event :=
  [.worker 2 .pollReady false, .worker 2 .pipeEmpty false, .worker 2 .recvBlocked false] ++ goes 2 3 ++
    [.worker 2 (.sent 7) false] ++ goes 2 4

theorem transmitted_of_guarded_busy :
    ∃ S w, exec step (started [suitRound] 5 3 suitRound)
        (busyWaits ++ .worker 0 .go false :: busyGoesOut) = some S ∧
      S.threads 2 = some w ∧ w.stage = .close ∧ [.busy [.N]] <+: w.transmitted := by
  have hfacts : (exec step (started [suitRound] 5 3 suitRound) busyWaits).bind (fun S₁ =>
      (step S₁ (.worker 0 .go false)).bind fun S₂ => (exec step S₂ busyGoesOut).bind fun S =>
        (S.threads 2).map fun w => ((S₁.server.exiting, S₂.server.exiting,
          (S₁.server.workerMgr.workers.find? 2).map JobQueue.killFlag), (w.stage, w.closedFd),
          S₂.server.history 2)) =
      some ((false, true, some false), (.close, false), [.busy [.N]]) := by decide +kernel
  obtain ⟨S₁, hS₁, hrest⟩ := Option.bind_eq_some_iff.mp hfacts
  obtain ⟨S₂, hS₂, hrest⟩ := Option.bind_eq_some_iff.mp hrest
  obtain ⟨S, hS, hrest⟩ := Option.bind_eq_some_iff.mp hrest
  obtain ⟨w, hw, heq⟩ := Option.map_eq_some_iff.mp hrest
  simp only [Prod.mk.injEq] at heq
  obtain ⟨⟨hbefore, hafter, hflag⟩, ⟨hclose, hopen⟩, hhistory⟩ := heq
  have hevs : exec step (started [suitRound] 5 3 suitRound)
      (busyWaits ++ .worker 0 .go false :: busyGoesOut) = some S := by
    rw [exec_append, hS₁, Option.bind_some]
    simp only [exec, hS₂, Option.bind_some, hS]
  have hflushed := (transmitted_of_guarded (start_cons suitRound [] 5 3) hevs (by decide +kernel) hw).2
    busyWaits _ busyGoesOut S₁ S₂ rfl hS₁ hS₂ hbefore hafter (fun q hq => by simpa [hq] using hflag)
    hclose hopen
  rw [hhistory] at hflushed
  exact ⟨S, w, hevs, hw, hclose, hflushed⟩

/-- Four players sit down.  Three bytes of the `DEAL` for `N` get through and the send fails, which
closes descriptor 11; the next connection is accepted on this descriptor, and the `TRICK` for `N` gets
through on it. -/
def descriptorReused : List Event :=
  accepts [11, 12, 13, 14] ++ speaks 1 "IAMN" ++ speaks 2 "IAME" ++ speaks 3 "IAMS" ++ speaks 4 "IAMW" ++
    goes 1 5 ++ [.worker 1 (.sent 3) false, .worker 0 (.accepted 11) false, .worker 1 (.sent 8) false]

theorem not_transmitted_descriptorReused :
    ∃ S w, run [suitRound] 5 3 descriptorReused = some S ∧ S.threads 1 = some w ∧
      ¬ w.transmitted <+: S.server.history 1 := by
  have hfacts : (run [suitRound] 5 3 descriptorReused).bind (fun S => (S.threads 1).map fun w =>
      decide (w.transmitted <+: S.server.history 1)) = some false := by decide +kernel
  obtain ⟨S, hS, hthread⟩ := Option.bind_eq_some_iff.mp hfacts
  obtain ⟨w, hw, hlost⟩ := Option.map_eq_some_iff.mp hthread
  exact ⟨S, w, hS, hw, of_decide_eq_false hlost⟩

end System

end Kierki
