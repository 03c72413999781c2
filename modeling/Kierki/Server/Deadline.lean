import Kierki.Server.Ticks

/-!
# The response deadline

A worker keeps its deadline twice: `responseTimeout` says whether there is one, and `nextTimeout` is what
`poll` is told.  `Watch` is a thread that remembers whether it has polled before, and whether `timeoutCb`
has been called since `responseTimeout` was set.
-/

namespace Kierki

open Execution

namespace IOWorker

/-- The turn sets `responseTimeout`: a whole job is sent. -/
def arms (w : IOWorker) (i : Tick) : Bool :=
  match w.stage, w.pendingOutgoing, i.answer with
  | .send, job :: _, .sent n | .sendLast, job :: _, .sent n => i.reply && n == job.genMsg.length
  | _, _, _ => false

/-- The end of a turn of the loop leaves a finite time for `poll`, or no deadline, or has called
`timeoutCb` for it. -/
theorem deadline_cases {w : IOWorker} {i : Tick} {act : Action} (hstage : w.stage = .deadline)
    (hact : w.act i = some act) (htime : 0 < w.timeout) :
    (act.next i.reply).nextTimeout ≠ -1 ∨ (act.next i.reply).responseTimeout = false ∨
      act.call? = some (.handleTimeout i.ix) := by
  simp only [IOWorker.act, turn, hstage] at hact
  unfold turnDeadline at hact
  by_cases hset : w.nextTimeout ≠ -1
  · rw [if_pos hset] at hact
    obtain rfl := Option.some.inj hact
    exact .inl hset
  rw [if_neg hset] at hact
  by_cases harmed : 0 < w.timeout ∧ w.responseTimeout = true
  · rw [if_pos harmed] at hact
    cases hans : i.answer with
    | remaining ms =>
        simp only [hans] at hact
        by_cases hms : ms < 0
        · obtain rfl := Option.some.inj ((if_pos hms).symm.trans hact)
          exact .inr (.inr rfl)
        · obtain rfl := Option.some.inj ((if_neg hms).symm.trans hact)
          -- the time that remains is not negative
          refine .inl (show ms ≠ -1 from ?_)
          omega
    | _ => simp [hans] at hact
  · rw [if_neg harmed] at hact
    obtain rfl := Option.some.inj hact
    refine .inr (.inl ?_)
    show w.responseTimeout = false
    simpa [htime] using harmed

/-- What a turn makes of the time that `poll` is told. -/
theorem tick_nextTimeout {w w' : IOWorker} {i : Tick} (h : w.tick i = some w') :
    w'.nextTimeout = w.nextTimeout ∨ w'.nextTimeout = -1 ∨ w'.nextTimeout = w.timeout * 1000 ∨
      ∃ ms, i.answer = .remaining ms ∧ 0 ≤ ms ∧ w'.nextTimeout = ms := by
  obtain ⟨act, hact, rfl⟩ := tick_eq_some.mp h
  by_cases hstage : w.stage = .deadline
  · simp only [IOWorker.act, turn, hstage] at hact
    unfold turnDeadline at hact
    split at hact
    · obtain rfl := Option.some.inj hact
      exact .inl rfl
    split at hact
    · split at hact
      next ms hans =>
        split at hact
        · obtain rfl := Option.some.inj hact
          exact .inr (.inl rfl)
        · obtain rfl := Option.some.inj hact
          exact .inr (.inr (.inr ⟨ms, hans, by omega, rfl⟩))
      · cases hact
    · obtain rfl := Option.some.inj hact
      exact .inr (.inl rfl)
  · -- at the other stages the time is left alone, forgotten, or set by a message that went out
    cases turn_move hact with
    | looped t hdeadline | overdue hdeadline => exact absurd hdeadline hstage
    | started pipeFails mainFails => exact .inl (by cases pipeFails <;> cases mainFails <;> rfl)
    | pollExpired | pollFailed | pollReady | expired => exact .inr (.inl rfl)
    | received c closeFails =>
        refine .inl ?_
        show (w.receive c closeFails).nextTimeout = _
        unfold receive
        dsimp only
        split
        · rfl
        · split <;> rfl
    | pollExit | corruptedExit | leaveExit => exact .inl (by cases i.reply <;> rfl)
    | offerIntro | offerTrick => exact .inr (.inl (by cases i.reply <;> rfl))
    | offerInvalid =>
        cases i.reply
        · exact .inl rfl
        · exact .inr (.inl rfl)
    | sent job rest n closeFails | sentLast job rest n closeFails =>
        cases i.reply
        · exact .inl rfl
        · simp only [Action.next, if_true, transmit]
          split
          · exact .inr (.inr (.inl rfl))
          · exact .inl rfl
    | _ => exact .inl rfl

/-- The time that is left is never more than the timeout. -/
def Clocked (timeout : Int) (i : Tick) : Prop := ∀ ms, i.answer = .remaining ms → ms ≤ timeout * 1000

/-- **What `poll` is told** is a time up to the timeout, or `-1`. -/
theorem nextTimeout_le {kind : WorkerKind} {timeout fd : Int} {is : List Tick} {w : IOWorker} (htime : 0 ≤ timeout)
    (h : exec tick (.new kind timeout fd) is = some w) (hclock : ∀ i ∈ is, Clocked timeout i) :
    -1 ≤ w.nextTimeout ∧ w.nextTimeout ≤ timeout * 1000 := by
  have hrun : w.timeout = timeout ∧ -1 ≤ w.nextTimeout ∧ w.nextTimeout ≤ timeout * 1000 := by
    refine exec_induction (P := fun is w => (∀ i ∈ is, Clocked timeout i) →
      w.timeout = timeout ∧ -1 ≤ w.nextTimeout ∧ w.nextTimeout ≤ timeout * 1000) ?_ ?_ is w h hclock
    · exact fun _ => ⟨rfl, le_refl _, by show (-1 : Int) ≤ _; omega⟩
    · intro is w i w' hexec ih htick hclock
      obtain ⟨hfixed, hlow, hhigh⟩ := ih fun j hj => hclock j (List.mem_append_left _ hj)
      obtain ⟨act, hact, hnext⟩ := tick_eq_some.mp htick
      have hsame := ((turn_move hact).fixed i.reply).1
      rw [hnext] at hsame
      refine ⟨hsame.trans hfixed, ?_⟩
      rcases tick_nextTimeout htick with heq | heq | heq | ⟨ms, hans, hms, heq⟩
      · rw [heq]
        exact ⟨hlow, hhigh⟩
      · omega
      · rw [heq, hfixed]
        omega
      · have hle := hclock i (by simp) ms hans
        omega
  exact hrun.2

/-- It fits into an `int` for a timeout of up to 2147483 seconds. -/
theorem nextTimeout_int {kind : WorkerKind} {timeout fd : Int} {is : List Tick} {w : IOWorker} (htime : 0 ≤ timeout)
    (hbound : timeout ≤ 2147483) (h : exec tick (.new kind timeout fd) is = some w)
    (hclock : ∀ i ∈ is, Clocked timeout i) : -2 ^ 31 ≤ w.nextTimeout ∧ w.nextTimeout < 2 ^ 31 := by
  obtain ⟨hlow, hhigh⟩ := nextTimeout_le htime h hclock
  constructor <;> omega

/-- The stages from which a thread comes to `poll`. -/
theorem poll_successor {stage : Stage} (h : Stage.poll ∈ successors stage) :
    stage = .start ∨ stage = .expired ∨ stage = .pollFailed ∨ stage = .deadline := by
  cases stage <;> simp_all [successors]

/-- Nothing leads back to the start of the loop. -/
theorem start_successor {stage : Stage} : Stage.start ∉ successors stage := by
  cases stage <;> simp [successors]

/-- Before the loop neither deadline changes, and no callback is made. -/
theorem start_cases {w : IOWorker} {i : Tick} {act : Action} (hstage : w.stage = .start)
    (hact : w.act i = some act) : act.call? = none ∧
      (act.next i.reply).responseTimeout = w.responseTimeout ∧
      (act.next i.reply).nextTimeout = w.nextTimeout := by
  simp only [IOWorker.act, turn, hstage] at hact
  cases hans : i.answer with
  | fcntl pipeFails mainFails =>
      rw [hans] at hact
      obtain rfl := Option.some.inj hact
      refine ⟨rfl, ?_, ?_⟩ <;> cases pipeFails <;> cases mainFails <;> rfl
  | _ => simp [hans, turnStart] at hact

/-- After a failed `poll` the connection is closed. -/
theorem pollFailed_closed {w : IOWorker} {i : Tick} {act : Action} (hact : w.act i = some act)
    (hnext : (act.next i.reply).stage = .pollFailed) (hstage : w.stage = .poll) :
    (act.next i.reply).closedFd = true := by
  simp only [IOWorker.act, turn, hstage] at hact
  cases hans : i.answer with
  | pollFailed =>
      rw [hans] at hact
      obtain rfl := Option.some.inj hact
      rfl
  | pollExpired | pollReady =>
      rw [hans, turnPoll] at hact
      split at hact
      · obtain rfl := Option.some.inj hact
        cases hnext
      · cases hact
  | _ => simp [hans, turnPoll] at hact

end IOWorker

/-- A thread with what happened to its deadline. -/
structure Watch where
  worker : IOWorker
  /-- the thread has polled before -/
  polled : Bool
  /-- `timeoutCb` has been called since `responseTimeout` was set -/
  called : Bool

namespace Watch

def start (kind : WorkerKind) (timeout fd : Int) : Watch := ⟨.new kind timeout fd, false, false⟩

def step (v : Watch) (i : Tick) : Option Watch :=
  (v.worker.act i).map fun act =>
    { worker := act.next i.reply
      polled := v.polled || v.worker.stage == .poll
      called := !v.worker.arms i && (v.called || act.call? == some (.handleTimeout i.ix)) }

/-- A deadline that is set, and that `timeoutCb` has not been called for, does not let `poll` wait for
ever. -/
def Awake (v : Watch) : Prop :=
  v.worker.responseTimeout = true → v.called = false → v.worker.nextTimeout ≠ -1

variable {v v' : Watch} {i : Tick}

theorem step_eq_some (h : v.step i = some v') : ∃ act, v.worker.act i = some act ∧
    v'.worker = act.next i.reply ∧ v'.polled = (v.polled || v.worker.stage == .poll) ∧
    v'.called = (!v.worker.arms i && (v.called || act.call? == some (.handleTimeout i.ix))) := by
  obtain ⟨act, hact, rfl⟩ := Option.map_eq_some_iff.mp h
  exact ⟨act, hact, rfl, rfl, rfl⟩

/-- Every run of a thread can be watched. -/
theorem watched {kind : WorkerKind} {timeout fd : Int} {w : IOWorker}
    (h : Reachable IOWorker.tick (.new kind timeout fd) w) :
    ∃ v, Reachable step (start kind timeout fd) v ∧ v.worker = w := by
  refine h.invariant (P := fun w => ∃ v, Reachable step (start kind timeout fd) v ∧ v.worker = w)
    ⟨start kind timeout fd, .refl _, rfl⟩ ?_
  rintro w i w' ⟨v, hreach, rfl⟩ htick
  obtain ⟨act, hact, rfl⟩ := IOWorker.tick_eq_some.mp htick
  exact ⟨_, hreach.tail (Option.map_eq_some_iff.mpr ⟨act, hact, rfl⟩), rfl⟩

/-- What every run keeps: before its first `poll` a thread is as it was built, and from then on it comes to
`poll` awake. -/
structure Kept (timeout : Int) (v : Watch) : Prop where
  timeout : v.worker.timeout = timeout
  unpolled : v.polled = false → v.worker.stage ∈ [Stage.start, .poll, .last, .done]
  fresh : v.polled = false → v.worker.stage ∈ [Stage.start, .poll] →
    v.worker.responseTimeout = true ∧ v.called = false ∧ v.worker.nextTimeout = -1
  started : v.polled = true → v.worker.stage ≠ .start
  failed : v.worker.stage = .pollFailed → v.worker.closedFd = true
  awake : v.polled = true → v.worker.stage = .poll → v.worker.closedFd = false → v.Awake

theorem Kept.start {timeout : Int} (kind : WorkerKind) (fd : Int) :
    Kept timeout (Watch.start kind timeout fd) where
  timeout := rfl
  unpolled := by simp [Watch.start, IOWorker.new]
  fresh := by simp [Watch.start, IOWorker.new]
  started := by simp [Watch.start]
  failed := by simp [Watch.start, IOWorker.new]
  awake := by simp [Watch.start]

/-- A thread that comes to `poll` once more is awake. -/
theorem Kept.awake_step {timeout : Int} (htime : 0 < timeout) (h : Kept timeout v)
    (hstep : v.step i = some v') (hpolled : v'.polled = true) (hpoll : v'.worker.stage = .poll)
    (hopen : v'.worker.closedFd = false) : v'.Awake := by
  obtain ⟨act, hact, hworker, hpolled', hcalled⟩ := step_eq_some hstep
  have hnext : Stage.poll ∈ IOWorker.successors v.worker.stage := by
    rw [← hpoll, hworker]
    exact (IOWorker.turn_move hact).successor i.reply
  rcases IOWorker.poll_successor hnext with hstage | hstage | hstage | hstage
  · -- the first `poll` is still ahead
    rw [hpolled', hstage] at hpolled
    exact absurd hstage (h.started (by simpa using hpolled))
  · -- `timeoutCb` has been called, and the deadline is gone
    intro harmed
    obtain rfl : act = v.worker.turnExpired i.ix := by
      simpa [IOWorker.act, IOWorker.turn, hstage] using hact.symm
    rw [hworker] at harmed
    cases harmed
  · -- a failed `poll` closes the connection
    obtain rfl : act = v.worker.exit i.ix v.worker.loop := by
      simpa [IOWorker.act, IOWorker.turn, hstage] using hact.symm
    have hclosed : v'.worker.closedFd = v.worker.closedFd := by
      rw [hworker]
      cases i.reply <;> rfl
    rw [hclosed, h.failed hstage] at hopen
    cases hopen
  · intro harmed hnot
    rw [hworker] at harmed ⊢
    rcases IOWorker.deadline_cases hstage hact (h.timeout.symm ▸ htime) with hset | hunset | hcall
    · exact hset
    · rw [hunset] at harmed
      cases harmed
    · have harms : v.worker.arms i = false := by simp [IOWorker.arms, hstage]
      rw [hcalled, harms, hcall] at hnot
      simp at hnot

theorem Kept.step {timeout : Int} (htime : 0 < timeout) (h : Kept timeout v)
    (hstep : v.step i = some v') : Kept timeout v' := by
  obtain ⟨act, hact, hworker, hpolled, hcalled⟩ := step_eq_some hstep
  have hmove := IOWorker.turn_move hact
  have hnext := hmove.successor i.reply
  rw [← hworker] at hnext
  have hearly : v'.polled = false → v.polled = false ∧ v.worker.stage ≠ .poll := by
    rw [hpolled]
    simp
  constructor
  case timeout =>
    rw [hworker, (hmove.fixed i.reply).1]
    exact h.timeout
  case unpolled =>
    intro hun
    obtain ⟨hun, hne⟩ := hearly hun
    have hstage := h.unpolled hun
    simp only [List.mem_cons, List.not_mem_nil, or_false, hne, false_or] at hstage
    -- without a `poll` behind it a thread is at its start, in front of `poll`, or at its end
    rcases hstage with hstage | hstage | hstage <;> rw [hstage] at hnext <;> revert hnext <;>
      cases v'.worker.stage <;> simp [IOWorker.successors]
  case fresh =>
    intro hun hstage'
    obtain ⟨hun, hne⟩ := hearly hun
    -- only the start leads to the first `poll`
    have hstart : v.worker.stage = .start := by
      have hstage := h.unpolled hun
      simp only [List.mem_cons, List.not_mem_nil, or_false, hne, false_or] at hstage hstage'
      rcases hstage with hstage | hstage | hstage
      · exact hstage
      · rw [hstage] at hnext
        rcases hstage' with hs | hs <;> simp [hs, IOWorker.successors] at hnext
      · rw [hstage] at hnext
        cases hnext
    obtain ⟨hcall, hresponse, htimeout⟩ := IOWorker.start_cases hstart hact
    obtain ⟨harmed, hnot, hinf⟩ := h.fresh hun (by simp [hstart])
    refine ⟨?_, ?_, ?_⟩
    · rw [hworker, hresponse, harmed]
    · simp [hcalled, hcall, hnot]
    · rw [hworker, htimeout, hinf]
  case started =>
    intro _ hstart
    rw [hstart] at hnext
    exact IOWorker.start_successor hnext
  case failed =>
    intro hfailed
    have hpoll : v.worker.stage = .poll := by
      rw [hfailed] at hnext
      revert hnext
      cases v.worker.stage <;> simp [IOWorker.successors]
    rw [hworker] at hfailed ⊢
    exact IOWorker.pollFailed_closed hact hfailed hpoll
  case awake => exact fun hpol hpoll hopen => h.awake_step htime hstep hpol hpoll hopen

/-- **The deadline at a `poll`**: a worker with a timeout and an open connection comes awake to every
`poll` but its first. -/
theorem awake_iff {kind : WorkerKind} {timeout fd : Int} {v : Watch} (htime : 0 < timeout)
    (hreach : Reachable Watch.step (Watch.start kind timeout fd) v) (hpoll : v.worker.stage = .poll)
    (hopen : v.worker.closedFd = false) : v.Awake ↔ v.polled = true := by
  have hkept : Kept timeout v :=
    hreach.invariant (Kept.start kind fd) fun _ _ _ h hstep => h.step htime hstep
  refine ⟨fun hawake => ?_, fun hpolled => hkept.awake hpolled hpoll hopen⟩
  cases hpolled : v.polled with
  | true => rfl
  | false =>
      obtain ⟨harmed, hnot, hinf⟩ := hkept.fresh hpolled (by simp [hpoll])
      exact absurd hinf (hawake harmed hnot)

/-- A turn of worker 1 of a server that knows nothing of it. -/
def quiet (a : Answer) (reply : Bool) : Tick := ⟨.new [] 5, 1, a, false, reply⟩

/-- A turn of the loop without a byte from the connection: the pipe has woken `poll`. -/
def wakeUp : List Tick :=
  [quiet .pollReady true, quiet .pipeEmpty true, quiet .recvBlocked true, quiet .go true, quiet .go true,
    quiet .go true, quiet .go true, quiet .go true, quiet .go true, quiet (.remaining 3000) true]

/-- After a turn of the loop the worker waits for three seconds at most. -/
theorem awake_iff_wakeUp : ∃ v, exec Watch.step (Watch.start .handler 5 7)
    (quiet (.fcntl false false) true :: wakeUp) = some v ∧ v.Awake := by
  obtain ⟨v, hrun, hpoll, hopen, hpolled⟩ : ∃ v, exec Watch.step (Watch.start .handler 5 7)
      (quiet (.fcntl false false) true :: wakeUp) = some v ∧ v.worker.stage = .poll ∧
        v.worker.closedFd = false ∧ v.polled = true := ⟨_, rfl, rfl, rfl, rfl⟩
  exact ⟨v, hrun, (awake_iff (by decide) ⟨_, hrun⟩ hpoll hopen).mpr hpolled⟩

/-- A new connection that sends nothing: the worker waits in its first `poll` without a limit, and the
timeout cannot end the `poll`. -/
theorem not_awake_silent : ∃ v, exec Watch.step (Watch.start .handler 5 7)
    [quiet (.fcntl false false) true] = some v ∧ v.worker.stage = .poll ∧ v.worker.closedFd = false ∧
      ¬ v.Awake ∧ ∀ i, i.answer = .pollExpired → v.step i = none := by
  refine ⟨_, rfl, rfl, rfl, fun hawake => hawake rfl rfl rfl, fun i hans => ?_⟩
  rw [step, Option.map_eq_none_iff]
  show IOWorker.turnPoll _ _ _ i.answer = none
  rw [hans]
  rfl

end Watch

end Kierki
