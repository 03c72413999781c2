import Kierki.Server.Effect
import Kierki.Server.Move

/-!
# The server with its threads

`System` is the server together with the threads of its workers, and `System.step` lets one thread, or
the cleaner, take one turn.  A turn makes at most one call of the server, so that a run of the system
is a run of the server with the calls the threads make (`exec_server`), and what holds of all runs of
the server holds here.
-/

namespace Kierki

open Execution

/-- The server and its threads. -/
structure System where
  server : Server
  threads : Nat → Option IOWorker

/-- Whose turn it is, and how the system calls of the turn come out. -/
inductive Event
  | worker (ix : Nat) (a : Answer) (closeFails : Bool)
  | cleaner
  deriving DecidableEq, Repr

namespace System

/-- `Server::run` up to `waitForClearing`: the accepting worker has the descriptor `tcpListenSock`. -/
def start (scenario : GameScenario) (timeout tcpListenSock : Int) : Except Fault System := do
  let σ ← Server.start scenario timeout
  return ⟨σ, Function.update (fun _ => none) 0 (some (.new .connect (-1) tcpListenSock))⟩

/-- The thread of worker `ix` goes on as `w`. -/
def setThread (S : System) (ix : Nat) (w : IOWorker) : System :=
  { S with threads := Function.update S.threads ix (some w) }

/-- Worker `ix` calls the server, and goes on with the answer. -/
def call (S : System) (ix : Nat) (e : Server.Call) (k : Bool → IOWorker) : Option System :=
  match S.server.handle e with
  | .ok (b, σ) => some ({ S with server := σ }.setThread ix (k b))
  | .error _ => none

/-- `accCb`: a new worker, with a thread of its own. -/
def connect (S : System) (ix : Nat) (fd : Int) (w : IOWorker) : System :=
  ({ S with server := S.server.forwardConnection }.setThread S.server.workerMgr.nextIx
    (.new .handler S.server.timeout fd)).setThread ix w

/-- What the thread of worker `ix` is about to do. -/
def action (S : System) (ix : Nat) (a : Answer) (closeFails : Bool) : Option Action :=
  (S.threads ix).bind fun w => w.turn S.server ix a closeFails

/-- One turn.  There is none when the thread is blocked or gone, and when the process ends. -/
def step (S : System) : Event → Option System
  | .cleaner =>
      some { S with server :=
        { S.server with workerMgr := S.server.workerMgr.waitForClearing } }
  | .worker ix a closeFails =>
      match S.action ix a closeFails with
      | none => none
      | some (.silent w') => some (S.setThread ix w')
      | some (.call e k) => S.call ix e k
      | some (.connect fd w') => some (S.connect ix fd w')

/-- The state after the turns `evs`. -/
def run (scenario : GameScenario) (timeout tcpListenSock : Int) (evs : List Event) :
    Option System :=
  match start scenario timeout tcpListenSock with
  | .ok S => exec step S evs
  | .error _ => none

/-- The call that a turn makes. -/
def callOf (S : System) : Event → Option Server.Call
  | .cleaner => some .waitForClearing
  | .worker ix a closeFails => (S.action ix a closeFails).bind Action.call?

/-- The calls of a run. -/
def calls (scenario : GameScenario) (timeout tcpListenSock : Int) (evs : List Event) :
    List Server.Call :=
  match start scenario timeout tcpListenSock with
  | .ok S => record step (fun S ev _ => (S.callOf ev).toList) S evs
  | .error _ => []

@[simp] theorem setThread_server (S : System) (ix : Nat) (w : IOWorker) :
    (S.setThread ix w).server = S.server := rfl

@[simp] theorem setThread_self (S : System) (ix : Nat) (w : IOWorker) :
    (S.setThread ix w).threads ix = some w := by
  simp [setThread]

theorem setThread_of_ne (S : System) {ix jx : Nat} (w : IOWorker) (h : jx ≠ ix) :
    (S.setThread ix w).threads jx = S.threads jx := by
  simp [setThread, h]

/-- The outcomes of a turn. -/
inductive Turn (S : System) : Event → System → Prop
  | cleaner : Turn S .cleaner
      { S with server := { S.server with workerMgr := S.server.workerMgr.waitForClearing } }
  | silent (ix : Nat) (a : Answer) (closeFails : Bool) (w w' : IOWorker)
      (hw : S.threads ix = some w) (hmove : w.Move S.server ix (.silent w'))
      (hcall : S.callOf (.worker ix a closeFails) = none) :
      Turn S (.worker ix a closeFails) (S.setThread ix w')
  | call (ix : Nat) (a : Answer) (closeFails : Bool) (w : IOWorker) (e : Server.Call)
      (k : Bool → IOWorker) (b : Bool) (σ : Server) (hw : S.threads ix = some w)
      (hmove : w.Move S.server ix (.call e k))
      (hcall : S.callOf (.worker ix a closeFails) = some e)
      (hhandle : S.server.handle e = .ok (b, σ)) :
      Turn S (.worker ix a closeFails) ({ S with server := σ }.setThread ix (k b))
  | connect (ix : Nat) (a : Answer) (closeFails : Bool) (w w' : IOWorker) (fd : Int)
      (hw : S.threads ix = some w) (hmove : w.Move S.server ix (.connect fd w'))
      (hcall : S.callOf (.worker ix a closeFails) = some .forwardConnection) :
      Turn S (.worker ix a closeFails) (S.connect ix fd w')

theorem call_eq_some {S S' : System} {ix : Nat} {e : Server.Call} {k : Bool → IOWorker}
    (h : S.call ix e k = some S') : ∃ b σ, S.server.handle e = .ok (b, σ) ∧
      S' = { S with server := σ }.setThread ix (k b) := by
  unfold call at h
  split at h
  case h_1 b σ hhandle => exact ⟨b, σ, hhandle, (Option.some.inj h).symm⟩
  case h_2 => cases h

theorem step_turn {S S' : System} {ev : Event} (h : S.step ev = some S') : Turn S ev S' := by
  cases ev with
  | cleaner =>
      obtain rfl := Option.some.inj h
      exact .cleaner
  | worker ix a closeFails =>
      cases hact : S.action ix a closeFails with
      | none => simp [step, hact] at h
      | some act =>
          obtain ⟨w, hw, hturn⟩ := Option.bind_eq_some_iff.mp hact
          have hmove := IOWorker.turn_move hturn
          have hcall : S.callOf (.worker ix a closeFails) = act.call? := by
            rw [callOf, hact]
            rfl
          simp only [step, hact] at h
          cases act with
          | silent w' =>
              obtain rfl := Option.some.inj h
              exact .silent ix a closeFails w w' hw hmove hcall
          | connect fd w' =>
              obtain rfl := Option.some.inj h
              exact .connect ix a closeFails w w' fd hw hmove hcall
          | call e k =>
              obtain ⟨b, σ, hhandle, rfl⟩ := call_eq_some h
              exact .call ix a closeFails w e k b σ hw hmove hcall hhandle

/-- A turn is the call it makes, or nothing at all, to the server. -/
theorem Turn.server {S S' : System} {ev : Event} (h : Turn S ev S') :
    (S.callOf ev = none ∧ S'.server = S.server) ∨
      ∃ e b, S.callOf ev = some e ∧ S.server.handle e = .ok (b, S'.server) := by
  cases h with
  | cleaner => exact .inr ⟨.waitForClearing, true, rfl, rfl⟩
  | silent ix a closeFails w w' hw _ hcall => exact .inl ⟨hcall, rfl⟩
  | call ix a closeFails w e k b σ hw _ hcall hhandle => exact .inr ⟨e, b, hcall, hhandle⟩
  | connect ix a closeFails w w' fd hw _ hcall =>
      exact .inr ⟨.forwardConnection, true, hcall, rfl⟩

/-- **What becomes of a thread in one turn**: it is another one's turn, it takes its own turn, with the
answer of the call it makes, or it has just been spawned. -/
theorem Turn.thread {S S' : System} {ev : Event} (h : Turn S ev S') {jx : Nat} {w' : IOWorker}
    (hw' : S'.threads jx = some w') :
    (S.threads jx = some w' ∧ ∀ a closeFails, ev ≠ .worker jx a closeFails) ∨
    (∃ a closeFails w act b, ev = .worker jx a closeFails ∧ S.threads jx = some w ∧
      w.Move S.server jx act ∧ S.callOf ev = act.call? ∧ w' = act.next b ∧
      ∀ e, act.call? = some e → S.server.handle e = .ok (b, S'.server)) ∨
    (jx = S.server.workerMgr.nextIx ∧ S.callOf ev = some .forwardConnection ∧
      ∃ fd, w' = .new .handler S.server.timeout fd) := by
  cases h with
  | cleaner => exact .inl ⟨hw', by simp⟩
  | silent ix a closeFails w w₁ hw hmove hcall =>
      by_cases hjx : jx = ix
      · subst hjx
        obtain rfl : w₁ = w' := by simpa using hw'
        exact .inr (.inl ⟨a, closeFails, w, _, true, rfl, hw, hmove, hcall, rfl,
          by simp [Action.call?]⟩)
      · exact .inl ⟨by rwa [setThread_of_ne _ _ hjx] at hw', by simp [Ne.symm hjx]⟩
  | call ix a closeFails w e k b σ hw hmove hcall hhandle =>
      by_cases hjx : jx = ix
      · subst hjx
        obtain rfl : k b = w' := by simpa using hw'
        refine .inr (.inl ⟨a, closeFails, w, _, b, rfl, hw, hmove, hcall, rfl, ?_⟩)
        rintro _ ⟨rfl⟩
        exact hhandle
      · exact .inl ⟨by rwa [setThread_of_ne _ _ hjx] at hw', by simp [Ne.symm hjx]⟩
  | connect ix a closeFails w w₁ fd hw hmove hcall =>
      by_cases hjx : jx = ix
      · subst hjx
        obtain rfl : w₁ = w' := by simpa [System.connect] using hw'
        refine .inr (.inl ⟨a, closeFails, w, _, true, rfl, hw, hmove, hcall, rfl, ?_⟩)
        rintro _ ⟨rfl⟩
        rfl
      · rw [System.connect, setThread_of_ne _ _ hjx] at hw'
        -- the thread of the listening socket and the new one are the two that change
        by_cases hnew : jx = S.server.workerMgr.nextIx
        · subst hnew
          obtain rfl : IOWorker.new .handler S.server.timeout fd = w' := by simpa using hw'
          exact .inr (.inr ⟨rfl, hcall, fd, rfl⟩)
        · exact .inl ⟨by rwa [setThread_of_ne _ _ hnew] at hw', by simp [Ne.symm hjx]⟩

theorem start_eq_ok {scenario : GameScenario} {timeout tcpListenSock : Int} {S : System}
    (h : start scenario timeout tcpListenSock = .ok S) :
    Server.start scenario timeout = .ok S.server ∧
      S.threads = Function.update (fun _ => none) 0 (some (.new .connect (-1) tcpListenSock)) := by
  unfold start at h
  simp only [Fallible.bind_eq_ok, Fallible.pure_eq_ok_iff] at h
  obtain ⟨σ, hσ, rfl⟩ := h
  exact ⟨hσ, rfl⟩

/-- At first there is only the accepting thread. -/
theorem start_thread {scenario : GameScenario} {timeout tcpListenSock : Int} {S : System}
    (h : start scenario timeout tcpListenSock = .ok S) {ix : Nat} {w : IOWorker} (hw : S.threads ix = some w) :
    ix = 0 ∧ w = .new .connect (-1) tcpListenSock := by
  rw [(start_eq_ok h).2] at hw
  by_cases hix : ix = 0
  · subst hix
    exact ⟨rfl, by simpa using hw.symm⟩
  · simp [hix] at hw

/-- The state in which the threads start, once the first round is there. -/
def started (scenario : GameScenario) (timeout tcpListenSock : Int) (r : Round) : System :=
  ⟨Server.started scenario timeout r,
    Function.update (fun _ => none) 0 (some (.new .connect (-1) tcpListenSock))⟩

theorem start_cons (r : Round) (rounds : GameScenario) (timeout tcpListenSock : Int) :
    start (r :: rounds) timeout tcpListenSock = .ok (started (r :: rounds) timeout tcpListenSock r) := by
  rw [start, Server.start_cons]
  rfl

theorem run_eq_some {scenario : GameScenario} {timeout tcpListenSock : Int} {evs : List Event}
    {S : System} : run scenario timeout tcpListenSock evs = some S ↔
      ∃ S₀, start scenario timeout tcpListenSock = .ok S₀ ∧ exec step S₀ evs = some S := by
  unfold run
  cases start scenario timeout tcpListenSock <;> simp

theorem run_concat {scenario : GameScenario} {timeout tcpListenSock : Int} {evs : List Event} {ev : Event}
    {S S' : System} (h : run scenario timeout tcpListenSock evs = some S) (hstep : S.step ev = some S') :
    run scenario timeout tcpListenSock (evs ++ [ev]) = some S' ∧
      calls scenario timeout tcpListenSock (evs ++ [ev]) =
        calls scenario timeout tcpListenSock evs ++ (S.callOf ev).toList := by
  obtain ⟨S₀, h₀, hevs⟩ := run_eq_some.mp h
  refine ⟨run_eq_some.mpr ⟨S₀, h₀, exec_concat_eq_some.mpr ⟨S, hevs, hstep⟩⟩, ?_⟩
  simp only [calls, h₀]
  exact record_concat _ hevs hstep

/-- **A run of the system is a run of the server.** -/
theorem run_server {scenario : GameScenario} {timeout tcpListenSock : Int} {evs : List Event}
    {S : System} (h : run scenario timeout tcpListenSock evs = some S) :
    Server.run scenario timeout (calls scenario timeout tcpListenSock evs) = some S.server := by
  obtain ⟨S₀, h₀, hevs⟩ := run_eq_some.mp h
  rw [Server.run_eq_some]
  refine ⟨S₀.server, (start_eq_ok h₀).1, ?_⟩
  rw [calls, h₀]
  have hsim : ∀ S ev S', step S ev = some S' →
      exec Server.step S.server (S.callOf ev).toList = some S'.server := by
    intro S ev S' hstep
    rcases (step_turn hstep).server with ⟨hnone, hsame⟩ | ⟨e, b, hcall, hhandle⟩
    · rw [hnone, hsame]
      rfl
    · rw [hcall]
      simp [exec, Server.step_eq_some.mpr ⟨b, hhandle⟩]
  exact exec_simulation System.server _ hsim hevs

end System

end Kierki
