import Kierki.Server.System

/-!
# A thread by itself

`IOWorker.tick` lets one thread take one turn beside a server that may be in any state and may answer
anything: what holds of all runs of ticks holds of a thread whatever its callbacks do.  The threads of
the system are threads of this kind (`System.thread_ticks`).
-/

namespace Kierki

open Execution

/-- What a turn of a thread depends on: the server beside it, how the system calls come out, and what the
server answers if it is called. -/
structure Tick where
  server : Server
  ix : Nat
  answer : Answer
  closeFails : Bool
  reply : Bool

namespace IOWorker

/-- What a thread is about to do. -/
def act (w : IOWorker) (i : Tick) : Option Action := w.turn i.server i.ix i.answer i.closeFails

/-- One turn of a thread. -/
def tick (w : IOWorker) (i : Tick) : Option IOWorker := (w.act i).map fun act => act.next i.reply

theorem tick_eq_some {w w' : IOWorker} {i : Tick} :
    w.tick i = some w' ↔ ∃ act, w.act i = some act ∧ act.next i.reply = w' := by
  rw [tick, Option.map_eq_some_iff]

/-- The timeout and the kind of a worker are set once and for all. -/
theorem Move.fixed {σ : Server} {ix : Nat} {w : IOWorker} {act : Action} (h : w.Move σ ix act) (b : Bool) :
    (act.next b).timeout = w.timeout ∧ (act.next b).kind = w.kind := by
  cases h with
  | started pipeFails mainFails => cases pipeFails <;> cases mainFails <;> exact ⟨rfl, rfl⟩
  | received c closeFails =>
      show (w.receive c closeFails).timeout = w.timeout ∧ (w.receive c closeFails).kind = w.kind
      unfold receive
      dsimp only
      split
      · exact ⟨rfl, rfl⟩
      · split <;> exact ⟨rfl, rfl⟩
  | pollExit | corruptedExit | leaveExit => cases b <;> exact ⟨rfl, rfl⟩
  | offerInvalid | offerIntro | offerTrick => cases b <;> exact ⟨rfl, rfl⟩
  | sent | sentLast =>
      cases b
      · exact ⟨rfl, rfl⟩
      · simp only [Action.next, if_true, transmit]
        split <;> exact ⟨rfl, rfl⟩
  | _ => exact ⟨rfl, rfl⟩

end IOWorker

namespace System

/-- A turn of the system is a tick of one thread; the other threads stay, and one may be new. -/
theorem step_tick {S S' : System} {ev : Event} (h : S.step ev = some S') {jx : Nat} {w' : IOWorker}
    (hw' : S'.threads jx = some w') :
    S.threads jx = some w' ∨ (∃ w i, S.threads jx = some w ∧ w.tick i = some w') ∨
      ∃ fd, w' = .new .handler S.server.timeout fd := by
  cases ev with
  | cleaner =>
      obtain rfl := Option.some.inj h
      exact .inl hw'
  | worker ix a closeFails =>
      cases hact : S.action ix a closeFails with
      | none => simp [step, hact] at h
      | some act =>
          obtain ⟨w, hw, hturn⟩ := Option.bind_eq_some_iff.mp hact
          -- the thread whose turn it is goes on with the answer `b`
          have hown : ∀ b, act.next b = w' → jx = ix →
              ∃ w i, S.threads jx = some w ∧ w.tick i = some w' := by
            rintro b rfl rfl
            exact ⟨w, ⟨S.server, jx, a, closeFails, b⟩, hw, IOWorker.tick_eq_some.mpr ⟨act, hturn, rfl⟩⟩
          simp only [step, hact] at h
          cases act with
          | silent w₁ =>
              obtain rfl := Option.some.inj h
              by_cases hjx : jx = ix
              · refine .inr (.inl (hown true ?_ hjx))
                subst hjx
                simpa [Action.next] using hw'
              · exact .inl (by rwa [setThread_of_ne _ _ hjx] at hw')
          | call e k =>
              obtain ⟨b, σ, -, rfl⟩ := call_eq_some h
              by_cases hjx : jx = ix
              · refine .inr (.inl (hown b ?_ hjx))
                subst hjx
                simpa [Action.next] using hw'
              · exact .inl (by rwa [setThread_of_ne _ _ hjx] at hw')
          | connect fd w₁ =>
              obtain rfl := Option.some.inj h
              by_cases hjx : jx = ix
              · refine .inr (.inl (hown true ?_ hjx))
                subst hjx
                simpa [System.connect, Action.next] using hw'
              · rw [System.connect, setThread_of_ne _ _ hjx] at hw'
                by_cases hnew : jx = S.server.workerMgr.nextIx
                · subst hnew
                  exact .inr (.inr ⟨fd, by simpa using hw'.symm⟩)
                · exact .inl (by rwa [setThread_of_ne _ _ hnew] at hw')

/-- **The threads of the system are threads by themselves.** -/
theorem thread_ticks {scenario : GameScenario} {timeout tcpListenSock : Int} {evs : List Event}
    {S : System} (h : run scenario timeout tcpListenSock evs = some S) {jx : Nat} {w : IOWorker}
    (hw : S.threads jx = some w) :
    ∃ kind timeout fd, Reachable IOWorker.tick (.new kind timeout fd) w := by
  obtain ⟨S₀, h₀, hevs⟩ := run_eq_some.mp h
  refine Reachable.invariant (P := fun S => ∀ jx w, S.threads jx = some w →
    ∃ kind timeout fd, Reachable IOWorker.tick (.new kind timeout fd) w) ⟨evs, hevs⟩ ?_ ?_ jx w hw
  · intro jx w hw
    obtain ⟨-, rfl⟩ := start_thread h₀ hw
    exact ⟨_, _, _, .refl _⟩
  · intro S ev S' ih hstep jx w' hw'
    rcases step_tick hstep hw' with hsame | ⟨w, i, hw, htick⟩ | ⟨fd, rfl⟩
    · exact ih jx w' hsame
    · obtain ⟨kind, timeout, fd, hreach⟩ := ih jx w hw
      exact ⟨kind, timeout, fd, hreach.tail htick⟩
    · exact ⟨_, _, _, .refl _⟩

end System

end Kierki
