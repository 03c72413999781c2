import Kierki.Server.Shutdown
import Kierki.Server.Ticks

/-!
# The descriptor a worker polls

`IOWorker::run` changes the sign of `pollFds[0].fd` around `poll` while a message is parked, and `closeConn`
sets it to `-1`.  The two ways to switch a descriptor off undo each other: with a message parked on a closed
connection `poll` watches descriptor 1.
-/

namespace Kierki

open Execution

namespace IOWorker

/-- `poll` watches the worker's own open socket, and nothing while the socket is closed or a message is
parked. -/
def WatchesOwn (w : IOWorker) : Prop :=
  if w.closedFd = false ∧ w.pendingIncoming = [] then w.watchedFd = w.mainFd else w.watchedFd < 0

/-- What every turn keeps: the number of the socket, and in `pollFds[0].fd` this number or `-1`. -/
structure Polls (fd : Int) (w : IOWorker) : Prop where
  mainFd : w.mainFd = fd
  pollFd : w.pollFd = if w.closedFd then -1 else w.mainFd

theorem Polls.new (kind : WorkerKind) (timeout fd : Int) : Polls fd (.new kind timeout fd) := ⟨rfl, rfl⟩

variable {fd : Int} {w : IOWorker}

/-- A turn that does not close the connection leaves all three descriptors alone. -/
theorem Polls.of_eq (h : Polls fd w) {w' : IOWorker} (hmain : w'.mainFd = w.mainFd)
    (hpoll : w'.pollFd = w.pollFd) (hclosed : w'.closedFd = w.closedFd) : Polls fd w' := by
  refine ⟨hmain.trans h.mainFd, ?_⟩
  rw [hpoll, hclosed, hmain]
  exact h.pollFd

theorem Polls.transmit (h : Polls fd w) (job : SendJob) (rest : List SendJob) (n : Nat)
    (closeFails : Bool) : Polls fd (w.transmit job rest n closeFails) := by
  unfold IOWorker.transmit
  split
  · exact h.of_eq rfl rfl rfl
  · exact ⟨h.mainFd, rfl⟩

theorem Polls.receive (h : Polls fd w) (c : Char) (closeFails : Bool) :
    Polls fd (w.receive c closeFails) := by
  unfold IOWorker.receive
  dsimp only
  split
  · exact ⟨h.mainFd, rfl⟩
  · split <;> exact h.of_eq rfl rfl rfl

/-- **A turn** keeps them, whatever its call answers. -/
theorem Polls.move (h : Polls fd w) {σ : Server} {ix : Nat} {act : Action} (hmove : w.Move σ ix act)
    (b : Bool) : Polls fd (act.next b) := by
  cases hmove with
  | pollFailed closeFails | recvEnd closeFails | recvFailed errType closeFails | closed closeFails =>
      exact ⟨h.mainFd, rfl⟩
  | received c closeFails => exact h.receive c closeFails
  | sent job rest n closeFails | sentLast job rest n closeFails =>
      cases b
      · exact h.of_eq rfl rfl rfl
      · exact h.transmit job rest n closeFails
  | started pipeFails mainFails =>
      apply h.of_eq <;> cases pipeFails <;> cases mainFails <;> rfl
  | pollExit | corruptedExit | leaveExit | offerInvalid | offerIntro | offerTrick =>
      apply h.of_eq <;> cases b <;> rfl
  | _ => exact h.of_eq rfl rfl rfl

theorem polls_run {kind : WorkerKind} {timeout fd : Int} {is : List Tick} {w : IOWorker}
    (h : exec tick (.new kind timeout fd) is = some w) : Polls fd w := by
  refine Reachable.invariant (P := Polls fd) ⟨is, h⟩ (.new kind timeout fd) ?_
  intro w i w' hpolls htick
  obtain ⟨act, hact, rfl⟩ := tick_eq_some.mp htick
  exact hpolls.move (turn_move hact) i.reply

/-- The descriptor that `poll` watches, in the four cases. -/
theorem Polls.watchedFd_eq (h : Polls fd w) :
    w.watchedFd = if w.pendingIncoming = [] then if w.closedFd then -1 else fd
      else if w.closedFd then 1 else -fd := by
  unfold watchedFd
  rw [h.pollFd, h.mainFd]
  cases w.pendingIncoming <;> cases w.closedFd <;> simp

/-- **What a worker polls**: in every state of every run of a thread, beside a server in any state, and so at
every `poll`, it is the worker's own open socket or nothing, unless a message is parked on a connection that
is closed (or on descriptor 0, which has no sign to change). -/
theorem watchesOwn_iff {kind : WorkerKind} {timeout fd : Int} {is : List Tick} {w : IOWorker}
    (h : exec tick (.new kind timeout fd) is = some w) :
    w.WatchesOwn ↔ (w.pendingIncoming ≠ [] → w.closedFd = false ∧ 0 < fd) := by
  have hpolls := polls_run h
  unfold WatchesOwn
  rw [hpolls.watchedFd_eq, hpolls.mainFd]
  by_cases hnone : w.pendingIncoming = []
  · cases w.closedFd <;> simp [hnone]
  · cases w.closedFd <;> simp [hnone]

/-- A turn of worker 1 beside a server that refuses every message. -/
def refused (a : Answer) : Tick := ⟨.new [] 5, 1, a, false, false⟩

/-- A card comes in, is refused and stays parked. -/
def parks : List Tick :=
  [refused (.fcntl false false), refused .pollReady, refused .pipeEmpty] ++
    "TRICK12C\r\n".toList.map (fun c => refused (.recv c)) ++ List.replicate 6 (refused .go) ++
    [refused (.remaining 3000)]

/-- While the connection is open, `poll` does not watch it. -/
theorem watchesOwn_iff_parks : ∃ w, exec tick (.new .handler 5 11) parks = some w ∧ w.stage = .poll ∧
    w.pendingIncoming ≠ [] ∧ w.WatchesOwn := by
  have hfacts : (exec tick (.new .handler 5 11) parks).map (fun w =>
      (w.stage, w.pendingIncoming.length, w.closedFd)) = some (.poll, 1, false) := by decide +kernel
  obtain ⟨w, hw, heq⟩ := Option.map_eq_some_iff.mp hfacts
  simp only [Prod.mk.injEq] at heq
  obtain ⟨hpoll, hparked, hopen⟩ := heq
  refine ⟨w, hw, hpoll, ?_, (watchesOwn_iff hw).mpr fun _ => ⟨hopen, by decide⟩⟩
  rintro hnone
  simp [hnone] at hparked

end IOWorker

namespace System

/-- Worker 1 sits down on `N`, and its player plays a card before anybody else has come, which stays
parked.  Then `poll` fails for worker 0, which ends the server, and worker 1 obeys its kill order. -/
def parkedAndKilled : List Event :=
  oneAccepted ++ [.worker 1 (.fcntl false false) false, .worker 1 .pollReady false,
    .worker 1 .pipeEmpty false] ++
  "IAMN\r\n".toList.map (fun c => .worker 1 (.recv c) false) ++ goes 1 8 ++
  [.worker 1 .pollReady false, .worker 1 .pipeEmpty false] ++
  "TRICK12C\r\n".toList.map (fun c => .worker 1 (.recv c) false) ++ goes 1 7 ++
  serverFails ++ [.worker 1 .pollReady false, .worker 1 .pipeEmpty false] ++ goes 1 11

/-- The connection on descriptor 11 is closed, and the worker polls descriptor 1. -/
theorem not_watchesOwn_parkedAndKilled :
    ∃ S w, run [suitRound] 5 3 parkedAndKilled = some S ∧ S.threads 1 = some w ∧ w.stage = .poll ∧
      w.mainFd = 11 ∧ w.closedFd = true ∧ w.watchedFd = 1 ∧ ¬ w.WatchesOwn := by
  have hfacts : (run [suitRound] 5 3 parkedAndKilled).bind (fun S => (S.threads 1).map fun w =>
      (w.stage, w.mainFd, w.closedFd, w.watchedFd)) = some (.poll, 11, true, 1) := by decide +kernel
  obtain ⟨S, hS, hthread⟩ := Option.bind_eq_some_iff.mp hfacts
  obtain ⟨w, hw, heq⟩ := Option.map_eq_some_iff.mp hthread
  simp only [Prod.mk.injEq] at heq
  obtain ⟨hpoll, hmain, hclosed, hwatched⟩ := heq
  refine ⟨S, w, hS, hw, hpoll, hmain, hclosed, hwatched, fun hown => ?_⟩
  rw [IOWorker.WatchesOwn, hclosed, hwatched] at hown
  simp at hown

/-- **The threads of the system** poll nothing but their own open sockets, with the same exception. -/
theorem thread_watchesOwn_iff {scenario : GameScenario} {timeout tcpListenSock : Int} {evs : List Event}
    {S : System} (h : run scenario timeout tcpListenSock evs = some S) {ix : Nat} {w : IOWorker}
    (hw : S.threads ix = some w) (hfd : 0 < w.mainFd) :
    w.WatchesOwn ↔ (w.pendingIncoming ≠ [] → w.closedFd = false) := by
  obtain ⟨kind, t, fd, is, his⟩ := thread_ticks h hw
  have hmain : w.mainFd = fd := (IOWorker.polls_run his).mainFd
  rw [IOWorker.watchesOwn_iff his, ← hmain]
  exact ⟨fun h hne => (h hne).1, fun h hne => ⟨h hne, hfd⟩⟩

end System

end Kierki
