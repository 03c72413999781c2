import Kierki.Common.Codec
import Kierki.Server.Server

/-!
# A worker's thread

`server/io_worker.cpp`, `server/io_worker_handler.cpp` and `server/io_worker_connect.cpp`: the loop
`IOWorker::run`.  A thread stands at a `Stage` of the loop and takes one turn at a time.  A turn runs
from one system call or callback to the next; an `Answer` says how the system calls of the turn come
out, and the turn is then either silent or makes exactly one call of the server.

`wire` is a history variable: the attempts to send, each with the number of bytes the kernel took.
The logger is left out, and a deadline is only known to be there or not.
-/

namespace Kierki

open Fallible

/-- `MAX_PARSE_LEN`. -/
def MAX_PARSE_LEN : Nat := 1000

/-- The stages of `IOWorker::run`, in the order of the loop. -/
inductive Stage
  /-- the two calls of `fcntl` -/
  | start
  /-- blocked in `poll` -/
  | poll
  /-- `timeoutCb` after an expired `poll` -/
  | expired
  /-- `exitCb` after a failed `poll` -/
  | pollFailed
  /-- `handlePipe` -/
  | pipe
  /-- `socketAction`: `recv` or `accept` -/
  | socket
  /-- `socketAction`: the loop over `pendingIncoming` -/
  | offer
  /-- `socketAction`: `exitCb` for a corrupted peer -/
  | corrupted
  /-- the loop that empties the job queue -/
  | fetch
  /-- the loop of `handleQueue` -/
  | send
  /-- `hasKillOrder` -/
  | order
  /-- the loop that empties the job queue, after a kill order -/
  | fetchLast
  /-- the loop of `handleQueue`, after a kill order -/
  | sendLast
  /-- `closeConn`, after a kill order -/
  | close
  /-- `exitCb`, if the worker wants to quit -/
  | leave
  /-- the computation of `nextTimeout` -/
  | deadline
  /-- `exitCb` behind the loop -/
  | last
  /-- the thread has ended -/
  | done
  deriving DecidableEq, Repr

/-- The two subclasses of `IOWorker`. -/
inductive WorkerKind
  | connect | handler
  deriving DecidableEq, Repr

/-- `class IOWorker` with the fields of its subclasses, as far as only its own thread reaches them; the
job queue is kept by the manager.  `pollFd` is `pollFds[0].fd` as `closeConn` leaves it. -/
structure IOWorker where
  kind : WorkerKind
  wantToToQuit : Bool
  terminate : Bool
  mainFd : Int
  pollFd : Int
  errs : List IOErrClass
  closedFd : Bool
  responseTimeout : Bool
  timeout : Int
  nextTimeout : Int
  pendingIncoming : List (List Char)
  pendingOutgoing : List SendJob
  peerCorrupted : Bool
  nextIncoming : List Char
  stage : Stage
  wire : List (SendJob × Nat)

/-- What a worker finds in a message: nothing the parser knows, an `IAM` or a `TRICK`. -/
inductive Request
  | invalid
  | intro (side : Side)
  | trick (trickNo : Nat) (card : Card)
  deriving DecidableEq, Repr

/-- `atoi` of a string of digits. -/
def atoi (s : List Char) : Nat := Nat.ofDigitChars 10 s 0

theorem atoi_toStringNat (n : Nat) : atoi (toStringNat n) = n := Nat.ofDigitChars_ten_toDigits

/-- The case distinction of `IOWorkerHandler::socketAction` on a parsed message. -/
def request (m : List Char) : Option Request :=
  match parseNetMsg m true with
  | .error _ => none
  | .ok [] => some .invalid
  | .ok (type :: args) =>
      if type.2 = MsgKind.typeName .iam then do
        let c ← (← args[0]?).2.head?
        return .intro (← Side.ofChar c)
      else if type.2 = MsgKind.typeName .trickC then do
        let rn ← args[0]?
        let card ← args[1]?
        return .trick (atoi rn.2) (← Card.fromString card.2)
      else some .invalid

/-- **What a worker finds in a message**: it knows the texts of an `IAM` and of a `TRICK` with a number from
1 to 13, and takes nothing else for one. -/
theorem request_cases (m : List Char) : request m = some .invalid ∨
    (∃ side, m = (SendJob.intro side).body ∧ request m = some (.intro side)) ∨
    ∃ n card, TrickNumber n ∧ m = (SendJob.trick [card] n).body ∧ request m = some (.trick n card) := by
  rcases parse_cases m true with hnone | ⟨k, job, hdir, hvalid, rfl⟩
  · exact .inl (by rw [request, hnone])
  · have hparse := parse_body hvalid
    rw [hdir] at hparse
    cases k with
    | iam =>
        cases job with
        | intro side =>
            refine .inr (.inl ⟨side, rfl, ?_⟩)
            rw [request, hparse]
            cases side <;> rfl
        | _ => exact hvalid.elim
    | trickC =>
        cases job with
        | trick table n =>
            obtain ⟨hn, hone⟩ := hvalid
            obtain ⟨card, rfl⟩ := List.length_eq_one_iff.mp hone
            refine .inr (.inr ⟨n, card, hn, rfl, ?_⟩)
            rw [request, hparse]
            show (Card.fromString card.toString).bind
              (fun c => some (Request.trick (atoi (toStringNat n)) c)) = _
            rw [card.fromString_toString, atoi_toStringNat]
            rfl
        | _ => exact hvalid.elim
    | _ => cases hdir

/-- How the system calls of a turn come out. -/
inductive Answer
  /-- nothing was asked -/
  | go
  | fcntl (pipeFails mainFails : Bool)
  /-- `poll` returns zero -/
  | pollExpired
  /-- `poll` returns a negative value -/
  | pollFailed
  /-- `poll` returns a positive value -/
  | pollReady
  /-- `handlePipe` reads until the pipe is empty -/
  | pipeEmpty
  /-- `read` fails for another reason -/
  | pipeFailed
  /-- `recv` returns a character -/
  | recv (c : Char)
  | recvBlocked
  | recvEnd
  | recvFailed (errType : IOErrClass)
  | accepted (fd : Int)
  | acceptBlocked
  /-- `sendNoBlockN` got `n` bytes through -/
  | sent (n : Nat)
  /-- milliseconds until the deadline -/
  | remaining (ms : Int)
  deriving DecidableEq, Repr

/-- What a turn does: it is silent, it calls the server and goes on with the answer, or it hands a new
connection to the server. -/
inductive Action
  | silent (w : IOWorker)
  | call (e : Server.Call) (k : Bool → IOWorker)
  | connect (fd : Int) (w : IOWorker)

namespace Action

/-- The call of a turn. -/
def call? : Action → Option Server.Call
  | silent _ => none
  | call e _ => some e
  | connect _ _ => some .forwardConnection

/-- The thread after the turn, when the call returns `b`. -/
def next (b : Bool) : Action → IOWorker
  | silent w => w
  | call _ k => k b
  | connect _ w => w

end Action

namespace IOWorker

/-- The constructor. -/
def new (kind : WorkerKind) (timeout mainFd : Int) : IOWorker where
  kind := kind
  wantToToQuit := false
  terminate := false
  mainFd := mainFd
  pollFd := mainFd
  errs := []
  closedFd := false
  responseTimeout := true
  timeout := timeout
  nextTimeout := -1
  pendingIncoming := []
  pendingOutgoing := []
  peerCorrupted := false
  nextIncoming := []
  stage := .start
  wire := []

/-- `mainSockErr`. -/
def mainSockErr (w : IOWorker) : IOErrClass :=
  match w.kind with
  | .connect => .internal
  | .handler => .external

/-- `hasWork`. -/
def hasWork (w : IOWorker) : Bool :=
  !w.pendingIncoming.isEmpty || (!w.pendingOutgoing.isEmpty && !w.closedFd)

/-- The thread comes to another stage. -/
def goto (w : IOWorker) (stage : Stage) : IOWorker := { w with stage := stage }

def addErr (w : IOWorker) (err : IOErrClass) : IOWorker := { w with errs := w.errs ++ [err] }

/-- `closeConn`. -/
def closeConn (w : IOWorker) (closeFails : Bool) : IOWorker :=
  { w with
    errs := if !w.closedFd && closeFails then w.errs ++ [w.mainSockErr] else w.errs
    closedFd := true
    wantToToQuit := true
    pollFd := -1 }

/-- The descriptor that `poll` watches: its sign is changed while a message is parked. -/
def watchedFd (w : IOWorker) : Int := if w.pendingIncoming.isEmpty then w.pollFd else w.pollFd * -1

/-- The test of the loop. -/
def loop (w : IOWorker) : IOWorker := w.goto (if w.terminate then .last else .poll)

/-- `exitCb` and the `break` behind it. -/
def exit (w : IOWorker) (ix : Nat) (refused : IOWorker) : Action :=
  .call (.grandExitCallback w.errs ix w.hasWork) fun quit =>
    if quit then { w with terminate := true }.goto .last else refused

/-- The calls of `fcntl`, for the pipe and for the socket. -/
def fcntl (w : IOWorker) (fails : Bool) : IOWorker :=
  if fails then { w.addErr w.mainSockErr with terminate := true } else w

def turnStart (w : IOWorker) : Answer → Option Action
  | .fcntl pipeFails mainFails => some (.silent ((w.fcntl pipeFails).fcntl mainFails).loop)
  | _ => none

/-- `poll`, which is woken by a byte in the pipe and may be woken by the descriptor it watches. -/
def turnPoll (w : IOWorker) (unread : Nat) (closeFails : Bool) : Answer → Option Action
  | .pollExpired =>
      if 0 ≤ w.nextTimeout then some (.silent ({ w with nextTimeout := -1 }.goto .expired))
      else none
  | .pollFailed =>
      some (.silent ((({ w with nextTimeout := -1 }.addErr w.mainSockErr).closeConn closeFails).goto
        .pollFailed))
  | .pollReady =>
      if 0 < unread ∨ 0 ≤ w.watchedFd then
        some (.silent ({ w with nextTimeout := -1 }.goto .pipe))
      else none
  | _ => none

def turnExpired (w : IOWorker) (ix : Nat) : Action :=
  .call (.handleTimeout ix) fun _ =>
    { w with nextTimeout := -1, responseTimeout := false }.loop

/-- `handlePipe`. -/
def turnPipe (w : IOWorker) (ix : Nat) : Answer → Option Action
  | .pipeEmpty => some (.call (.handlePipe ix) fun _ => w.goto .socket)
  | .pipeFailed => some (.silent ({ w.addErr .internal with terminate := true }.goto .last))
  | _ => none

/-- One character more in `nextIncoming`. -/
def receive (w : IOWorker) (c : Char) (closeFails : Bool) : IOWorker :=
  let text := w.nextIncoming ++ [c]
  if MAX_PARSE_LEN < text.length then
    ({ w with nextIncoming := text, peerCorrupted := true }.closeConn closeFails).goto .offer
  else if c = '\n' ∧ 1 < text.length ∧ text[text.length - 2]? = some '\r' then
    { w with
      pendingIncoming := w.pendingIncoming ++ [text.take (text.length - 2)]
      nextIncoming := [] }.goto .offer
  else { w with nextIncoming := text }

/-- The loop around `recv`. -/
def turnRecv (w : IOWorker) (closeFails : Bool) (a : Answer) : Option Action :=
  if w.wantToToQuit then some (.silent (w.goto .fetch))
  else if w.closedFd || !w.pendingIncoming.isEmpty then some (.silent (w.goto .offer))
  else match a with
    | .recv c => some (.silent (w.receive c closeFails))
    | .recvBlocked => some (.silent (w.goto .offer))
    | .recvEnd => some (.silent ((w.closeConn closeFails).goto .offer))
    | .recvFailed errType =>
        if errType = .internal then none
        else some (.silent (((w.addErr errType).closeConn closeFails).goto .offer))
    | _ => none

/-- `IOWorkerConnect::socketAction`.  When `accept` fails for another reason than an empty backlog, the
exception ends the process. -/
def turnAccept (w : IOWorker) : Answer → Option Action
  | .accepted fd => if w.closedFd then none else some (.connect fd (w.goto .fetch))
  | .acceptBlocked => if w.closedFd then none else some (.silent (w.goto .fetch))
  | _ => none

/-- A message was taken, or stays where it is and the loop is left. -/
def answered (w : IOWorker) (rest : List (List Char)) (taken : Bool) : IOWorker :=
  let w := { w with nextTimeout := -1, responseTimeout := false }
  if taken then { w with pendingIncoming := rest } else w.goto .corrupted

/-- The same for a message nobody understands, which also ends the connection. -/
def dismissed (w : IOWorker) (rest : List (List Char)) (taken : Bool) : IOWorker :=
  if taken then
    { w with
      nextTimeout := -1
      responseTimeout := false
      wantToToQuit := true
      pendingIncoming := rest }.goto .corrupted
  else w.goto .corrupted

/-- One message of `pendingIncoming`. -/
def turnOffer (w : IOWorker) (ix : Nat) : Option Action :=
  match w.pendingIncoming with
  | [] => some (.silent (w.goto .corrupted))
  | msg :: rest =>
      match request msg with
      | none => none
      | some .invalid => some (.call (.handleWrongMessage ix) (w.dismissed rest))
      | some (.intro side) => some (.call (.playerIntro side ix) (w.answered rest))
      | some (.trick trickNo card) =>
          some (.call (.playerTricked trickNo card ix) (w.answered rest))

def turnCorrupted (w : IOWorker) (ix : Nat) : Action :=
  if w.peerCorrupted then w.exit ix (w.goto .fetch)
  else .silent (w.goto .fetch)

/-- The next job of the queue goes to `pendingOutgoing`; on an empty queue, `next` is the stage behind
`handleQueue`, which returns at once on a closed connection. -/
def turnFetch (w : IOWorker) (ix : Nat) (jobs : List SendJob) (sending next : Stage) : Action :=
  match jobs with
  | job :: _ =>
      .call (.popNextJob ix) fun _ => { w with pendingOutgoing := w.pendingOutgoing ++ [job] }
  | [] => .silent (w.goto (if w.closedFd then next else sending))

/-- The closure of `handleQueue`: `n` bytes of the first job get through.  The product is an `int` in the source,
which it fits into as `nextTimeout_int` says. -/
def transmit (w : IOWorker) (job : SendJob) (rest : List SendJob) (n : Nat) (closeFails : Bool) :
    IOWorker :=
  let w := { w with pendingOutgoing := rest, wire := w.wire ++ [(job, n)] }
  if n = job.genMsg.length then
    { w with responseTimeout := true, nextTimeout := w.timeout * 1000 }
  else { (w.addErr w.mainSockErr).closeConn closeFails with terminate := true }

/-- The loop of `handleQueue`.  It is not left when a job could not be sent. -/
def turnSend (w : IOWorker) (closeFails : Bool) (next : Stage) (a : Answer) : Option Action :=
  match w.pendingOutgoing, a with
  | [], _ => some (.silent (w.goto next))
  | job :: rest, .sent n =>
      if n ≤ job.genMsg.length then
        some (.call .execMutexed fun run =>
          if run then w.transmit job rest n closeFails else w.goto next)
      else none
  | _ :: _, _ => none

/-- The stage behind the first `handleQueue`. -/
def behindSend (w : IOWorker) : Stage := if w.terminate then .last else .order

def turnLeave (w : IOWorker) (ix : Nat) : Action :=
  if w.wantToToQuit then w.exit ix (w.goto .deadline)
  else .silent (w.goto .deadline)

/-- The end of a turn of the loop. -/
def turnDeadline (w : IOWorker) (ix : Nat) (a : Answer) : Option Action :=
  if w.nextTimeout ≠ -1 then some (.silent w.loop)
  else if 0 < w.timeout ∧ w.responseTimeout = true then
    match a with
    | .remaining ms =>
        if ms < 0 then
          some (.call (.handleTimeout ix) fun _ => { w with nextTimeout := -1 }.loop)
        else some (.silent { w with nextTimeout := ms }.loop)
    | _ => none
  else some (.silent { w with nextTimeout := -1 }.loop)

/-- The job queue of worker `ix`. -/
def jobQueue (σ : Server) (ix : Nat) : JobQueue := (σ.workerMgr.workers.find? ix).getD .empty

/-- One turn of the thread of worker `ix`. -/
def turn (w : IOWorker) (σ : Server) (ix : Nat) (a : Answer) (closeFails : Bool) : Option Action :=
  match w.stage with
  | .start => w.turnStart a
  | .poll => w.turnPoll (σ.workerMgr.unread ix) closeFails a
  | .expired => some (w.turnExpired ix)
  | .pollFailed => some (w.exit ix w.loop)
  | .pipe => w.turnPipe ix a
  | .socket =>
      match w.kind with
      | .handler => w.turnRecv closeFails a
      | .connect => w.turnAccept a
  | .offer => w.turnOffer ix
  | .corrupted => some (w.turnCorrupted ix)
  | .fetch => some (w.turnFetch ix (jobQueue σ ix).jobsPending .send w.behindSend)
  | .send => w.turnSend closeFails w.behindSend a
  | .order => some (.silent (w.goto (if (jobQueue σ ix).killFlag then .fetchLast else .leave)))
  | .fetchLast => some (w.turnFetch ix (jobQueue σ ix).jobsPending .sendLast .close)
  | .sendLast => w.turnSend closeFails .close a
  | .close => some (.silent ((w.closeConn closeFails).goto .leave))
  | .leave => some (w.turnLeave ix)
  | .deadline => w.turnDeadline ix a
  | .last => some (.call (.grandExitCallback w.errs ix w.hasWork) fun _ => w.goto .done)
  | .done => none

section Stages

variable (w : IOWorker)

@[simp] theorem goto_stage (stage : Stage) : (w.goto stage).stage = stage := rfl

theorem loop_stage : w.loop.stage = if w.terminate then .last else .poll := rfl

theorem receive_stage (c : Char) (closeFails : Bool) :
    (w.receive c closeFails).stage = .offer ∨ (w.receive c closeFails).stage = w.stage := by
  unfold receive
  dsimp only
  split
  · exact .inl rfl
  · split
    · exact .inl rfl
    · exact .inr rfl

@[simp] theorem answered_stage (rest : List (List Char)) (taken : Bool) :
    (w.answered rest taken).stage = if taken then w.stage else .corrupted := by
  cases taken <;> rfl

@[simp] theorem dismissed_stage (rest : List (List Char)) (taken : Bool) :
    (w.dismissed rest taken).stage = .corrupted := by
  cases taken <;> rfl

@[simp] theorem transmit_stage (job : SendJob) (rest : List SendJob) (n : Nat) (closeFails : Bool) :
    (w.transmit job rest n closeFails).stage = w.stage := by
  unfold transmit
  split <;> rfl

end Stages

end IOWorker

end Kierki
