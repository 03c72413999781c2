import Kierki.Library.Execution
import Kierki.Server.GameRules
import Kierki.Server.IOWorkerMgr

/-!
# The server

`server/server.cpp`.  Every handler locks `gameStateMutex` for its whole body, so that each call is
one step; `handle` below is the step for one call, and any interleaving of the threads is a list of
calls.  The game proper is the record `Game`; the other fields of `class Server` are in `Server`.
-/

namespace Kierki

open Fallible

/-- `score_map`.  The source has an `int` for each side (`totals_int` bounds it). -/
abbrev ScoreMap := UnorderedMap Side Nat

/-- `m[s]`, which inserts a zero for a key that is not there. -/
def ScoreMap.touch (m : ScoreMap) (s : Side) : ScoreMap := m.insert s ((m.find? s).getD 0)

/-- `m[s]`, the value. -/
def ScoreMap.value (m : ScoreMap) (s : Side) : Nat := (m.find? s).getD 0

/-- `m[s] += n`. -/
def ScoreMap.add (m : ScoreMap) (s : Side) (n : Nat) : ScoreMap := m.insert s (m.value s + n)

/-- The fields of `Server` that make up the game. -/
structure Game where
  hands : TableState
  nextMove : Side
  roundNumber : Nat
  trickNo : Nat
  roundMode : RoundType
  table : Table
  penalties : ScoreMap
  penaltiesRound : ScoreMap
  takenInRound : List SendJob

namespace Game

/-- The game part of `Server::Server`. -/
def new : Game where
  hands := fun _ => []
  nextMove := .W
  roundNumber := 0
  trickNo := 1
  roundMode := .trickPenalty
  table := []
  penalties := [Side.W, .E, .S, .N].foldl (fun m s => m.insert s 0) .empty
  penaltiesRound := .empty
  takenInRound := []

/-- `prepareRound`, once the round has been read from the scenario. -/
def prepare (g : Game) (r : Round) : Game :=
  { g with
    roundMode := r.mode
    hands := r.deal
    nextMove := r.starting
    trickNo := 1
    takenInRound := [] }

/-- `prepareRound`. -/
def prepareRound (scenario : GameScenario) (g : Game) : Except Fault Game := do
  let r ← require .scenarioIndex scenario[g.roundNumber]?
  return g.prepare r

/-- `updatePenalties`; reading `penaltiesRound[s]` creates the entry. -/
def updatePenalties (g : Game) : Game :=
  Side.sides_.foldl (fun g s =>
    { g with
      penaltiesRound := g.penaltiesRound.touch s
      penalties := g.penalties.add s (g.penaltiesRound.value s) }) g

/-- `clearTmpPenalties`. -/
def clearTmpPenalties (g : Game) : Game :=
  Side.sides_.foldl (fun g s => { g with penaltiesRound := g.penaltiesRound.insert s 0 }) g

/-- The accepted card goes from the hand to the table and the turn passes on. -/
def putCard (g : Game) (side : Side) (card : Card) : Game :=
  { g with
    table := g.table ++ [card]
    hands := Function.update g.hands side (rmCardIfPresent (g.hands side) card)
    nextMove := nxtSide g.nextMove }

/-- `whoTakes` as `playerTricked` calls it. -/
def whoTakes (g : Game) : Side × Nat :=
  GameRules.whoTakes g.nextMove g.table g.roundMode g.trickNo

/-- `msgTaken` of a full table. -/
def msgTaken (g : Game) : SendJob := .taken g.table g.whoTakes.1 g.trickNo

/-- The trick goes to its taker. -/
def takeTrick (g : Game) : Game :=
  { g with
    nextMove := g.whoTakes.1
    penaltiesRound := g.penaltiesRound.add g.whoTakes.1 g.whoTakes.2
    trickNo := g.trickNo + 1
    table := []
    takenInRound := g.takenInRound ++ [g.msgTaken] }

/-- The temporary penalties are cleared and the round is over. -/
def leaveRound (g : Game) : Game :=
  { g.clearTmpPenalties with roundNumber := g.roundNumber + 1 }

def msgTrick (g : Game) : SendJob := .trick g.table g.trickNo

def msgDeal (g : Game) (cards : Hand) : SendJob := .deal g.roundMode g.nextMove cards

end Game

/-- `enum IOErrClass`. -/
inductive IOErrClass
  | silent | internal | external
  deriving DecidableEq, Repr

/-- `class Server`.  A free side has `none` where the code has `-1`, and `lastDeal` is `none` while
the map is empty. -/
structure Server where
  gameScenario : GameScenario
  workerMgr : IOWorkerMgr
  activeSides : Side → Option Nat
  game : Game
  exitCode : Nat
  playersConnected : Int
  lastDeal : Option TableState
  exiting : Bool
  timeout : Int
  workerToSide : UnorderedMap Nat Side
  zombieWorkerToSide : UnorderedMap Nat Side

namespace Server

/-- `Server::Server`. -/
def new (scenario : GameScenario) (timeout : Int) : Server where
  gameScenario := scenario
  workerMgr := .new
  activeSides := fun _ => none
  game := .new
  exitCode := 0
  playersConnected := 0
  lastDeal := none
  exiting := false
  timeout := timeout
  workerToSide := .empty
  zombieWorkerToSide := .empty

/-- `Server::run` up to `waitForClearing`: the first round, and the accepting worker as worker 0. -/
def start (scenario : GameScenario) (timeout : Int) : Except Fault Server := do
  let σ := new scenario timeout
  let game ← σ.game.prepareRound scenario
  return { σ with game := game, workerMgr := σ.workerMgr.spawnNewWorker .servingProxy }

/-- Calls of `sendJob`, one after the other. -/
def sendJobs (σ : Server) (jobs : List (Option Nat × SendJob)) : Except Fault Server := do
  let mgr ← jobs.foldlM (fun m p => m.sendJob p.2 p.1) σ.workerMgr
  return { σ with workerMgr := mgr }

/-- `finalize`. -/
def finalize (σ : Server) : Except Fault Server :=
  if σ.exiting then .ok σ
  else do
    let mgr ← σ.workerMgr.releaseCleaner.finish
    return { σ with exiting := true, workerMgr := mgr }

/-- `handleSysErr(info, true)`: does the error end the server? -/
def handleSysErr (σ : Server) (errType : IOErrClass) : Except Fault (Bool × Server) :=
  if errType = .internal then do
    let σ ← { σ with exitCode := 1 }.finalize
    return (true, σ)
  else .ok (false, σ)

/-- The end of a round inside `playerTricked`: scores, then the next round or the end of the game.
The flag says whether `playerTricked` returns here. -/
def roundEnded (σ : Server) : Except Fault (Bool × Server) := do
  let σ := { σ with game := σ.game.updatePenalties }
  let msgScore := SendJob.score σ.game.penaltiesRound.entries
  let msgTotal := SendJob.total σ.game.penalties.entries
  let σ ← σ.sendJobs (Side.sides_.flatMap fun s =>
    [(σ.activeSides s, msgScore), (σ.activeSides s, msgTotal)])
  let σ := { σ with game := σ.game.leaveRound }
  if σ.game.roundNumber = σ.gameScenario.length then do
    let σ ← σ.finalize
    return (true, σ)
  else do
    let game ← σ.game.prepareRound σ.gameScenario
    let σ := { σ with game := game, lastDeal := some game.hands }
    let σ ← σ.sendJobs (Side.sides_.map fun s =>
      (σ.activeSides s, σ.game.msgDeal (σ.game.hands s)))
    return (false, σ)

/-- The end of a trick inside `playerTricked`. -/
def trickEnded (σ : Server) : Except Fault (Bool × Server) := do
  let msgTaken := σ.game.msgTaken
  let σ := { σ with game := σ.game.takeTrick }
  let σ ← σ.sendJobs (Side.sides_.map fun s => (σ.activeSides s, msgTaken))
  if σ.game.trickNo = TRICKS_PER_ROUND + 1 then σ.roundEnded else return (false, σ)

/-- `playerTricked` after the `switch`: the card `card` is offered for `side`. -/
def offerCard (σ : Server) (trickNoArg : Nat) (card : Card) (side : Side) :
    Except Fault Server := do
  if trickNoArg ≠ σ.game.trickNo ∨ σ.game.nextMove ≠ side then
    σ.sendJobs [(σ.activeSides side, .wrong σ.game.trickNo)]
  else if GameRules.isMoveLegal side card σ.game.hands σ.game.table = false then
    σ.sendJobs [(σ.activeSides side, .wrong σ.game.trickNo)]
  else do
    let σ := { σ with game := σ.game.putCard side card }
    let (done, σ) ← if σ.game.table.length = 4 then σ.trickEnded else .ok (false, σ)
    if done then return σ
    else σ.sendJobs [(σ.activeSides σ.game.nextMove, σ.game.msgTrick)]

/-- `playerTricked`. -/
def playerTricked (σ : Server) (trickNoArg : Nat) (card : Card) (workerIx : Nat) :
    Except Fault (Bool × Server) := do
  if σ.playersConnected < 4 then .ok (false, σ)
  else do
    match ← σ.workerMgr.getRole workerIx with
    | .servingUnknown => do
        let mgr ← σ.workerMgr.setRole workerIx .cleanupUnknown
        let mgr ← mgr.sendKill workerIx
        return (true, { σ with workerMgr := mgr })
    | .servingActive => do
        let side ← require .noSide (σ.workerToSide.find? workerIx)
        return (true, ← σ.offerCard trickNoArg card side)
    | .servingProxy => do
        let mgr ← σ.workerMgr.setRole workerIx .cleanupUnknown
        let σ ← { σ with workerMgr := mgr }.finalize
        return (true, σ)
    | .cleanup => do
        let side ← require .noZombieSide (σ.zombieWorkerToSide.find? workerIx)
        return (true, ← σ.offerCard trickNoArg card side)
    | .cleanupUnknown => return (true, σ)
    | .shutdown => return (true, σ)

/-- The seating branch of `playerIntro` before any deal. -/
def firstDeal (σ : Server) : Except Fault Server := do
  let σ := { σ with lastDeal := some σ.game.hands }
  let σ ← σ.sendJobs (Side.sides_.map fun s =>
    (σ.activeSides s, σ.game.msgDeal (σ.game.hands s)))
  σ.sendJobs [(σ.activeSides σ.game.nextMove, σ.game.msgTrick)]

/-- The seating branch of `playerIntro` once a deal is out: the deal and the tricks of the round
again, and, when the table is full, the wake-up calls and the prompt. -/
def rejoin (σ : Server) (side : Side) (workerIx : Nat) (deal : TableState) :
    Except Fault Server := do
  let σ ← σ.sendJobs [(σ.activeSides side, σ.game.msgDeal (deal side))]
  let σ ← σ.sendJobs (σ.game.takenInRound.map fun msg => (some workerIx, msg))
  if σ.playersConnected = 4 then do
    let mgr := ((σ.workerMgr.signalRole .servingActive).signalRole .cleanupUnknown).signalRole
      .servingUnknown
    let σ := { σ with workerMgr := mgr }
    σ.sendJobs [(σ.activeSides σ.game.nextMove, σ.game.msgTrick)]
  else .ok σ

/-- The worker gets the free side. -/
def takeSeat (σ : Server) (side : Side) (workerIx : Nat) : Except Fault Server := do
  let mgr ← σ.workerMgr.setRole workerIx .servingActive
  return { σ with
    activeSides := Function.update σ.activeSides side (some workerIx)
    workerToSide := σ.workerToSide.insert workerIx side
    workerMgr := mgr
    playersConnected := σ.playersConnected + 1 }

/-- `sidesBusy`.  The map is walked in the order that leaves the newest key of the constructor
first. -/
def sidesBusy (σ : Server) : List Side :=
  [Side.N, .S, .E, .W].filter fun s => (σ.activeSides s).isSome

/-- `playerIntro`. -/
def playerIntro (σ : Server) (side : Side) (workerIx : Nat) : Except Fault (Bool × Server) := do
  if (← σ.workerMgr.getRole workerIx) ≠ .servingUnknown then
    if σ.playersConnected < 4 then .ok (false, σ)
    else do
      let mgr ← σ.workerMgr.sendKill workerIx
      let mgr ← mgr.setRole workerIx .cleanup
      return (true, { σ with workerMgr := mgr })
  else
    match σ.activeSides side with
    | none => do
        let σ ← σ.takeSeat side workerIx
        match σ.lastDeal with
        | none =>
            if σ.playersConnected = 4 then return (true, ← σ.firstDeal) else return (true, σ)
        | some deal => return (true, ← σ.rejoin side workerIx deal)
    | some _ => do
        let mgr ← σ.workerMgr.setRole workerIx .cleanupUnknown
        let σ := { σ with workerMgr := mgr }
        let σ ← σ.sendJobs [(some workerIx, .busy σ.sidesBusy)]
        return (true, σ)

/-- `forwardConnection`: a new worker for the new connection. -/
def forwardConnection (σ : Server) : Server :=
  { σ with workerMgr := σ.workerMgr.spawnNewWorker .servingUnknown }

/-- `setRole(ix, SHUTDOWN)` and `eraseWorker(ix)`, in either order. -/
def shutDown (σ : Server) (workerIx : Nat) : Except Fault Server := do
  let mgr ← σ.workerMgr.setRole workerIx .shutdown
  return { σ with workerMgr := mgr.eraseWorker workerIx }

/-- The loop of `grandExitCallback` over the errors: an internal one ends the server. -/
def exitErrors (σ : Server) : List IOErrClass → Except Fault (Bool × Server)
  | [] => .ok (false, σ)
  | err :: errs => do
      let (ended, σ) ← σ.handleSysErr err
      if ended then return (true, σ) else σ.exitErrors errs

/-- `grandExitCallback`. -/
def grandExitCallback (σ : Server) (errArr : List IOErrClass) (workerIx : Nat) (hasWork : Bool) :
    Except Fault (Bool × Server) := do
  let (ended, σ) ← σ.exitErrors errArr
  if ended then return (true, σ)
  else do
    match ← σ.workerMgr.getRole workerIx with
    | .servingUnknown => return (true, ← σ.shutDown workerIx)
    | .servingActive => do
        let s ← require .noSide (σ.workerToSide.find? workerIx)
        let σ : Server := { σ with
          playersConnected := σ.playersConnected - 1
          activeSides := Function.update σ.activeSides s none
          zombieWorkerToSide := σ.zombieWorkerToSide.insert workerIx s
          workerToSide := σ.workerToSide.erase workerIx }
        if hasWork = true ∨ (σ.playersConnected < 3 ∧ σ.exiting = false) then do
          let mgr ← σ.workerMgr.setRole workerIx .cleanup
          return (false, { σ with workerMgr := mgr })
        else return (true, ← σ.shutDown workerIx)
    | .cleanup =>
        if σ.playersConnected = 4 ∧ hasWork = false then
          return (true, ← σ.shutDown workerIx)
        else return (false, σ)
    | .shutdown => return (true, σ)
    | .servingProxy => do
        let σ ← σ.shutDown workerIx
        return (true, ← σ.finalize)
    | .cleanupUnknown =>
        if σ.playersConnected = 4 ∧ hasWork = false then
          return (true, ← σ.shutDown workerIx)
        else return (false, σ)

/-- The gate of `execMutexed`: is the closure run? -/
def execMutexed (σ : Server) : Bool := !(decide (σ.playersConnected < 4) && !σ.exiting)

/-- `handleTimeout`. -/
def handleTimeout (σ : Server) (workerIx : Nat) : Except Fault Server := do
  if σ.exiting then .ok σ
  else do
    match ← σ.workerMgr.getRole workerIx with
    | .servingUnknown => do
        let mgr ← σ.workerMgr.sendKill workerIx
        return { σ with workerMgr := mgr }
    | .servingActive => do
        let side ← require .noSide (σ.workerToSide.find? workerIx)
        if σ.game.nextMove ≠ side then .ok σ
        else if σ.playersConnected < 4 then .ok σ
        else σ.sendJobs [(some workerIx, σ.game.msgTrick)]
    | _ => .ok σ

/-- `handleWrongMessage`. -/
def handleWrongMessage (σ : Server) (ix : Nat) : Except Fault (Bool × Server) := do
  if σ.playersConnected < 4 ∧ σ.exiting = false then .ok (false, σ)
  else do
    let mgr ← σ.workerMgr.sendKill ix
    return (true, { σ with workerMgr := mgr })

/-- The calls that reach the server: the callbacks of the workers, what a worker's own thread does to
its job queue and pipe, and the turns of the cleaner. -/
inductive Call
  | playerIntro (side : Side) (workerIx : Nat)
  | playerTricked (trickNo : Nat) (card : Card) (workerIx : Nat)
  | handleTimeout (workerIx : Nat)
  | handleWrongMessage (workerIx : Nat)
  | grandExitCallback (errArr : List IOErrClass) (workerIx : Nat) (hasWork : Bool)
  | execMutexed
  | forwardConnection
  | popNextJob (workerIx : Nat)
  | handlePipe (workerIx : Nat)
  | waitForClearing
  deriving DecidableEq

/-- One call, with the answer it returns. -/
def handle (σ : Server) : Call → Except Fault (Bool × Server)
  | .playerIntro side ix => σ.playerIntro side ix
  | .playerTricked n card ix => σ.playerTricked n card ix
  | .handleTimeout ix => do return (true, ← σ.handleTimeout ix)
  | .handleWrongMessage ix => σ.handleWrongMessage ix
  | .grandExitCallback errs ix hasWork => σ.grandExitCallback errs ix hasWork
  | .execMutexed => .ok (σ.execMutexed, σ)
  | .forwardConnection => .ok (true, σ.forwardConnection)
  | .popNextJob ix => do return (true, { σ with workerMgr := ← σ.workerMgr.popNextJob ix })
  | .handlePipe ix => .ok (true, { σ with workerMgr := σ.workerMgr.handlePipe ix })
  | .waitForClearing => .ok (true, { σ with workerMgr := σ.workerMgr.waitForClearing })

/-- One call as a step; there is no step when the call ends the process. -/
def step (σ : Server) (e : Call) : Option Server :=
  match σ.handle e with
  | .ok (_, σ') => some σ'
  | .error _ => none

/-- The state after the calls `es`, from the start of a game over `scenario`. -/
def run (scenario : GameScenario) (timeout : Int) (es : List Call) : Option Server :=
  match start scenario timeout with
  | .ok σ => Execution.exec step σ es
  | .error _ => none

/-- What the calls of such a run put on record. -/
def runRecord {β : Type} (f : Server → Call → Server → List β) (scenario : GameScenario) (timeout : Int)
    (es : List Call) : List β :=
  match start scenario timeout with
  | .ok σ => Execution.record step f σ es
  | .error _ => []

end Server
end Kierki
