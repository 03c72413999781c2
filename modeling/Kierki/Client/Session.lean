import Kierki.Client.Client
import Kierki.Server.Hands

/-!
# A side that is played by clients

The server with the client that plays side `s`, if there is one.  A client comes with the worker that
gets the free side, and goes when the side is free again; another one may follow.  Between the two there
is a channel in each direction: `down` are the messages that were enqueued for the worker and that the
client has not processed, `up` the `TRICK` messages that the client has sent and the server has not taken
up.  A message that the worker offers and that is refused for the time being stays at the head of `up`.

All calls of the server may happen at any time, but for three: what the worker of the client offers is
what the client has sent, in this order, and the client sends one `IAM` and no garbage.  A worker that
has lost its side offers nothing for it (`System.silent_zombie`).
-/

namespace Kierki

open TrickGame Execution

/-- What a message on its way to the client was enqueued for: a card that was refused, or a trick behind
which the side has the hand `hand`. -/
inductive Cause
  | refused (card : Card)
  | trickTaken (hand : Hand)
  deriving DecidableEq

/-- A client with its two channels.  The causes of the messages and the last three fields are history
variables: `late` is set if the client sat down when a deal was out, `live` once it has been there for
a whole deal, `crossed` if the server took up a card of it that came while another one was on the table. -/
structure Link (α : Type) where
  worker : Nat
  client : Client α
  down : List (SendJob × Option Cause)
  up : List (Nat × Card)
  late : Bool
  live : Bool
  crossed : Bool

/-- The server and the client of one side. -/
structure Session (α : Type) where
  server : Server
  link : Option (Link α)

namespace Session

/-- What can happen: a call of the server, the client processes a message, or its user types a line. -/
inductive Event
  | call (e : Server.Call)
  | receive
  | command (cmd : List Char)

variable {α : Type}

/-- The server takes up a card from a worker of side `s`. -/
def TakesUp (s : Side) (σ : Server) : Server.Call → Prop
  | .playerTricked _ _ ix => 4 ≤ σ.playersConnected ∧ σ.sideOf ix = some s
  | _ => False

instance (s : Side) (σ : Server) : (e : Server.Call) → Decidable (TakesUp s σ e)
  | .playerTricked _ _ ix => inferInstanceAs (Decidable (4 ≤ σ.playersConnected ∧ σ.sideOf ix = some s))
  | .playerIntro _ _ | .handleTimeout _ | .handleWrongMessage _ | .grandExitCallback _ _ _ | .execMutexed
  | .forwardConnection | .popNextJob _ | .handlePipe _ | .waitForClearing => inferInstanceAs (Decidable False)

/-- The calls that the client of side `s` leaves room for. -/
def Allows (s : Side) (W : Session α) : Server.Call → Prop
  | .playerTricked n card ix => W.server.sideOf ix = some s →
      (W.link.bind fun L => if L.worker = ix then L.up.head? else none) = some (n, card)
  | .playerIntro _ ix | .handleWrongMessage ix => W.link.map Link.worker ≠ some ix
  | _ => True

instance (s : Side) (W : Session α) : (e : Server.Call) → Decidable (W.Allows s e)
  | .playerTricked n card ix => inferInstanceAs (Decidable (W.server.sideOf ix = some s →
      (W.link.bind fun L => if L.worker = ix then L.up.head? else none) = some (n, card)))
  | .playerIntro _ ix | .handleWrongMessage ix => inferInstanceAs (Decidable (W.link.map Link.worker ≠ some ix))
  | .handleTimeout _ | .grandExitCallback _ _ _ | .execMutexed | .forwardConnection | .popNextJob _
  | .handlePipe _ | .waitForClearing => inferInstanceAs (Decidable True)

/-- What a message of the call `e` was enqueued for. -/
def cause (s : Side) (σ : Server) (e : Server.Call) (msg : SendJob) : Option Cause :=
  match e, msg with
  | .playerTricked _ card _, .wrong _ => some (.refused card)
  | .playerTricked _ card ix, .taken _ _ _ =>
      (σ.sideOf ix).map fun side => .trickTaken ((σ.game.putCard side card).hands s)
  | _, _ => none

/-- The messages of a call for worker `ix`. -/
def parcels (s : Side) (σ : Server) (e : Server.Call) (σ' : Server) (ix : Nat) :
    List (SendJob × Option Cause) :=
  (Server.received σ σ' ix).map fun msg => (msg, cause s σ e msg)

/-- The client that comes with worker `ix`. -/
def sitDown (fresh : α) (s : Side) (σ : Server) (e : Server.Call) (σ' : Server) (ix : Nat)
    [Player α] : Link α where
  worker := ix
  client := .new fresh
  down := parcels s σ e σ' ix
  up := []
  late := σ.lastDeal.isSome
  live := σ.lastDeal.isNone
  crossed := false

/-- What a call does to a client that stays. -/
def stay (s : Side) (σ : Server) (e : Server.Call) (σ' : Server) (L : Link α) : Link α :=
  { L with
    down := L.down ++ parcels s σ e σ' L.worker
    up := if TakesUp s σ e then L.up.tail else L.up
    live := L.live || (Server.received σ σ' L.worker).any SendJob.isDeal
    crossed := L.crossed || decide (TakesUp s σ e ∧ σ.game.laid s ≠ []) }

variable [Player α] (fresh : α) (s : Side)

/-- The client of side `s` after a call. -/
def relink (W : Session α) (e : Server.Call) (σ' : Server) : Option (Link α) :=
  match σ'.activeSides s, W.link with
  | none, _ => none
  | some ix, none => some (sitDown fresh s W.server e σ' ix)
  | some _, some L => some (stay s W.server e σ' L)

/-- One step. -/
def step (W : Session α) : Event → Option (Session α)
  | .call e =>
      if W.Allows s e then
        match W.server.handle e with
        | .ok (_, σ') => some ⟨σ', W.relink fresh s e σ'⟩
        | .error _ => none
      else none
  | .receive => do
      let L ← W.link
      match L.down, L.client.terminate with
      | (msg, _) :: down, false =>
          match L.client.recv msg with
          | .ok (client, out) =>
              some { W with link := some { L with client := client, down := down, up := L.up ++ out } }
          | .error _ => none
      | _, _ => none
  | .command cmd => do
      let L ← W.link
      if L.client.terminate = true then none
      else
        match L.client.command true cmd with
        | .ok (client, out) =>
            some { W with link := some { L with client := client, up := L.up ++ out } }
        | .error _ => none

/-- A server with nobody on side `s`. -/
def opened (σ : Server) : Session α := ⟨σ, none⟩

section Inversion

variable {fresh s} {W W' : Session α}

theorem step_call {e : Server.Call} (h : W.step fresh s (.call e) = some W') :
    W.Allows s e ∧ ∃ b σ', Server.Effect W.server e b σ' ∧ W' = ⟨σ', W.relink fresh s e σ'⟩ := by
  simp only [step] at h
  split at h
  · rename_i hallows
    split at h
    · rename_i b σ' hhandle
      exact ⟨hallows, b, σ', Server.handle_effect hhandle, (Option.some.inj h).symm⟩
    · cases h
  · cases h

theorem step_receive (h : W.step fresh s .receive = some W') :
    ∃ L msg cause down client out, W.link = some L ∧ L.down = (msg, cause) :: down ∧
      L.client.recv msg = .ok (client, out) ∧
      W' = { W with link := some { L with client := client, down := down, up := L.up ++ out } } := by
  simp only [step] at h
  obtain ⟨L, hL, h⟩ := Option.bind_eq_some_iff.mp h
  split at h
  · rename_i msg cause down hdown _
    split at h
    · rename_i client out hrecv
      exact ⟨L, msg, cause, down, client, out, hL, hdown, hrecv, (Option.some.inj h).symm⟩
    · cases h
  · cases h

theorem step_command {cmd : List Char} (h : W.step fresh s (.command cmd) = some W') :
    ∃ L client out, W.link = some L ∧ L.client.command true cmd = .ok (client, out) ∧
      W' = { W with link := some { L with client := client, up := L.up ++ out } } := by
  simp only [step] at h
  obtain ⟨L, hL, h⟩ := Option.bind_eq_some_iff.mp h
  split at h
  · cases h
  split at h
  · rename_i client out hcommand
    exact ⟨L, client, out, hL, hcommand, (Option.some.inj h).symm⟩
  · cases h

end Inversion

/-- **Induction over the runs of a session**, from a server in any state of a game. -/
theorem run_induction {fresh s} {scenario : GameScenario} {W₀ W : Session α} {S₀ : CardGame}
    {evs : List Event} {P : List Event → Session α → CardGame → Prop}
    (hstand₀ : Standing scenario W₀.server S₀) (hstart : P [] W₀ S₀)
    (hquiet : ∀ evs W e b σ' S, exec (step fresh s) W₀ evs = some W → Standing scenario W.server S →
      Standing scenario σ' S → P evs W S → W.step fresh s (.call e) = some ⟨σ', W.relink fresh s e σ'⟩ →
      W.Allows s e → Server.Effect W.server e b σ' → W.server.accepts e = none →
      σ'.game = W.server.game → P (evs ++ [.call e]) ⟨σ', W.relink fresh s e σ'⟩ S)
    (hmove : ∀ evs W n card ix b σ' side S S', exec (step fresh s) W₀ evs = some W →
      Standing scenario W.server S → Standing scenario σ' S' → P evs W S →
      W.step fresh s (.call (.playerTricked n card ix)) =
        some ⟨σ', W.relink fresh s (.playerTricked n card ix) σ'⟩ →
      W.Allows s (.playerTricked n card ix) →
      Server.Effect W.server (.playerTricked n card ix) b σ' → 4 ≤ W.server.playersConnected →
      W.server.sideOf ix = some side → W.server.admits n card side →
      Server.Accepted W.server side card σ' →
      S.play kierki (deals scenario) (side, card) = some S' →
      P (evs ++ [.call (.playerTricked n card ix)])
        ⟨σ', W.relink fresh s (.playerTricked n card ix) σ'⟩ S')
    (hreceive : ∀ evs W L msg cause down client out S, exec (step fresh s) W₀ evs = some W →
      Standing scenario W.server S → P evs W S → W.step fresh s .receive =
        some { W with link := some { L with client := client, down := down, up := L.up ++ out } } →
      W.link = some L → L.down = (msg, cause) :: down → L.client.recv msg = .ok (client, out) →
      P (evs ++ [.receive])
        { W with link := some { L with client := client, down := down, up := L.up ++ out } } S)
    (hcommand : ∀ evs W L cmd client out S, exec (step fresh s) W₀ evs = some W →
      Standing scenario W.server S → P evs W S → W.step fresh s (.command cmd) =
        some { W with link := some { L with client := client, up := L.up ++ out } } →
      W.link = some L → L.client.command true cmd = .ok (client, out) →
      P (evs ++ [.command cmd])
        { W with link := some { L with client := client, up := L.up ++ out } } S)
    (h : exec (step fresh s) W₀ evs = some W) : ∃ S, Standing scenario W.server S ∧ P evs W S := by
  refine exec_induction (P := fun evs W => ∃ S, Standing scenario W.server S ∧ P evs W S)
    ⟨S₀, hstand₀, hstart⟩ (fun evs W ev W' hevs hP hstep => ?_) evs W h
  obtain ⟨S, hstand, hP⟩ := hP
  cases ev with
  | call e =>
      obtain ⟨hallows, b, σ', heff, rfl⟩ := step_call hstep
      -- a call accepts no card and leaves the game, or it is one move of the game
      rcases hstand.effect heff with ⟨hnone, hgame, hstand'⟩ |
        ⟨n, card, ix, side, S', rfl, hpc, hside, hgood, hacc, hplay, hstand'⟩
      · exact ⟨S, hstand', hquiet evs W e b σ' S hevs hstand hstand' hP hstep hallows heff hnone hgame⟩
      · exact ⟨S', hstand', hmove evs W n card ix b σ' side S S' hevs hstand hstand' hP hstep
          hallows heff hpc hside hgood hacc hplay⟩
  | receive =>
      obtain ⟨L, msg, cause, down, client, out, hL, hdown, hrecv, rfl⟩ := step_receive hstep
      exact ⟨S, hstand, hreceive evs W L msg cause down client out S hevs hstand hP hstep hL hdown hrecv⟩
  | command cmd =>
      obtain ⟨L, client, out, hL, hcommand', rfl⟩ := step_command hstep
      exact ⟨S, hstand, hcommand evs W L cmd client out S hevs hstand hP hstep hL hcommand'⟩

end Session

end Kierki
