import Kierki.Server.Intake
import Kierki.Server.Pause

/-!
# The bytes of a connection and the calls they become

`heardBy` puts on record what a worker hears in a run of the system, `grantedTo` the calls the server grants
for its messages.  A message that is refused is offered again, after other calls of other workers, and the
connection may end between any two bytes; but what is granted is read off the bytes alone: it is what the
first messages in the stream ask for, in order, each once (`requests_run`).
-/

namespace Kierki

open Execution Framing Heard

/-- The call that a worker makes for a message. -/
def Request.call (ix : Nat) : Request → Server.Call
  | .invalid => .handleWrongMessage ix
  | .intro side => .playerIntro side ix
  | .trick trickNo card => .playerTricked trickNo card ix

/-- The calls for messages of worker `ix`. -/
def callsFor (ix : Nat) (msgs : List (List Char)) : List Server.Call :=
  msgs.filterMap fun msg => (request msg).map (Request.call ix)

/-- A call for a message. -/
def Server.Call.asks : Server.Call → Bool
  | .playerIntro _ _ | .playerTricked _ _ _ | .handleWrongMessage _ => true
  | .handleTimeout _ | .grandExitCallback _ _ _ | .execMutexed | .forwardConnection | .popNextJob _
  | .handlePipe _ | .waitForClearing => false

theorem Server.Call.asks_owner {e : Server.Call} (h : e.asks = true) : ∃ ix, e.owner = some ix := by
  cases e <;> first | exact ⟨_, rfl⟩ | cases h

@[simp] theorem callsFor_append (ix : Nat) (msgs msgs' : List (List Char)) :
    callsFor ix (msgs ++ msgs') = callsFor ix msgs ++ callsFor ix msgs' := List.filterMap_append

theorem callsFor_isPrefix (ix : Nat) {msgs msgs' : List (List Char)} (h : msgs <+: msgs') :
    callsFor ix msgs <+: callsFor ix msgs' := by
  obtain ⟨more, rfl⟩ := h
  rw [callsFor_append]
  exact List.prefix_append _ _

theorem request_intro (side : Side) : request (SendJob.intro side).body = some (.intro side) := by
  have hparse := parse_body (k := .iam) (show MsgKind.Valid .iam (.intro side) from trivial)
  rw [request, show parseNetMsg (SendJob.intro side).body true = _ from hparse]
  cases side <;> rfl

theorem request_trick {n : Nat} (hn : TrickNumber n) (card : Card) :
    request (SendJob.trick [card] n).body = some (.trick n card) := by
  have hparse := parse_body (k := .trickC) (show MsgKind.Valid .trickC (.trick [card] n) from ⟨hn, rfl⟩)
  rw [request, show parseNetMsg (SendJob.trick [card] n).body true = _ from hparse]
  show (Card.fromString card.toString).bind (fun c => some (Request.trick (atoi (toStringNat n)) c)) = _
  rw [card.fromString_toString, atoi_toStringNat]
  rfl

namespace IOWorker

variable {w : IOWorker} {i : Tick} {act : Action}

/-- Away from the loop over `pendingIncoming` no message is consumed. -/
theorem consumed_heard (hstage : w.stage ≠ .offer) : consumed (w.heard i) = [] := by
  by_cases hsocket : w.stage = .socket
  · rw [heard_socket hsocket]
    by_cases hskip : (w.wantToToQuit || w.closedFd || !w.pendingIncoming.isEmpty) = true
    · rw [if_pos hskip]
      rfl
    · rw [if_neg hskip]
      cases i.answer <;> rfl
  · have hnone : w.heard i = [] := by
      unfold heard
      split
      · exact absurd ‹_› hsocket
      · exact absurd ‹_› hstage
      · rfl
    rw [hnone]
    rfl

/-- Away from it no call is made for a message either. -/
theorem Move.asks {σ : Server} {ix : Nat} (h : w.Move σ ix act) (hstage : w.stage ≠ .offer) {e : Server.Call}
    (he : act.call? = some e) : e.asks = false := by
  cases h with
  | offerInvalid _ _ hst | offerIntro _ _ _ hst | offerTrick _ _ _ _ hst => exact absurd hst hstage
  | _ => cases he <;> rfl

/-- **A turn that makes a call for a message offers this message**, and the message is consumed when the call
is granted. -/
theorem granted_turn (hact : w.act i = some act) :
    (act.call?.toList.filter fun e => e.asks && i.reply) = callsFor i.ix (consumed (w.heard i)) := by
  by_cases hstage : w.stage = .offer
  · simp only [IOWorker.act, turn, hstage, turnOffer] at hact
    unfold heard
    simp only [hstage]
    cases hmsg : w.pendingIncoming with
    | nil =>
        simp only [hmsg] at hact
        obtain rfl := Option.some.inj hact
        rfl
    | cons msg rest =>
        simp only [hmsg] at hact
        rcases request_cases msg with hreq | ⟨side, -, hreq⟩ | ⟨n, card, -, -, hreq⟩ <;>
          simp only [hreq] at hact <;> obtain rfl := Option.some.inj hact <;>
          cases hreply : i.reply <;> simp [Action.call?, consumed, callsFor, hreq, Request.call, Server.Call.asks]
  · rw [consumed_heard hstage]
    refine List.filter_eq_nil_iff.mpr fun e he => ?_
    rw [(turn_move hact).asks hstage (Option.mem_toList.mp he)]
    simp

end IOWorker

namespace System

/-- What the server answers to the call of a turn. -/
def reply (S : System) (ev : Event) : Bool :=
  match (S.callOf ev).map S.server.handle with
  | some (.ok (b, _)) => b
  | _ => true

/-- What worker `ix` hears in a turn. -/
def heardBy (ix : Nat) (S : System) (ev : Event) (_ : System) : List Heard :=
  match ev with
  | .cleaner => []
  | .worker jx a closeFails =>
      if jx = ix then
        (S.threads ix).elim [] fun w => w.heard ⟨S.server, ix, a, closeFails, S.reply (.worker jx a closeFails)⟩
      else []

/-- The call for a message of worker `ix` that is granted in a turn. -/
def grantedTo (ix : Nat) (S : System) (ev : Event) (_ : System) : List Server.Call :=
  (S.callOf ev).toList.filter fun e => e.asks && decide (e.owner = some ix) && S.reply ev

/-- A thread's own turn, as a tick of the thread. -/
theorem own_tick {S S' : System} {ix : Nat} {a : Answer} {closeFails : Bool}
    (h : S.step (.worker ix a closeFails) = some S') :
    ∃ w act, S.threads ix = some w ∧
      w.act ⟨S.server, ix, a, closeFails, S.reply (.worker ix a closeFails)⟩ = some act ∧
      S.callOf (.worker ix a closeFails) = act.call? ∧
      S'.threads ix = some (act.next (S.reply (.worker ix a closeFails))) := by
  obtain ⟨w, act, b, hw, hturn, hnext, hhandle⟩ := own_turn h
  have hcall : S.callOf (.worker ix a closeFails) = act.call? := by
    rw [callOf, action, hw, Option.bind_some, hturn]
    rfl
  refine ⟨w, act, hw, hturn, hcall, hnext.trans ?_⟩
  cases act with
  | silent w' => rfl
  | connect fd w' => rfl
  | call e k =>
      have hreply : S.reply (.worker ix a closeFails) = b := by
        rw [reply, hcall]
        simp [Action.call?, hhandle e rfl]
      rw [hreply]

/-- **What is granted in a turn is what the message consumed in it asks for.** -/
theorem granted_step {S S' : System} {ev : Event} (h : step S ev = some S') (ix : Nat) :
    grantedTo ix S ev S' = callsFor ix (consumed (heardBy ix S ev S')) := by
  cases ev with
  | cleaner => rfl
  | worker jx a closeFails =>
      obtain ⟨w, act, hw, hact, hcall, -⟩ := own_tick h
      have howner : ∀ e ∈ act.call?.toList, e.asks = true → e.owner = some jx := by
        intro e he hasks
        obtain ⟨kx, hown⟩ := Server.Call.asks_owner hasks
        obtain rfl : kx = jx := (IOWorker.turn_move hact).owner (Option.mem_toList.mp he) hown
        exact hown
      by_cases hix : jx = ix
      · subst hix
        have hgranted := IOWorker.granted_turn hact
        simp only [grantedTo, heardBy, hw, hcall, if_true, Option.elim] at hgranted ⊢
        rw [← hgranted]
        refine List.filter_congr fun e he => ?_
        cases hasks : e.asks with
        | false => rfl
        | true => simp [howner e he hasks]
      · have hnot : ∀ e ∈ act.call?.toList, (e.asks && decide (e.owner = some ix) &&
            S.reply (.worker jx a closeFails)) = false := by
          intro e he
          cases hasks : e.asks with
          | false => rfl
          | true => simp [howner e he hasks, hix]
        simp only [grantedTo, heardBy, hcall, if_neg hix]
        rw [List.filter_eq_nil_iff.mpr fun e he => by simp [hnot e he]]
        rfl

/-- What is granted to a worker in a run is what the messages it has consumed ask for. -/
theorem granted_run {S₀ S : System} {evs : List Event} (h : exec step S₀ evs = some S) (ix : Nat) :
    record step (grantedTo ix) S₀ evs = callsFor ix (consumed (record step (heardBy ix) S₀ evs)) := by
  refine exec_induction (P := fun evs _ => record step (grantedTo ix) S₀ evs =
    callsFor ix (consumed (record step (heardBy ix) S₀ evs))) rfl (fun evs S ev S' hes ih hS' => ?_) evs S h
  rw [record_concat _ hes hS', record_concat _ hes hS', consumed, List.filterMap_append, callsFor_append]
  exact congrArg₂ (· ++ ·) ih (granted_step hS' ix)

/-- The thread of a connection is an `Intake` whose history is on record; and where there is no thread,
nothing is. -/
theorem intake_run {scenario : GameScenario} {timeout tcpListenSock : Int} {evs : List Event} {S₀ S : System}
    (h₀ : start scenario timeout tcpListenSock = .ok S₀) (hevs : exec step S₀ evs = some S) (ix : Nat) :
    (S.threads ix = none → record step (heardBy ix) S₀ evs = []) ∧
      ∀ w, S.threads ix = some w → w.kind = .handler → ∃ timeout fd,
        Reachable Intake.step (Intake.start timeout fd) ⟨w, record step (heardBy ix) S₀ evs⟩ := by
  refine exec_induction (P := fun evs S => (S.threads ix = none → record step (heardBy ix) S₀ evs = []) ∧
    ∀ w, S.threads ix = some w → w.kind = .handler → ∃ timeout fd,
      Reachable Intake.step (Intake.start timeout fd) ⟨w, record step (heardBy ix) S₀ evs⟩)
    ⟨fun _ => rfl, fun w hw hkind => ?_⟩ (fun evs S ev S' hes ih hS' => ?_) evs S hevs
  · obtain ⟨-, rfl⟩ := start_thread h₀ hw
    cases hkind
  · have hcrew := crewed_run (run_eq_some.mpr ⟨S₀, h₀, hes⟩)
    rw [record_concat _ hes hS']
    -- its own turn is a tick of the intake; a turn of another leaves it and its history
    by_cases hown : ∃ a closeFails, ev = .worker ix a closeFails
    · obtain ⟨a, closeFails, rfl⟩ := hown
      obtain ⟨w, act, hw, hact, -, hnext⟩ := own_tick hS'
      refine ⟨fun hnone => ?_, fun w' hw' hkind => ?_⟩
      · rw [hnext] at hnone
        cases hnone
      obtain rfl := Option.some.inj (hnext.symm.trans hw')
      rw [((IOWorker.turn_move hact).fixed _).2] at hkind
      obtain ⟨timeout, fd, hreach⟩ := ih.2 w hw hkind
      refine ⟨timeout, fd, hreach.tail
        (e := ⟨S.server, ix, a, closeFails, S.reply (.worker ix a closeFails)⟩) ?_⟩
      simp only [Intake.step, hact, Option.map_some, heardBy, hw, if_true, Option.elim]
    · have hsilent : heardBy ix S ev S' = [] := by
        cases ev with
        | cleaner => rfl
        | worker jx a closeFails =>
            refine if_neg fun hix => hown ⟨a, closeFails, ?_⟩
            rw [hix]
      rw [hsilent, List.append_nil]
      constructor
      · intro hnone
        refine ih.1 ?_
        by_contra hsome
        have hstays := (step_turn hS').thread_stays (Option.isSome_iff_ne_none.mpr hsome)
        rw [hnone] at hstays
        cases hstays
      · intro w hw hkind
        rcases (step_turn hS').thread hw with ⟨hold, -⟩ | ⟨a, closeFails, -, -, -, hev, -⟩ | ⟨hnew, -, fd, rfl⟩
        · exact ih.2 w hold hkind
        · exact absurd ⟨a, closeFails, hev⟩ hown
        · -- a new thread has an index that no thread had, and nothing on record
          have hnone : S.threads ix = none := by
            cases hw : S.threads ix with
            | none => rfl
            | some w' => exact absurd (hcrew.known ix w' hw) (by rw [hnew]; exact Nat.lt_irrefl _)
          rw [ih.1 hnone]
          exact ⟨_, _, .refl _⟩

/-- **The bytes decide.**  In every run, whatever the portions in which the bytes of a connection come in,
whoever takes a turn in between and however often a message is refused: the calls that are granted are those
the first lines of the stream ask for, up to the first that is too long and but for one that is parked. -/
theorem requests_run {scenario : GameScenario} {timeout tcpListenSock : Int} {evs : List Event} {S₀ S : System}
    (h₀ : start scenario timeout tcpListenSock = .ok S₀) (hevs : exec step S₀ evs = some S) {ix : Nat}
    {w : IOWorker} (hw : S.threads ix = some w) (hkind : w.kind = .handler) :
    record step (grantedTo ix) S₀ evs ++ callsFor ix w.pendingIncoming =
      callsFor ix ((cut '\r' '\n' (received (record step (heardBy ix) S₀ evs))).1.takeWhile (Intake.Short ·)) := by
  obtain ⟨timeout, fd, hreach⟩ := (intake_run h₀ hevs ix).2 w hw hkind
  have hfirst := (Intake.kept_run hreach).toFramed.first
  rw [granted_run hevs ix, ← callsFor_append]
  exact congrArg (callsFor ix) hfirst

end System

end Kierki
