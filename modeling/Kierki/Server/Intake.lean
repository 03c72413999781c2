import Kierki.Library.Framing
import Kierki.Server.Ticks

/-!
# What a worker takes in

`Intake` is a thread with the history of its incoming side: the characters that `recv` returned, the
notice that the connection is over, and the messages offered to the server with the answers.  `Framed`
says how the messages sit in the stream of characters, and every run keeps it, whatever the portions the
characters come in and whatever the server answers.
-/

namespace Kierki

open Execution Framing

/-- An event on the incoming side of a worker. -/
inductive Heard
  /-- `recv` returns a character -/
  | byte (c : Char)
  /-- `recv` says that the connection is over -/
  | closed
  /-- a message is offered to the server, which takes it or refuses it -/
  | offered (msg : List Char) (taken : Bool)
  deriving DecidableEq, Repr

namespace Heard

/-- The characters that have come in. -/
def received (history : List Heard) : List Char :=
  history.filterMap fun | .byte c => some c | _ => none

/-- The messages the server has taken. -/
def consumed (history : List Heard) : List (List Char) :=
  history.filterMap fun | .offered msg true => some msg | _ => none

/-- A refused message is the next thing that is heard. -/
def Again (e e' : Heard) : Prop := ∀ msg, e = .offered msg false → ∃ taken, e' = .offered msg taken

@[simp] theorem received_concat (history : List Heard) (e : Heard) :
    received (history ++ [e]) = received history ++ received [e] := List.filterMap_append

@[simp] theorem consumed_concat (history : List Heard) (e : Heard) :
    consumed (history ++ [e]) = consumed history ++ consumed [e] := List.filterMap_append

end Heard

namespace IOWorker

/-- What a turn adds to the history. -/
def heard (w : IOWorker) (i : Tick) : List Heard :=
  match w.stage with
  | .socket =>
      if w.wantToToQuit || w.closedFd || !w.pendingIncoming.isEmpty then []
      else match i.answer with
        | .recv c => [.byte c]
        | .recvEnd | .recvFailed _ => [.closed]
        | _ => []
  | .offer =>
      match w.pendingIncoming with
      | [] => []
      | msg :: _ => [.offered msg i.reply]
  | _ => []

/-- What a turn of a handler does to the incoming side. -/
inductive Hearing (w : IOWorker) : IOWorker → List Heard → Prop
  | quiet (w' : IOWorker) (hpending : w'.pendingIncoming = w.pendingIncoming)
      (hnext : w'.nextIncoming = w.nextIncoming) (hpeer : w'.peerCorrupted = w.peerCorrupted)
      (hquit : w.wantToToQuit = true → w'.wantToToQuit = true)
      (hclosed : w.closedFd = true → w'.closedFd = true)
      (hstage : w'.stage = .offer → w'.wantToToQuit = false)
      (hoffer : w.stage = .offer → w.pendingIncoming = []) : Hearing w w' []
  | byte (c : Char) (closeFails : Bool) (hquit : w.wantToToQuit = false)
      (hnone : w.pendingIncoming = []) :
      Hearing w (w.receive c closeFails) [.byte c]
  | closed (w' : IOWorker) (hquit : w.wantToToQuit = false) (hnone : w.pendingIncoming = [])
      (hpending : w'.pendingIncoming = []) (hnext : w'.nextIncoming = w.nextIncoming)
      (hpeer : w'.peerCorrupted = w.peerCorrupted) (hquit' : w'.wantToToQuit = true) :
      Hearing w w' [.closed]
  | offered (w' : IOWorker) (msg : List Char) (rest : List (List Char)) (taken : Bool)
      (hstage : w.stage = .offer) (hmsg : w.pendingIncoming = msg :: rest)
      (hpending : w'.pendingIncoming = if taken then rest else msg :: rest)
      (hnext : w'.nextIncoming = w.nextIncoming) (hpeer : w'.peerCorrupted = w.peerCorrupted)
      (hback : taken = false → w'.stage = .corrupted) : Hearing w w' [.offered msg taken]

/-- Away from `socketAction` nothing is heard. -/
theorem Move.quiet {σ : Server} {ix : Nat} {w : IOWorker} {act : Action} (h : w.Move σ ix act) (b : Bool)
    (hsocket : w.stage ≠ .socket) (hoffer : w.stage ≠ .offer) : Hearing w (act.next b) [] := by
  have hstage : ∀ {w' : IOWorker}, w'.stage ∈ successors w.stage → w'.stage = .offer →
      w'.wantToToQuit = false := by
    intro w' hmem heq
    rw [heq] at hmem
    revert hmem hsocket hoffer
    cases w.stage <;> simp [successors]
  have hsucc := h.successor b
  cases h with
  | quitting hst | noRecv hst | received _ _ hst | recvBlocked hst | recvEnd _ hst | recvFailed _ _ hst
  | acceptBlocked hst | accepted _ hst => exact absurd hst hsocket
  | offerDone hst | offerInvalid _ _ hst | offerIntro _ _ _ hst | offerTrick _ _ _ _ hst =>
      exact absurd hst hoffer
  | started pipeFails mainFails =>
      refine .quiet _ ?_ ?_ ?_ ?_ ?_ (hstage hsucc) (fun h => absurd h hoffer) <;>
        cases pipeFails <;> cases mainFails <;> simp [Action.next, fcntl, loop, goto, addErr]
  | pollExit | corruptedExit | leaveExit =>
      refine .quiet _ ?_ ?_ ?_ ?_ ?_ (hstage hsucc) (fun h => absurd h hoffer) <;>
        cases b <;> simp [Action.next, exit, loop, goto]
  | sent | sentLast =>
      refine .quiet _ ?_ ?_ ?_ ?_ ?_ (hstage hsucc) (fun h => absurd h hoffer) <;>
        cases b <;> simp only [Action.next, if_true, transmit, goto] <;> split <;>
          simp_all [addErr, closeConn]
  | _ =>
      refine .quiet _ ?_ ?_ ?_ ?_ ?_ (hstage hsucc) (fun h => absurd h hoffer) <;>
        simp [Action.next, loop, goto, addErr, closeConn]

theorem heard_socket {w : IOWorker} {i : Tick} (hstage : w.stage = .socket) : w.heard i =
    if w.wantToToQuit || w.closedFd || !w.pendingIncoming.isEmpty then []
    else match i.answer with
      | .recv c => [.byte c]
      | .recvEnd | .recvFailed _ => [.closed]
      | _ => [] := by
  unfold heard
  rw [hstage]

/-- The incoming side in `socketAction`, before the messages are offered. -/
theorem turnRecv_hearing {w : IOWorker} {i : Tick} {act : Action} (hstage : w.stage = .socket)
    (hact : w.turnRecv i.closeFails i.answer = some act) : Hearing w (act.next i.reply) (w.heard i) := by
  unfold turnRecv at hact
  rw [heard_socket hstage]
  -- `recv` is called on an open connection without a message in wait, and only there
  by_cases hquit : w.wantToToQuit = true
  · rw [if_pos hquit] at hact
    obtain rfl := Option.some.inj hact
    rw [if_pos (by rw [hquit]; rfl)]
    exact .quiet _ rfl rfl rfl id id (fun h => by cases h) (fun h => by simp [hstage] at h)
  rw [if_neg hquit] at hact
  have hwant : w.wantToToQuit = false := by simpa using hquit
  by_cases hskip : (w.closedFd || !w.pendingIncoming.isEmpty) = true
  · rw [if_pos hskip] at hact
    obtain rfl := Option.some.inj hact
    rw [if_pos (by rw [Bool.or_assoc, hskip, Bool.or_true])]
    exact .quiet _ rfl rfl rfl id id (fun _ => hwant) (fun h => by simp [hstage] at h)
  rw [if_neg hskip] at hact
  rw [if_neg (by rw [Bool.or_assoc, hwant]; exact hskip)]
  obtain ⟨hopen, hnone⟩ : w.closedFd = false ∧ w.pendingIncoming = [] := by simpa using hskip
  cases hans : i.answer with
  | recv c =>
      rw [hans] at hact
      obtain rfl := Option.some.inj hact
      exact .byte c i.closeFails hwant hnone
  | recvBlocked =>
      rw [hans] at hact
      obtain rfl := Option.some.inj hact
      exact .quiet _ rfl rfl rfl id id (fun _ => hwant) (fun h => by simp [hstage] at h)
  | recvEnd =>
      rw [hans] at hact
      obtain rfl := Option.some.inj hact
      exact .closed _ hwant hnone hnone rfl rfl rfl
  | recvFailed errType =>
      rw [hans] at hact
      by_cases herr : errType = .internal
      · exact absurd ((if_pos herr).symm.trans hact) (by simp)
      · obtain rfl := Option.some.inj ((if_neg herr).symm.trans hact)
        exact .closed _ hwant hnone hnone rfl rfl rfl
  | _ => simp [hans] at hact

/-- A message is offered, and taken or refused. -/
theorem turnOffer_hearing {w : IOWorker} {i : Tick} {act : Action} (hstage : w.stage = .offer)
    (hact : w.turnOffer i.ix = some act) : Hearing w (act.next i.reply) (w.heard i) := by
  unfold turnOffer at hact
  unfold heard
  simp only [hstage]
  cases hmsg : w.pendingIncoming with
  | nil =>
      simp only [hmsg] at hact
      obtain rfl := Option.some.inj hact
      exact .quiet _ rfl rfl rfl id id (fun h => by cases h) (fun _ => hmsg)
  | cons msg rest =>
      simp only [hmsg] at hact
      -- every kind of message is popped or left where it is
      have hanswered : Hearing w (w.answered rest i.reply) [.offered msg i.reply] := by
        cases i.reply
        · exact .offered _ msg rest false hstage hmsg hmsg rfl rfl fun _ => rfl
        · exact .offered _ msg rest true hstage hmsg rfl rfl rfl fun h => by cases h
      rcases request_cases msg with hreq | ⟨side, -, hreq⟩ | ⟨n, card, -, -, hreq⟩ <;>
        simp only [hreq] at hact <;> obtain rfl := Option.some.inj hact
      · show Hearing w (w.dismissed rest i.reply) _
        cases i.reply
        · exact .offered _ msg rest false hstage hmsg hmsg rfl rfl fun _ => rfl
        · exact .offered _ msg rest true hstage hmsg rfl rfl rfl fun h => by cases h
      · exact hanswered
      · exact hanswered

/-- The test for the end of a message looks at the last character that came before. -/
theorem ends_iff (text : List Char) (c : Char) :
    (c = '\n' ∧ 1 < (text ++ [c]).length ∧ (text ++ [c])[(text ++ [c]).length - 2]? = some '\r') ↔
      c = '\n' ∧ text.getLast? = some '\r' := by
  cases text using List.reverseRecOn with
  | nil => simp
  | append_singleton text d => simp

/-- **One more character**: the message gets too long, or ends, or goes on. -/
theorem receive_cases (w : IOWorker) (c : Char) (closeFails : Bool) :
    (MAX_PARSE_LEN < (w.nextIncoming ++ [c]).length ∧ w.receive c closeFails =
        ({ w with nextIncoming := w.nextIncoming ++ [c], peerCorrupted := true }.closeConn closeFails).goto
          .offer) ∨
      ((w.nextIncoming ++ [c]).length ≤ MAX_PARSE_LEN ∧
        (c = '\n' ∧ w.nextIncoming.getLast? = some '\r') ∧ w.receive c closeFails =
          { w with
            pendingIncoming := w.pendingIncoming ++ [w.nextIncoming.dropLast]
            nextIncoming := [] }.goto .offer) ∨
      (w.nextIncoming ++ [c]).length ≤ MAX_PARSE_LEN ∧
        ¬ (c = '\n' ∧ w.nextIncoming.getLast? = some '\r') ∧
          w.receive c closeFails = { w with nextIncoming := w.nextIncoming ++ [c] } := by
  unfold receive
  dsimp only
  by_cases hlong : MAX_PARSE_LEN < (w.nextIncoming ++ [c]).length
  · exact .inl ⟨hlong, if_pos hlong⟩
  · rw [if_neg hlong]
    by_cases hends : c = '\n' ∧ w.nextIncoming.getLast? = some '\r'
    · refine .inr (.inl ⟨not_lt.mp hlong, hends, ?_⟩)
      rw [if_pos ((ends_iff _ c).mpr hends)]
      -- the mark is taken off
      have hdrop : (w.nextIncoming ++ [c]).take ((w.nextIncoming ++ [c]).length - 2) =
          w.nextIncoming.dropLast := by
        rw [List.dropLast_eq_take, List.length_append, List.length_singleton,
          show w.nextIncoming.length + 1 - 2 = w.nextIncoming.length - 1 by omega,
          List.take_append_of_le_length (by omega)]
      rw [hdrop]
    · exact .inr (.inr ⟨not_lt.mp hlong, hends, if_neg fun h => hends ((ends_iff _ c).mp h)⟩)

/-- **What one turn of a handler does to its incoming side.** -/
theorem act_hearing {w : IOWorker} {i : Tick} {act : Action} (hkind : w.kind = .handler)
    (hact : w.act i = some act) : Hearing w (act.next i.reply) (w.heard i) := by
  by_cases hsocket : w.stage = .socket
  · simp only [IOWorker.act, turn, hsocket, hkind] at hact
    exact turnRecv_hearing hsocket hact
  · by_cases hoffer : w.stage = .offer
    · simp only [IOWorker.act, turn, hoffer] at hact
      exact turnOffer_hearing hoffer hact
    · have hnone : w.heard i = [] := by
        unfold heard
        split
        · exact absurd ‹_› hsocket
        · exact absurd ‹_› hoffer
        · rfl
      rw [hnone]
      exact (turn_move hact).quiet i.reply hsocket hoffer

/-- In the loop over `pendingIncoming` there is always a next turn. -/
theorem offer_progress {w : IOWorker} (i : Tick) (hstage : w.stage = .offer) : (w.act i).isSome := by
  simp only [IOWorker.act, turn, hstage]
  unfold turnOffer
  cases w.pendingIncoming with
  | nil => rfl
  | cons msg rest =>
      rcases request_cases msg with hreq | ⟨side, -, hreq⟩ | ⟨n, card, -, -, hreq⟩ <;>
        simp [hreq]

end IOWorker

/-- The thread of a connection, with what it has heard. -/
structure Intake where
  worker : IOWorker
  history : List Heard

namespace Intake

open Heard

def start (timeout fd : Int) : Intake := ⟨.new .handler timeout fd, []⟩

def step (v : Intake) (i : Tick) : Option Intake :=
  (v.worker.act i).map fun act => ⟨act.next i.reply, v.history ++ v.worker.heard i⟩

/-- The stream as far as it has come in, cut at each CR with an LF behind it. -/
def segments (v : Intake) : List (List Char) := (cut '\r' '\n' (received v.history)).1

/-- What has come in behind the last segment. -/
def rest (v : Intake) : List Char := (cut '\r' '\n' (received v.history)).2

/-- The segments with their marks, and the unfinished one. -/
def pieces (v : Intake) : List (List Char) := v.segments.map (· ++ ['\r', '\n']) ++ [v.rest]

/-- With its mark the message fits into `MAX_PARSE_LEN`. -/
def Short (msg : List Char) : Prop := msg.length + 2 ≤ MAX_PARSE_LEN

instance (msg : List Char) : Decidable (Short msg) := by
  unfold Short
  infer_instance

/-- How the messages sit in the stream. -/
structure Framed (v : Intake) : Prop where
  /-- the segments are consumed in order, each once, but for one that is parked -/
  messages : v.worker.wantToToQuit = false → v.segments = consumed v.history ++ v.worker.pendingIncoming
  /-- nothing else is kept -/
  unfinished : v.worker.wantToToQuit = false → v.rest = v.worker.nextIncoming
  /-- what stays parked was refused -/
  parked : v.worker.pendingIncoming ≠ [] → v.worker.stage = .offer ∨
    ∃ msg, v.worker.pendingIncoming = [msg] ∧ v.history.getLast? = some (.offered msg false)
  /-- a refused message is offered again before anything else is heard -/
  again : v.history.IsChain Again
  /-- the close is noticed last, when all segments have been consumed -/
  closing : Heard.closed ∈ v.history →
    v.history.getLast? = some .closed ∧ v.segments = consumed v.history
  /-- only segments that are not too long are offered -/
  offers : ∀ msg taken, .offered msg taken ∈ v.history → msg ∈ v.segments ∧ Short msg
  /-- a piece that is too long ends the connection, and only the segments in front of it are consumed -/
  tooLong : (∃ piece ∈ v.pieces, MAX_PARSE_LEN < piece.length) →
    v.worker.closedFd = true ∧ v.worker.wantToToQuit = true ∧ v.worker.pendingIncoming = []
  /-- whatever stands in a message, it can be offered -/
  goesOn : v.worker.stage = .offer → ∀ i, (v.worker.act i).isSome
  /-- whatever happens, the messages are the first segments of the stream -/
  first : consumed v.history ++ v.worker.pendingIncoming = v.segments.takeWhile (Short ·)

/-- The invariant of the thread that keeps the messages framed. -/
structure Kept (v : Intake) : Prop where
  kind : v.worker.kind = .handler
  sound : v.worker.peerCorrupted = false →
    v.segments = consumed v.history ++ v.worker.pendingIncoming ∧ v.rest = v.worker.nextIncoming ∧
      v.rest.length ≤ MAX_PARSE_LEN ∧ ∀ msg ∈ v.segments, Short msg
  corrupted : v.worker.peerCorrupted = true →
    v.worker.closedFd = true ∧ v.worker.wantToToQuit = true ∧ v.worker.pendingIncoming = [] ∧
      consumed v.history = v.segments.takeWhile (Short ·)
  quitting : v.worker.wantToToQuit = true → v.worker.stage = .offer → v.worker.pendingIncoming = []
  refused : ∀ msg, v.history.getLast? = some (.offered msg false) → v.worker.pendingIncoming = [msg]
  parked : v.worker.pendingIncoming ≠ [] →
    (v.worker.stage = .offer ∧ ∃ msg, v.worker.pendingIncoming = [msg]) ∨
      ∃ msg, v.worker.pendingIncoming = [msg] ∧ v.history.getLast? = some (.offered msg false)
  again : v.history.IsChain Again
  closing : Heard.closed ∈ v.history → v.history.getLast? = some .closed ∧
    v.segments = consumed v.history ∧ v.worker.wantToToQuit = true
  offers : ∀ msg taken, .offered msg taken ∈ v.history → msg ∈ v.segments ∧ Short msg

theorem Kept.start (timeout fd : Int) : Kept (start timeout fd) where
  kind := rfl
  sound _ := ⟨rfl, rfl, Nat.zero_le _, fun _ h => by cases h⟩
  corrupted h := by cases h
  quitting _ _ := rfl
  refused _ h := by cases h
  parked h := absurd rfl h
  again := .nil
  closing h := by cases h
  offers _ _ h := by cases h

theorem step_eq_some {v v' : Intake} {i : Tick} (h : v.step i = some v') :
    ∃ act, v.worker.act i = some act ∧ v'.worker = act.next i.reply ∧
      v'.history = v.history ++ v.worker.heard i := by
  obtain ⟨act, hact, rfl⟩ := Option.map_eq_some_iff.mp h
  exact ⟨act, hact, rfl, rfl⟩

/-- Every run of the thread of a connection can be listened to. -/
theorem heard {timeout fd : Int} {w : IOWorker}
    (h : Reachable IOWorker.tick (.new .handler timeout fd) w) :
    ∃ v, Reachable step (start timeout fd) v ∧ v.worker = w := by
  refine h.invariant (P := fun w => ∃ v, Reachable step (start timeout fd) v ∧ v.worker = w)
    ⟨start timeout fd, .refl _, rfl⟩ ?_
  rintro w i w' ⟨v, hreach, rfl⟩ htick
  obtain ⟨act, hact, rfl⟩ := IOWorker.tick_eq_some.mp htick
  exact ⟨_, hreach.tail (Option.map_eq_some_iff.mpr ⟨act, hact, rfl⟩), rfl⟩

/-- What is kept of the stream says how the messages sit in it. -/
theorem Kept.toFramed {v : Intake} (h : Kept v) : v.Framed := by
  have hsound : v.worker.wantToToQuit = false → v.worker.peerCorrupted = false := by
    intro hquit
    cases hpeer : v.worker.peerCorrupted with
    | false => rfl
    | true =>
        rw [(h.corrupted hpeer).2.1] at hquit
        cases hquit
  constructor
  case messages => exact fun hquit => (h.sound (hsound hquit)).1
  case unfinished => exact fun hquit => (h.sound (hsound hquit)).2.1
  case parked => exact fun hne => (h.parked hne).imp_left And.left
  case again => exact h.again
  case closing => exact fun hmem => ⟨(h.closing hmem).1, (h.closing hmem).2.1⟩
  case offers => exact h.offers
  case goesOn => exact fun hstage i => IOWorker.offer_progress i hstage
  case tooLong =>
    rintro ⟨piece, hpiece, hlong⟩
    cases hpeer : v.worker.peerCorrupted with
    | true =>
        obtain ⟨hclosed, hquit, hnone, -⟩ := h.corrupted hpeer
        exact ⟨hclosed, hquit, hnone⟩
    | false =>
        -- no piece is too long yet
        obtain ⟨-, -, hrest, hshort⟩ := h.sound hpeer
        rcases List.mem_append.mp hpiece with hpiece | hpiece
        · obtain ⟨msg, hmsg, rfl⟩ := List.mem_map.mp hpiece
          have hle : msg.length + 2 ≤ MAX_PARSE_LEN := hshort msg hmsg
          simp only [List.length_append, List.length_cons, List.length_nil] at hlong
          omega
        · rw [List.mem_singleton.mp hpiece] at hlong
          omega
  case first =>
    cases hpeer : v.worker.peerCorrupted with
    | true =>
        obtain ⟨-, -, hnone, hcons⟩ := h.corrupted hpeer
        rw [hnone, List.append_nil, hcons]
    | false =>
        obtain ⟨hsegments, -, -, hshort⟩ := h.sound hpeer
        rw [← hsegments, eq_comm, List.takeWhile_eq_self_iff]
        exact fun msg hmsg => decide_eq_true (hshort msg hmsg)

section Bytes

variable (v : Intake) (w' : IOWorker) (c : Char)

/-- A character that ends a segment. -/
theorem received_last (hends : c = '\n' ∧ v.rest.getLast? = some '\r') :
    segments ⟨w', v.history ++ [.byte c]⟩ = v.segments ++ [v.rest.dropLast] ∧
      rest ⟨w', v.history ++ [.byte c]⟩ = [] := by
  have hcut : cut '\r' '\n' (received v.history ++ [c]) = (v.segments ++ [v.rest.dropLast], []) :=
    (cut_concat (received v.history) c).trans (if_pos hends)
  have hcome : received (v.history ++ [.byte c]) = received v.history ++ [c] := by simp [received]
  refine ⟨?_, ?_⟩
  · rw [segments, hcome, hcut]
  · rw [rest, hcome, hcut]

/-- A character that goes to the unfinished piece. -/
theorem received_byte (hends : ¬ (c = '\n' ∧ v.rest.getLast? = some '\r')) :
    segments ⟨w', v.history ++ [.byte c]⟩ = v.segments ∧
      rest ⟨w', v.history ++ [.byte c]⟩ = v.rest ++ [c] := by
  have hcut : cut '\r' '\n' (received v.history ++ [c]) = (v.segments, v.rest ++ [c]) :=
    (cut_concat (received v.history) c).trans (if_neg hends)
  have hcome : received (v.history ++ [.byte c]) = received v.history ++ [c] := by simp [received]
  refine ⟨?_, ?_⟩
  · rw [segments, hcome, hcut]
  · rw [rest, hcome, hcut]

/-- A piece without its mark fits where the piece fits. -/
theorem short_dropLast {piece : List Char} {d : Char} (hpiece : piece.getLast? = some d) (c : Char) :
    Short piece.dropLast ↔ (piece ++ [c]).length ≤ MAX_PARSE_LEN := by
  have hpos : 0 < piece.length := by
    rw [List.length_pos_iff]
    rintro rfl
    cases hpiece
  rw [Short, List.length_dropLast, List.length_append, List.length_singleton]
  omega

/-- A piece that is too long, with its mark or without, comes behind the segments that fit. -/
theorem takeWhile_tooLong (hshort : ∀ msg ∈ v.segments, Short msg)
    (hlong : MAX_PARSE_LEN < (v.rest ++ [c]).length) :
    (segments ⟨w', v.history ++ [.byte c]⟩).takeWhile (Short ·) = v.segments := by
  have hall : ∀ msg ∈ v.segments, decide (Short msg) = true := fun msg hmsg => decide_eq_true (hshort msg hmsg)
  by_cases hends : c = '\n' ∧ v.rest.getLast? = some '\r'
  · have hnot : ¬ Short v.rest.dropLast := by
      rw [short_dropLast hends.2 c]
      exact Nat.not_le_of_lt hlong
    rw [(received_last v w' c hends).1, List.takeWhile_append_of_pos hall]
    simp [hnot]
  · rw [(received_byte v w' c hends).1, List.takeWhile_eq_self_iff]
    exact hall

end Bytes

/-- As long as the worker does not want to quit, nothing has gone wrong. -/
theorem Kept.running {v : Intake} (h : Kept v) (hquit : v.worker.wantToToQuit = false) :
    v.worker.peerCorrupted = false ∧ Heard.closed ∉ v.history := by
  refine ⟨?_, fun hmem => ?_⟩
  · cases hpeer : v.worker.peerCorrupted with
    | false => rfl
    | true =>
        rw [(h.corrupted hpeer).2.1] at hquit
        cases hquit
  · rw [(h.closing hmem).2.2] at hquit
    cases hquit

/-- A turn in which nothing is heard. -/
theorem Kept.quiet {v : Intake} (h : Kept v) {w' : IOWorker} (hkind : w'.kind = .handler)
    (hpending : w'.pendingIncoming = v.worker.pendingIncoming)
    (hnext : w'.nextIncoming = v.worker.nextIncoming)
    (hpeer : w'.peerCorrupted = v.worker.peerCorrupted)
    (hquit : v.worker.wantToToQuit = true → w'.wantToToQuit = true)
    (hclosed : v.worker.closedFd = true → w'.closedFd = true)
    (hstage : w'.stage = .offer → w'.wantToToQuit = false)
    (hoffer : v.worker.stage = .offer → v.worker.pendingIncoming = []) : Kept ⟨w', v.history⟩ where
  kind := hkind
  sound hsound := by
    show v.segments = _ ++ w'.pendingIncoming ∧ v.rest = w'.nextIncoming ∧ _
    rw [hpending, hnext]
    exact h.sound (hpeer ▸ hsound)
  corrupted hcor := by
    obtain ⟨hc, hq, hnone, hcons⟩ := h.corrupted (hpeer ▸ hcor)
    exact ⟨hclosed hc, hquit hq, hpending.trans hnone, hcons⟩
  quitting hq hst := by
    rw [hstage hst] at hq
    cases hq
  refused msg hlast := hpending.trans (h.refused msg hlast)
  parked hne := by
    rw [hpending] at hne
    show _ ∨ ∃ msg, w'.pendingIncoming = [msg] ∧ _
    rw [hpending]
    rcases h.parked hne with ⟨hst, -⟩ | hlast
    · exact absurd (hoffer hst) hne
    · exact .inr hlast
  again := h.again
  closing hmem := ⟨(h.closing hmem).1, (h.closing hmem).2.1, hquit (h.closing hmem).2.2⟩
  offers := h.offers

/-- The history gets longer by an event that is no close and comes after no refusal of another message. -/
theorem Kept.again_concat {v : Intake} (h : Kept v) {e : Heard}
    (hlast : ∀ msg, v.worker.pendingIncoming = [msg] → ∃ taken, e = .offered msg taken) :
    (v.history ++ [e]).IsChain Again := by
  refine List.isChain_append.mpr ⟨h.again, .singleton e, fun x hx y hy => ?_⟩
  obtain rfl : e = y := by simpa using hy
  rintro msg rfl
  exact hlast msg (h.refused msg hx)

/-- A message is offered. -/
theorem Kept.offered {v : Intake} (h : Kept v) {w' : IOWorker} (hkind : w'.kind = .handler)
    {msg : List Char} {rest : List (List Char)} {taken : Bool} (hstage : v.worker.stage = .offer)
    (hmsg : v.worker.pendingIncoming = msg :: rest)
    (hpending : w'.pendingIncoming = if taken then rest else msg :: rest)
    (hnext : w'.nextIncoming = v.worker.nextIncoming)
    (hpeer : w'.peerCorrupted = v.worker.peerCorrupted)
    (hback : taken = false → w'.stage = .corrupted) :
    Kept ⟨w', v.history ++ [.offered msg taken]⟩ := by
  have hne : v.worker.pendingIncoming ≠ [] := by simp [hmsg]
  have hquit : v.worker.wantToToQuit = false := by
    cases hquit : v.worker.wantToToQuit with
    | false => rfl
    | true => exact absurd (h.quitting hquit hstage) hne
  obtain ⟨hsane, hopen⟩ := h.running hquit
  obtain ⟨hsegments, hrest, hlen, hshort⟩ := h.sound hsane
  -- only one message is parked at a time
  obtain rfl : rest = [] := by
    rcases h.parked hne with ⟨-, m, hone⟩ | ⟨m, hone, -⟩ <;> rw [hmsg] at hone <;>
      exact (List.cons.inj hone).2
  have hsame : segments ⟨w', v.history ++ [.offered msg taken]⟩ = v.segments := by
    simp [segments, received]
  have hsameRest : Intake.rest ⟨w', v.history ++ [.offered msg taken]⟩ = v.rest := by
    simp [Intake.rest, received]
  have hmem : msg ∈ v.segments := by rw [hsegments, hmsg]; simp
  constructor
  case kind => exact hkind
  case sound =>
    intro _
    rw [hsame, hsameRest]
    refine ⟨?_, hrest.trans hnext.symm, hlen, hshort⟩
    rw [hsegments, hmsg, consumed_concat]
    show _ = _ ++ w'.pendingIncoming
    rw [hpending]
    cases taken <;> simp [consumed]
  case corrupted =>
    intro hcor
    rw [hpeer, hsane] at hcor
    cases hcor
  case quitting =>
    intro _ hst
    cases taken with
    | true => exact hpending
    | false =>
        rw [hback rfl] at hst
        cases hst
  case refused =>
    intro m hlast
    obtain ⟨rfl, rfl⟩ : msg = m ∧ taken = false := by simpa using hlast
    exact hpending
  case parked =>
    intro hne'
    cases taken with
    | true => exact absurd hpending hne'
    | false => exact .inr ⟨msg, hpending, by simp⟩
  case again =>
    refine h.again_concat fun m hone => ⟨taken, ?_⟩
    rw [hmsg] at hone
    rw [(List.cons.inj hone).1]
  case closing => exact fun hmem' => absurd (by simpa using hmem') hopen
  case offers =>
    intro m b hm
    rw [hsame]
    rcases List.mem_append.mp hm with hm | hm
    · exact h.offers m b hm
    · cases List.mem_singleton.mp hm
      exact ⟨hmem, hshort msg hmem⟩

/-- `recv` says that the connection is over. -/
theorem Kept.closed {v : Intake} (h : Kept v) {w' : IOWorker} (hkind : w'.kind = .handler)
    (hquit : v.worker.wantToToQuit = false) (hnone : v.worker.pendingIncoming = [])
    (hpending : w'.pendingIncoming = []) (hnext : w'.nextIncoming = v.worker.nextIncoming)
    (hpeer : w'.peerCorrupted = v.worker.peerCorrupted) (hquit' : w'.wantToToQuit = true) :
    Kept ⟨w', v.history ++ [.closed]⟩ := by
  obtain ⟨hsane, hopen⟩ := h.running hquit
  obtain ⟨hsegments, hrest, hlen, hshort⟩ := h.sound hsane
  -- the end of the connection adds to the history but not to what was received
  have hsame : segments ⟨w', v.history ++ [.closed]⟩ = v.segments := by simp [segments, received]
  have hsameRest : Intake.rest ⟨w', v.history ++ [.closed]⟩ = v.rest := by simp [Intake.rest, received]
  have hconsumed : consumed (v.history ++ [.closed]) = consumed v.history := by simp [consumed]
  rw [hnone, List.append_nil] at hsegments
  constructor
  case kind => exact hkind
  case sound =>
    intro _
    rw [hsame, hsameRest, hconsumed]
    refine ⟨?_, hrest.trans hnext.symm, hlen, hshort⟩
    rw [hpending, List.append_nil, hsegments]
  case corrupted =>
    intro hcor
    rw [hpeer, hsane] at hcor
    cases hcor
  case quitting => exact fun _ _ => hpending
  case refused => exact fun m hlast => by simp at hlast
  case parked => exact fun hne => absurd hpending hne
  case again => exact h.again_concat fun m hone => by simp [hnone] at hone
  case closing =>
    intro _
    rw [hsame, hconsumed]
    exact ⟨by simp, hsegments, hquit'⟩
  case offers =>
    intro m b hm
    rw [hsame]
    exact h.offers m b (by simpa using hm)

/-- A character comes in. -/
theorem Kept.byte {v : Intake} (h : Kept v) (c : Char) (closeFails : Bool)
    (hquit : v.worker.wantToToQuit = false) (hnone : v.worker.pendingIncoming = [])
    (hkind : (v.worker.receive c closeFails).kind = .handler) :
    Kept ⟨v.worker.receive c closeFails, v.history ++ [.byte c]⟩ := by
  obtain ⟨hsane, hopen⟩ := h.running hquit
  obtain ⟨hsegments, hrest, hlen, hshort⟩ := h.sound hsane
  rw [hnone, List.append_nil] at hsegments
  have hconsumed : consumed (v.history ++ [.byte c]) = consumed v.history := by simp [consumed]
  have hagain : (v.history ++ [Heard.byte c]).IsChain Again :=
    h.again_concat fun m hone => by simp [hnone] at hone
  have hoffers : ∀ w' msg taken, Heard.offered msg taken ∈ v.history ++ [.byte c] →
      msg ∈ segments ⟨w', v.history ++ [.byte c]⟩ ∧ Short msg := by
    intro w' msg taken hmem
    obtain ⟨hmem, hfits⟩ := h.offers msg taken (by simpa using hmem)
    refine ⟨(cut_isPrefix ?_).subset hmem, hfits⟩
    rw [received_concat]
    exact List.prefix_append _ _
  have hopen' : Heard.closed ∉ v.history ++ [.byte c] := by simpa using hopen
  have hlast : ∀ msg, (v.history ++ [Heard.byte c]).getLast? ≠ some (.offered msg false) := by simp
  rcases v.worker.receive_cases c closeFails with ⟨hlong, heq⟩ | ⟨hfits, hends, heq⟩ |
    ⟨hfits, hends, heq⟩ <;> rw [heq] at hkind ⊢ <;> rw [← hrest] at *
  · -- the piece is too long now, with or without its mark
    constructor
    case kind => exact hkind
    case sound => exact fun hpeer => by cases hpeer
    case corrupted => exact fun _ => ⟨rfl, rfl, hnone, by rw [hconsumed, ← hsegments, takeWhile_tooLong v _ c hshort hlong]⟩
    case quitting => exact fun _ _ => hnone
    case refused => exact fun msg h => absurd h (hlast msg)
    case parked => exact fun hne => absurd hnone hne
    case again => exact hagain
    case closing => exact fun hmem => absurd hmem hopen'
    case offers => exact hoffers _
  · -- the piece is a segment now, and fits
    have hnew : Short v.rest.dropLast := (short_dropLast hends.2 c).mpr hfits
    constructor
    case kind => exact hkind
    case sound =>
      intro _
      rw [(received_last v _ c hends).1, (received_last v _ c hends).2, hconsumed, ← hsegments]
      refine ⟨?_, rfl, Nat.zero_le _, fun msg hmsg => ?_⟩
      · show _ = v.segments ++ (v.worker.pendingIncoming ++ [v.rest.dropLast])
        rw [hnone, List.nil_append]
      · rcases List.mem_append.mp hmsg with hmsg | hmsg
        · exact hshort msg hmsg
        · rw [List.mem_singleton.mp hmsg]
          exact hnew
    case corrupted => exact fun hpeer => by simp [IOWorker.goto, hsane] at hpeer
    case quitting => exact fun hwant => by simp [IOWorker.goto, hquit] at hwant
    case refused => exact fun msg h => absurd h (hlast msg)
    case parked =>
      refine fun _ => .inl ⟨rfl, v.rest.dropLast, ?_⟩
      show v.worker.pendingIncoming ++ [v.rest.dropLast] = _
      rw [hnone, List.nil_append]
    case again => exact hagain
    case closing => exact fun hmem => absurd hmem hopen'
    case offers => exact hoffers _
  · -- the piece grows
    constructor
    case kind => exact hkind
    case sound =>
      intro _
      rw [(received_byte v _ c hends).1, (received_byte v _ c hends).2, hconsumed, ← hsegments]
      refine ⟨?_, rfl, hfits, hshort⟩
      show _ = v.segments ++ v.worker.pendingIncoming
      rw [hnone, List.append_nil]
    case corrupted => exact fun hpeer => by simp [hsane] at hpeer
    case quitting => exact fun hwant => by simp [hquit] at hwant
    case refused => exact fun msg h => absurd h (hlast msg)
    case parked => exact fun hne => absurd hnone hne
    case again => exact hagain
    case closing => exact fun hmem => absurd hmem hopen'
    case offers => exact hoffers _

theorem Kept.step {v v' : Intake} {i : Tick} (h : Kept v) (hstep : v.step i = some v') : Kept v' := by
  obtain ⟨act, hact, hworker, hhistory⟩ := step_eq_some hstep
  have hkind : (act.next i.reply).kind = .handler := ((IOWorker.turn_move hact).fixed i.reply).2.trans h.kind
  have hhear := IOWorker.act_hearing h.kind hact
  obtain rfl : v' = ⟨act.next i.reply, v.history ++ v.worker.heard i⟩ := by
    rw [← hworker, ← hhistory]
  generalize v.worker.heard i = es at hhear
  generalize act.next i.reply = w' at hhear hkind
  cases hhear with
  | quiet w' hpending hnext hpeer hquit hclosed hstage hoffer =>
      rw [List.append_nil]
      exact h.quiet hkind hpending hnext hpeer hquit hclosed hstage hoffer
  | byte c closeFails hquit hnone => exact h.byte c closeFails hquit hnone hkind
  | closed w' hquit hnone hpending hnext hpeer hquit' =>
      exact h.closed hkind hquit hnone hpending hnext hpeer hquit'
  | offered w' msg rest taken hstage hmsg hpending hnext hpeer hback =>
      exact h.offered hkind hstage hmsg hpending hnext hpeer hback

theorem kept_run {timeout fd : Int} {v : Intake} (h : Reachable step (start timeout fd) v) : Kept v :=
  h.invariant (Kept.start timeout fd) fun _ _ _ hkept hstep => hkept.step hstep

/-- **Framing**: of every stream, in whatever portions it comes in and whatever the server answers, the
messages are the segments in order; and two workers that read the same stream consume the same messages. -/
theorem framed {timeout timeout' fd fd' : Int} {v v' : Intake}
    (h : Reachable step (start timeout fd) v) (h' : Reachable step (start timeout' fd') v') :
    v.Framed ∧
      (∀ stream, received v.history <+: stream → received v'.history <+: stream →
        consumed v.history <+: consumed v'.history ∨ consumed v'.history <+: consumed v.history) ∧
      (received v.history = received v'.history → v.worker.pendingIncoming = [] →
        v'.worker.pendingIncoming = [] → consumed v.history = consumed v'.history) := by
  have hframed := (kept_run h).toFramed
  have hframed' := (kept_run h').toFramed
  refine ⟨hframed, fun stream hpre hpre' => ?_, fun hsame hnone hnone' => ?_⟩
  · -- both have consumed the first segments of the stream
    have hconsumed : ∀ {u : Intake}, u.Framed → received u.history <+: stream →
        consumed u.history <+: (cut '\r' '\n' stream).1.takeWhile (Short ·) := by
      intro u hu hpre
      have hmessages := List.prefix_append (consumed u.history) u.worker.pendingIncoming
      rw [hu.first] at hmessages
      exact hmessages.trans (takeWhile_isPrefix (cut_isPrefix hpre))
    exact List.prefix_or_prefix_of_prefix (hconsumed hframed hpre) (hconsumed hframed' hpre')
  · have hfirst := hframed.first
    have hfirst' := hframed'.first
    rw [hnone, List.append_nil] at hfirst
    rw [hnone', List.append_nil] at hfirst'
    rw [hfirst, hfirst', segments, segments, hsame]

/-- A turn of worker 1 of a server that knows nothing of it. -/
def turn (a : Answer) (reply : Bool) : Tick := ⟨.new [] 5, 1, a, false, reply⟩

/-- The turn of `poll` when there is a byte in the pipe. -/
def wakened : Tick := ⟨{ Server.new [] 5 with workerMgr := IOWorkerMgr.new.signal 1 }, 1, .pollReady, false, true⟩

/-- A portion of bytes that wakes `poll`. -/
def portion (text : String) : List Tick :=
  turn .pollReady true :: turn .pipeEmpty true :: text.toList.map fun c => turn (.recv c) true

/-- What the thread does before it comes back to `poll`. -/
def comesRound (n : Nat) : List Tick := List.replicate n (turn .go true) ++ [turn (.remaining 3000) true]

/-- Two messages in two portions.  The second one is refused, and taken when the thread is woken; then other bytes come. -/
def refusedOnce : List Tick :=
  turn (.fcntl false false) true :: portion "IAMN\r\n" ++ turn .go true :: comesRound 6 ++
    portion "TRICK12C\r\n" ++ turn .go false :: comesRound 5 ++
    [wakened, turn .pipeEmpty true, turn .go true] ++ comesRound 7 ++ portion "TR"

/-- The same bytes, of which the first portion ends within the end of a line. -/
def splitLine : List Tick :=
  turn (.fcntl false false) true :: portion "IAMN\r" ++ turn .recvBlocked true :: comesRound 6 ++
    portion "\n" ++ turn .go true :: comesRound 6 ++ portion "TRICK12C\r\n" ++ turn .go true :: comesRound 6 ++
    portion "TR"

theorem framed_refusedOnce : ∃ v v', exec step (start 5 7) refusedOnce = some v ∧
    exec step (start 5 8) splitLine = some v' ∧ v.Framed ∧ v'.Framed ∧
      received v.history = "IAMN\r\nTRICK12C\r\nTR".toList ∧
      consumed v.history = ["IAMN".toList, "TRICK12C".toList] := by
  have hfacts : (exec step (start 5 7) refusedOnce).map (fun v => (received v.history, v.worker.pendingIncoming)) =
      some ("IAMN\r\nTRICK12C\r\nTR".toList, []) := by decide +kernel
  have hfacts' : (exec step (start 5 8) splitLine).map (fun v =>
      (received v.history, v.worker.pendingIncoming, consumed v.history)) =
      some ("IAMN\r\nTRICK12C\r\nTR".toList, [], ["IAMN".toList, "TRICK12C".toList]) := by decide +kernel
  obtain ⟨v, hrun, heq⟩ := Option.map_eq_some_iff.mp hfacts
  obtain ⟨v', hrun', heq'⟩ := Option.map_eq_some_iff.mp hfacts'
  simp only [Prod.mk.injEq] at heq heq'
  obtain ⟨hbytes, hnone⟩ := heq
  obtain ⟨hbytes', hnone', hconsumed⟩ := heq'
  obtain ⟨hframed, -, hsame⟩ := framed ⟨_, hrun⟩ ⟨_, hrun'⟩
  refine ⟨v, v', hrun, hrun', hframed, (framed ⟨_, hrun'⟩ ⟨_, hrun⟩).1, hbytes, ?_⟩
  rw [hsame (hbytes.trans hbytes'.symm) hnone hnone', hconsumed]

end Intake

end Kierki
