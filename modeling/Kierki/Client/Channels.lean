import Kierki.Client.Dispatch
import Kierki.Client.Replay
import Kierki.Server.Ownership
import Kierki.Server.Transmission

/-!
# Messages as bytes

Between the message that one end puts together and the message that the other end acts on there is a stream of
bytes, which arrives in portions and may break off anywhere.  The messages of both ends hold no CR and no LF, so that
the marks behind them are the only ones in the stream: the client, which looks for an LF, and the worker, which looks
for a CR with an LF behind it, find the messages that were put in, in this order and each once.

Downwards the stream is what the kernel took from a worker (`IOWorker.carried`), and what the client makes of it is
what it makes of the messages (`Client.follow`).  Upwards the stream is what a client says, and what the worker makes
of it are the calls of the server for these messages.
-/

namespace Kierki

open Execution Framing

/-- A text without CR and LF. -/
def Plain (text : List Char) : Prop := ∀ c ∈ text, c ≠ '\r' ∧ c ≠ '\n'

section Plain

theorem Plain.append {text text' : List Char} (h : Plain text) (h' : Plain text') : Plain (text ++ text') :=
  List.forall_mem_append.mpr ⟨h, h'⟩

theorem plain_flatMap {β : Type} {f : β → List Char} (h : ∀ x, Plain (f x)) (xs : List β) : Plain (xs.flatMap f) := by
  intro c hc
  obtain ⟨x, -, hmem⟩ := List.mem_flatMap.mp hc
  exact h x c hmem

theorem toStringNat_plain (n : Nat) : Plain (toStringNat n) := by
  intro c hc
  have hdigit : c.isDigit = true := Nat.isDigit_of_mem_toDigits (by omega) (by omega) hc
  constructor <;> rintro rfl <;> simp [Char.isDigit] at hdigit

theorem Side.plain (s : Side) : Plain [s.char] := by cases s <;> simp [Plain, char]

theorem Card.plain (card : Card) : Plain card.toString := by
  have hvalue : Plain card.value.text := by cases card.value <;> simp [Plain, CardValue.text]
  have hcol : Plain [card.col.char] := by cases card.col <;> simp [Plain, Color.char]
  exact hvalue.append hcol

/-- **A message holds no mark.** -/
theorem SendJob.plain (job : SendJob) : Plain job.body := by
  have hcards : ∀ cards, Plain (cardsText cards) := plain_flatMap Card.plain
  have hscores : ∀ scores, Plain (scoresText scores) :=
    plain_flatMap fun p => p.1.plain.append (toStringNat_plain p.2)
  cases job with
  | busy sides =>
      have hsides : Plain (sides.map Side.char) := by
        rw [List.map_eq_flatMap]
        exact plain_flatMap Side.plain sides
      exact Plain.append (by simp [Plain]) hsides
  | deal mode s cards =>
      have hword : Plain ['D', 'E', 'A', 'L'] := by simp [Plain]
      exact ((hword.append (toStringNat_plain _)).append s.plain).append (hcards cards)
  | intro s => exact Plain.append (by simp [Plain]) s.plain
  | score scores | total scores => exact Plain.append (by simp [Plain]) (hscores scores)
  | taken cards s n =>
      have hword : Plain ['T', 'A', 'K', 'E', 'N'] := by simp [Plain]
      exact ((hword.append (toStringNat_plain n)).append (hcards cards)).append s.plain
  | trick table n =>
      have hword : Plain ['T', 'R', 'I', 'C', 'K'] := by simp [Plain]
      exact (hword.append (toStringNat_plain n)).append (hcards table)
  | wrong n => exact Plain.append (by simp [Plain]) (toStringNat_plain n)

/-- A part of the text of a message has no LF, if it is not the whole text. -/
theorem SendJob.plain_part {job : SendJob} {part : List Char} (h : part <+: job.genMsg) (hne : part ≠ job.genMsg) :
    '\n' ∉ part := by
  have hbody : part <+: job.body ++ ['\r'] := by
    rw [genMsg, show job.body ++ ['\r', '\n'] = (job.body ++ ['\r']) ++ ['\n'] by simp] at h hne
    exact (List.prefix_concat_iff.mp h).resolve_left hne
  intro hmem
  rcases List.mem_append.mp (hbody.subset hmem) with hmem | hmem
  · exact (job.plain _ hmem).2 rfl
  · cases List.mem_singleton.mp hmem

end Plain

section Reading

variable {α : Type} [Player α]

/-- What the client makes of messages, one after the other, until it leaves its loop, and what it sends. -/
def Client.follow (c : Client α) : List SendJob → Except ClientFault (Client α × List (Nat × Card))
  | [] => .ok (c, [])
  | msg :: msgs =>
      if c.terminate then .ok (c, [])
      else do
        let (c, out) ← c.recv msg
        let (c, out') ← c.follow msgs
        return (c, out ++ out')

namespace Reader

theorem readAll_terminated {r : Reader α} (h : r.client.terminate = true) (stream : List (Char × Bool)) :
    r.readAll stream = .ok r := by
  cases stream with
  | nil => rfl
  | cons p rest => exact if_pos h

/-- The loop may be interrupted anywhere. -/
theorem readAll_append (r : Reader α) (stream stream' : List (Char × Bool)) :
    r.readAll (stream ++ stream') = r.readAll stream >>= fun r' => r'.readAll stream' := by
  induction stream generalizing r with
  | nil => rfl
  | cons p rest ih =>
      obtain ⟨c, sent⟩ := p
      rw [List.cons_append, readAll, readAll]
      by_cases hend : r.client.terminate = true
      · rw [if_pos hend, if_pos hend, Fallible.ok_bind, readAll_terminated hend]
      · rw [if_neg hend, if_neg hend]
        cases r.read c sent with
        | error f => rfl
        | ok r' => exact ih r'

/-- Without an LF nothing happens. -/
theorem readAll_part {r : Reader α} (hgo : r.client.terminate = false) {text : List Char} (h : '\n' ∉ text) :
    r.readAll (bytes text) = .ok ⟨r.client, r.nextMsg ++ text⟩ := by
  induction text generalizing r with
  | nil => simp [bytes, readAll]
  | cons c text ih =>
      obtain ⟨hc, htext⟩ := not_or.mp (mt List.mem_cons.mpr h)
      have hread : r.read c true = .ok ⟨r.client, r.nextMsg ++ [c]⟩ := if_neg (Ne.symm hc)
      have hrest := ih (r := ⟨r.client, r.nextMsg ++ [c]⟩) hgo htext
      rw [List.append_assoc, List.singleton_append] at hrest
      simp only [bytes, List.map_cons, readAll, hgo, hread] at hrest ⊢
      exact hrest

/-- **The text of a message** is the message to the client. -/
theorem readAll_genMsg {c : Client α} (hgo : c.terminate = false) {msg : SendJob} (hread : msg.Readable) :
    readAll ⟨c, []⟩ (bytes msg.genMsg) = (c.recv msg).map fun p => ⟨p.1, []⟩ := by
  have htext : bytes msg.genMsg = bytes (msg.body ++ ['\r']) ++ [('\n', true)] := by
    simp [bytes, SendJob.genMsg]
  have hplain : '\n' ∉ msg.body ++ ['\r'] := by
    intro hmem
    rcases List.mem_append.mp hmem with hmem | hmem
    · exact (msg.plain _ hmem).2 rfl
    · cases List.mem_singleton.mp hmem
  have hline : line ([] ++ (msg.body ++ ['\r']) ++ ['\n']) = msg.body := by
    simp [line]
  have hdispatch : c.dispatch true msg.body = c.recv msg := by
    rw [Client.recv, if_pos hread]
    rcases c.dispatch_cases true msg.body with ⟨job, hjob, hbody, heq⟩ | ⟨hnone, -⟩
    · rw [heq, hjob.body_injective hread hbody]
    · exact absurd rfl (hnone msg hread)
  rw [htext, readAll_append, readAll_part hgo hplain, Fallible.ok_bind]
  simp only [readAll, hgo, read, hline, hdispatch, if_true]
  cases c.recv msg with
  | error f => rfl
  | ok p => rfl

/-- **The texts of messages** are the messages to the client. -/
theorem readAll_texts (c : Client α) {msgs : List SendJob} (hread : ∀ msg ∈ msgs, msg.Readable) :
    readAll ⟨c, []⟩ (bytes (msgs.flatMap SendJob.genMsg)) = (c.follow msgs).map fun p => ⟨p.1, []⟩ := by
  induction msgs generalizing c with
  | nil => rfl
  | cons msg msgs ih =>
      by_cases hend : c.terminate = true
      · rw [readAll_terminated hend, Client.follow, if_pos hend]
        rfl
      · have hgo : c.terminate = false := by simpa using hend
        have htexts : bytes ((msg :: msgs).flatMap SendJob.genMsg) =
            bytes msg.genMsg ++ bytes (msgs.flatMap SendJob.genMsg) := by
          simp [bytes]
        rw [htexts, readAll_append, readAll_genMsg hgo (hread msg List.mem_cons_self), Client.follow, if_neg hend]
        cases c.recv msg with
        | error f => rfl
        | ok p =>
            have hrest := ih p.1 fun q hq => hread q (List.mem_cons_of_mem _ hq)
            show readAll ⟨p.1, []⟩ _ = _
            rw [hrest]
            show _ = Except.map _ (p.1.follow msgs >>= _)
            cases p.1.follow msgs with
            | error f => rfl
            | ok q => rfl

/-- A part of a message behind them is nothing to it yet. -/
theorem readAll_stream (c : Client α) {msgs : List SendJob} (hread : ∀ msg ∈ msgs, msg.Readable) {rest : List Char}
    (hrest : '\n' ∉ rest) :
    (readAll ⟨c, []⟩ (bytes (msgs.flatMap SendJob.genMsg ++ rest))).map Reader.client = (c.follow msgs).map Prod.fst := by
  have htexts : bytes (msgs.flatMap SendJob.genMsg ++ rest) = bytes (msgs.flatMap SendJob.genMsg) ++ bytes rest := by
    simp [bytes]
  rw [htexts, readAll_append, readAll_texts c hread]
  cases c.follow msgs with
  | error f => rfl
  | ok p =>
      show Except.map Reader.client (readAll ⟨p.1, []⟩ (bytes rest)) = .ok p.1
      by_cases hend : p.1.terminate = true
      · rw [readAll_terminated hend]
        rfl
      · rw [readAll_part (by simpa using hend) hrest]
        rfl

end Reader

end Reading

section Speaking

variable {α : Type} [Player α]

/-- What a client for `side` has sent that has put these cards. -/
def said (side : Side) (out : List (Nat × Card)) : List SendJob :=
  .intro side :: out.map fun p => .trick [p.2] p.1

/-- A client that has put the cards `out`: from its start on it has heard messages and carried out commands,
whichever they were, and everything it sent got through. -/
inductive Client.Said : Client α → List (Nat × Card) → Prop
  | start (player : α) : Said (.new player) []
  | recv {c c' : Client α} {out out' : List (Nat × Card)} (msg : SendJob) (hsaid : Said c out)
      (hrecv : c.recv msg = .ok (c', out')) : Said c' (out ++ out')
  | command {c c' : Client α} {out out' : List (Nat × Card)} (nextCmd : List Char) (hsaid : Said c out)
      (hcommand : c.command true nextCmd = .ok (c', out')) : Said c' (out ++ out')

namespace Client

variable {c c' : Client α} {out : List (Nat × Card)}

omit [Player α] in
/-- A card is put with the number of the trick the client is in. -/
theorem chooseCard_trickNo {sent : Bool} {put : Option Card} (h : c.chooseCard sent put = .ok (c', out)) :
    c'.trickNo = c.trickNo ∧ ∀ p ∈ out, p.1 = c.trickNo := by
  cases put with
  | none =>
      cases h
      exact ⟨rfl, by simp⟩
  | some card =>
      simp only [chooseCard] at h
      split at h
      · split at h <;> cases h
        exact ⟨rfl, by simp⟩
      · cases h
        exact ⟨rfl, by simp⟩

/-- **The numbers that a client sends are numbers of tricks**: it has them from messages, or it is the one it
starts with. -/
theorem Said.trickNumber (h : Said c out) : TrickNumber c.trickNo ∧ ∀ p ∈ out, TrickNumber p.1 := by
  have hnext : ∀ {c c' : Client α} {out out' : List (Nat × Card)}, (∀ p ∈ out, TrickNumber p.1) →
      TrickNumber c.trickNo → c'.trickNo = c.trickNo ∧ (∀ p ∈ out', p.1 = c.trickNo) →
      TrickNumber c'.trickNo ∧ ∀ p ∈ out ++ out', TrickNumber p.1 := by
    rintro c c' out out' hout hnum ⟨hsame, hnew⟩
    exact ⟨hsame ▸ hnum, List.forall_mem_append.mpr ⟨hout, fun p hp => hnew p hp ▸ hnum⟩⟩
  induction h with
  | start player => exact ⟨show TrickNumber 1 by decide, by simp⟩
  | @recv c c' out out' msg _ hrecv ih =>
      obtain ⟨hnum, hout⟩ := ih
      unfold Client.recv at hrecv
      split at hrecv
      swap
      · cases hrecv
      rename_i hread
      -- a message that has a number sets the one of the client
      cases msg with
      | intro s => exact absurd hread.1 (show ¬ true = false by decide)
      | deal mode s cards | busy sides =>
          cases hrecv
          exact hnext hout hnum ⟨rfl, by simp⟩
      | score res | total res =>
          obtain ⟨player, -, hrecv⟩ := Fallible.bind_eq_ok.mp hrecv
          cases hrecv
          exact hnext hout hnum ⟨rfl, by simp⟩
      | taken cards s n =>
          cases hrecv
          exact hnext (c := { c with trickNo := n }) hout hread.2.1 ⟨rfl, by simp⟩
      | wrong n =>
          cases hrecv
          exact hnext (c := { c with trickNo := n }) hout hread.2 ⟨rfl, by simp⟩
      | trick t n =>
          obtain ⟨⟨player, put⟩, -, hrecv⟩ := Fallible.bind_eq_ok.mp hrecv
          exact hnext hout hread.2.1 (chooseCard_trickNo hrecv)
  | @command c c' out out' nextCmd _ hcommand ih =>
      obtain ⟨hnum, hout⟩ := ih
      unfold Client.command at hcommand
      obtain ⟨⟨player, put⟩, -, hcommand⟩ := Fallible.bind_eq_ok.mp hcommand
      cases hput : ({ c with player := player } : Client α).chooseCard true put with
      | error f =>
          simp only [hput] at hcommand
          cases hcommand
          exact hnext hout hnum ⟨rfl, by simp⟩
      | ok res =>
          simp only [hput] at hcommand
          cases hcommand
          obtain ⟨hsame, hnew⟩ := chooseCard_trickNo hput
          exact hnext hout hnum ⟨hsame, hnew⟩

end Client

/-- **What the server makes of what a client says.** -/
theorem callsFor_said (ix : Nat) (side : Side) {out : List (Nat × Card)} (h : ∀ p ∈ out, TrickNumber p.1) :
    callsFor ix ((said side out).map SendJob.body) =
      .playerIntro side ix :: out.map fun p => .playerTricked p.1 p.2 ix := by
  have htricks : callsFor ix (out.map fun p => (SendJob.trick [p.2] p.1).body) =
      out.map fun p => .playerTricked p.1 p.2 ix := by
    rw [callsFor, List.filterMap_map, ← List.filterMap_eq_map]
    refine List.filterMap_congr fun p hp => ?_
    simp only [Function.comp, request_trick (h p hp), Option.map_some, Request.call]
  rw [said, List.map_cons, List.map_map, callsFor, List.filterMap_cons, request_intro]
  exact congrArg (Server.Call.playerIntro side ix :: ·) htricks

/-- Nothing a client says is too long. -/
theorem short_said (side : Side) {out : List (Nat × Card)} (h : ∀ p ∈ out, TrickNumber p.1) :
    ∀ msg ∈ (said side out).map SendJob.body, Intake.Short msg := by
  have htrick : ∀ p ∈ out, Intake.Short (SendJob.trick [p.2] p.1).body := by
    intro p hp
    have hcard : p.2.toString.length ≤ 3 := by
      obtain ⟨value, col⟩ := p.2
      cases value <;> simp [Card.toString, CardValue.text]
    obtain ⟨d, hnum | hnum⟩ := (h p hp).text <;>
      simp only [Intake.Short, SendJob.body, hnum, cardsText, MAX_PARSE_LEN, List.length_append, List.length_cons,
        List.length_nil, List.flatMap_cons, List.flatMap_nil] <;> omega
  intro msg hmsg
  rw [said, List.map_cons, List.map_map] at hmsg
  rcases List.mem_cons.mp hmsg with rfl | hmem
  · simp [Intake.Short, SendJob.body, MAX_PARSE_LEN]
  · obtain ⟨p, hp, rfl⟩ := List.mem_map.mp hmem
    exact htrick p hp

end Speaking

namespace IOWorker

/-- The bytes that the kernel has taken from the thread. -/
def carried (w : IOWorker) : List Char := w.wire.flatMap fun p => p.1.genMsg.take p.2

/-- Messages got through whole, and then one may have broken off, with nothing behind it. -/
def BreaksOff (w : IOWorker) : Prop :=
  ∃ done lost, w.wire = done ++ lost ∧ (∀ p ∈ done, Whole p) ∧
    (lost = [] ∨ w.closedFd = true ∧ ∃ p rest, lost = p :: rest ∧ p.2 < p.1.genMsg.length ∧ ∀ q ∈ rest, q.2 = 0)

theorem genMsg_pos (job : SendJob) : 0 < job.genMsg.length := by simp [SendJob.genMsg]

theorem BreaksOff.of_wire {w w' : IOWorker} (h : BreaksOff w) (hwire : w'.wire = w.wire)
    (hclosed : w.closedFd = true → w'.closedFd = true) : BreaksOff w' := by
  obtain ⟨done, lost, heq, hdone, hlost⟩ := h
  exact ⟨done, lost, hwire.trans heq, hdone, hlost.imp_right (And.imp_left hclosed)⟩

/-- **An attempt**: it adds to what got through, it breaks off, or nothing of it gets through. -/
theorem BreaksOff.transmit {w : IOWorker} (h : BreaksOff w) (job : SendJob) (rest : List SendJob) {n : Nat}
    (closeFails : Bool) (hlen : n ≤ job.genMsg.length) (hnone : w.closedFd = true → n = 0) :
    BreaksOff (w.transmit job rest n closeFails) := by
  obtain ⟨done, lost, hwire, hdone, hlost⟩ := h
  have hpos := genMsg_pos job
  by_cases hwhole : n = job.genMsg.length
  · -- the descriptor is open, so that nothing has broken off before
    obtain rfl : lost = [] := by
      refine hlost.resolve_right fun hbroken => ?_
      have hzero := hnone hbroken.1
      omega
    refine ⟨done ++ [(job, n)], [], ?_, ?_, .inl rfl⟩
    · rw [transmit_wire, hwire, List.append_nil, List.append_nil]
    · exact List.forall_mem_append.mpr ⟨hdone, by simpa [Whole] using hwhole⟩
  · refine ⟨done, lost ++ [(job, n)], ?_, hdone, .inr ⟨?_, ?_⟩⟩
    · rw [transmit_wire, hwire, List.append_assoc]
    · rw [transmit_closedFd, if_neg hwhole]
    · rcases hlost with rfl | ⟨hclosed, p, more, rfl, hpart, hmore⟩
      · exact ⟨(job, n), [], rfl, show n < job.genMsg.length by omega, by simp⟩
      · refine ⟨p, more ++ [(job, n)], rfl, hpart, ?_⟩
        exact List.forall_mem_append.mpr ⟨hmore, by simpa using hnone hclosed⟩

/-- **The bytes are the texts of the messages that got through**, and at most a part of one more. -/
theorem BreaksOff.carried {w : IOWorker} (h : BreaksOff w) :
    ∃ part, w.carried = w.transmitted.flatMap SendJob.genMsg ++ part ∧ '\n' ∉ part ∧ w.transmitted <+: w.outbox := by
  obtain ⟨done, lost, hwire, hdone, hlost⟩ := h
  -- behind the break no message is whole, so that the whole ones are those in front of it
  have hnot : ∀ p ∈ lost, ¬ Whole p := by
    rintro p hp hwhole
    have hpos := genMsg_pos p.1
    rcases hlost with rfl | ⟨-, q, rest, rfl, hpart, hrest⟩
    · cases hp
    · rw [Whole] at hwhole
      rcases List.mem_cons.mp hp with rfl | hmem
      · omega
      · have hzero := hrest p hmem
        omega
  have htransmitted : w.transmitted = done.map Prod.fst := by
    rw [IOWorker.transmitted, hwire, List.filter_append, List.filter_eq_self.mpr (by simpa using hdone),
      List.filter_eq_nil_iff.mpr (by simpa using hnot), List.append_nil]
  have hwhole : done.flatMap (fun p => p.1.genMsg.take p.2) = (done.map Prod.fst).flatMap SendJob.genMsg := by
    rw [List.flatMap_map]
    refine List.flatMap_congr fun p hp => ?_
    rw [hdone p hp, List.take_length]
  have hprefix : w.transmitted <+: w.outbox := by
    rw [htransmitted, outbox, hwire, List.map_append, List.append_assoc]
    exact List.prefix_append _ _
  rw [IOWorker.carried, hwire, List.flatMap_append, hwhole, htransmitted]
  rcases hlost with rfl | ⟨-, p, rest, rfl, hpart, hrest⟩
  · exact ⟨[], rfl, by simp, htransmitted ▸ hprefix⟩
  · refine ⟨p.1.genMsg.take p.2, ?_, ?_, htransmitted ▸ hprefix⟩
    · have hnothing : rest.flatMap (fun q => q.1.genMsg.take q.2) = [] :=
        List.flatMap_eq_nil_iff.mpr fun q hq => by rw [hrest q hq, List.take_zero]
      rw [List.flatMap_cons, hnothing, List.append_nil]
    · -- only the last character of a text ends a line, and the part stops before it
      refine SendJob.plain_part (List.take_prefix _ _) fun hall => ?_
      have hlen := congrArg List.length hall
      rw [List.length_take] at hlen
      omega

/-- No more bytes get through than there are. -/
theorem turn_sent_le {σ : Server} {ix : Nat} {w : IOWorker} {closeFails : Bool} {act : Action} {n : Nat}
    {job : SendJob} {rest : List SendJob} (h : w.turn σ ix (.sent n) closeFails = some act)
    (hstage : w.stage = .send ∨ w.stage = .sendLast) (hout : w.pendingOutgoing = job :: rest) :
    n ≤ job.genMsg.length := by
  have hsend : ∃ next, w.turnSend closeFails next (.sent n) = some act := by
    unfold turn at h
    rcases hstage with hstage | hstage <;> rw [hstage] at h <;> exact ⟨_, h⟩
  obtain ⟨next, hsend⟩ := hsend
  simp only [turnSend, hout] at hsend
  split at hsend
  · assumption
  · cases hsend

end IOWorker

namespace System

open IOWorker

/-- Bytes get through on a descriptor that was closed before: its number was given to another connection. -/
def Misdirects (S : System) : Event → Prop
  | .worker ix (.sent n) _ =>
      match S.threads ix with
      | some w => (w.stage = .send ∨ w.stage = .sendLast) ∧ w.pendingOutgoing ≠ [] ∧ w.closedFd = true ∧
          S.server.execMutexed = true ∧ 0 < n
      | none => False
  | _ => False

instance (S : System) : (ev : Event) → Decidable (Misdirects S ev)
  | .worker ix (.sent n) _ =>
      decidable_of_iff (∃ w ∈ S.threads ix, (w.stage = .send ∨ w.stage = .sendLast) ∧ w.pendingOutgoing ≠ [] ∧
        w.closedFd = true ∧ S.server.execMutexed = true ∧ 0 < n) (by cases h : S.threads ix <;> simp [Misdirects, h])
  | .cleaner | .worker _ .go _ | .worker _ (.fcntl _ _) _ | .worker _ .pollExpired _ | .worker _ .pollFailed _
  | .worker _ .pollReady _ | .worker _ .pipeEmpty _ | .worker _ .pipeFailed _ | .worker _ (.recv _) _
  | .worker _ .recvBlocked _ | .worker _ .recvEnd _ | .worker _ (.recvFailed _) _ | .worker _ (.accepted _) _
  | .worker _ .acceptBlocked _ | .worker _ (.remaining _) _ => .isFalse id

/-- What a run keeps in which no bytes go astray and the trick number does not overrun. -/
structure Spoken (scenario : GameScenario) (S : System) : Prop where
  standing : ∃ G, Standing scenario S.server G
  readable : ∀ p ∈ S.server.workerMgr.sent, p.2.Readable
  breaksOff : ∀ ix w, S.threads ix = some w → w.BreaksOff

theorem spoken_start {scenario : GameScenario} {timeout tcpListenSock : Int} {S₀ : System}
    (h : start scenario timeout tcpListenSock = .ok S₀) : Spoken scenario S₀ := by
  obtain ⟨r, hr, hstarted⟩ := Server.start_eq_ok (start_eq_ok h).1
  constructor
  case standing =>
    rw [hstarted]
    exact ⟨_, standing_started timeout hr⟩
  case readable =>
    rw [hstarted]
    simp [Server.started, IOWorkerMgr.spawnNewWorker, IOWorkerMgr.new]
  case breaksOff =>
    intro ix w hw
    obtain ⟨-, rfl⟩ := start_thread h hw
    exact ⟨[], [], rfl, by simp, .inl rfl⟩

/-- **Every turn but these** keeps this. -/
theorem Spoken.step {scenario : GameScenario} {S S' : System} {ev : Event} (h : Spoken scenario S)
    (hguard : ¬ Misdirects S ev ∧ ¬ Makes Server.Overrun S ev) (hstep : step S ev = some S') :
    Spoken scenario S' := by
  have hturn := step_turn hstep
  obtain ⟨⟨G, hstand⟩, hread, hbreaks⟩ := h
  have hserver : (∃ G', Standing scenario S'.server G') ∧ ∀ p ∈ S'.server.workerMgr.sent, p.2.Readable := by
    rcases hturn.effect with hsame | ⟨e, b, hcall, heff⟩
    · rw [hsame]
      exact ⟨⟨G, hstand⟩, hread⟩
    · have hstand' : ∃ G', Standing scenario S'.server G' := by
        rcases hstand.effect heff with ⟨-, -, hnext⟩ | ⟨-, -, -, -, G', -, -, -, -, -, -, hnext⟩
        · exact ⟨G, hnext⟩
        · exact ⟨G', hnext⟩
      obtain ⟨G', hnext⟩ := hstand'
      refine ⟨⟨G', hnext⟩, ?_⟩
      -- what the call adds to the mail is readable: it is not one of the calls that overrun
      obtain ⟨out, hsent, hout⟩ := heff.emits fun _ _ _ _ _ hgood => hstand.mirrors.trickNo_ne hgood
      rw [hsent]
      refine List.forall_mem_append.mpr ⟨hread, fun p hp => ?_⟩
      have hgo : ¬ S.server.Overrun e := fun hover => hguard.2 ⟨e, hcall, hover⟩
      exact ((hout p hp).understood hstand.mirrors hnext.mirrors hstand.dealt hgo).readable
  refine ⟨hserver.1, hserver.2, fun ix w' hw' => ?_⟩
  rcases hturn.thread hw' with ⟨hw, -⟩ | ⟨a, closeFails, -, -, -, rfl, -⟩ | ⟨-, -, fd, rfl⟩
  · exact hbreaks ix w' hw
  · obtain ⟨w, act, b, hw, hact, hnext, hhandle⟩ := own_turn hstep
    obtain rfl : act.next b = w' := Option.some.inj (hnext.symm.trans hw')
    have hold := hbreaks ix w hw
    rcases (turn_move hact).wire b with ⟨hstage, hout⟩ | ⟨hwire, hclosed⟩
    · obtain ⟨job, rest, n, next, rfl, hjobs, rfl⟩ := turn_sent hact hstage hout
      obtain rfl : S.server.execMutexed = b := congrArg Prod.fst (Except.ok.inj (hhandle _ rfl))
      cases hgate : S.server.execMutexed with
      | false => exact hold.of_wire rfl id
      | true =>
          refine hold.transmit job rest closeFails (turn_sent_le hact hstage hjobs) fun hclosed => ?_
          -- bytes behind the break would be a turn that misdirects
          by_contra hn
          refine hguard.1 ?_
          simp only [Misdirects, hw]
          exact ⟨hstage, hout, hclosed, hgate, Nat.pos_of_ne_zero hn⟩
    · exact hold.of_wire hwire hclosed
  · exact ⟨[], [], rfl, by simp, .inl rfl⟩

/-- **What the client makes of the bytes is what it makes of the messages.**  In every run in which no bytes go
astray and the trick number does not overrun, whatever part of the bytes of a connection a client has read, in
whatever state it began: it is where the first messages lead it that were enqueued for the connection, taken in
order, each once; and with all the bytes these are all the messages that got through. -/
theorem followed_of_guarded {scenario : GameScenario} {timeout tcpListenSock : Int} {evs : List Event}
    {S₀ S : System} (h₀ : start scenario timeout tcpListenSock = .ok S₀) (hevs : exec step S₀ evs = some S)
    (hguard : Guarded step (fun S ev => ¬ Misdirects S ev ∧ ¬ Makes Server.Overrun S ev) S₀ evs)
    {ix : Nat} {w : IOWorker} (hw : S.threads ix = some w) {text : List Char} (htext : text <+: w.carried) :
    ∃ msgs, msgs <+: w.transmitted ∧ w.transmitted <+: S.server.history ix ∧
      (text = w.carried → msgs = w.transmitted) ∧
      ∀ (α : Type) [Player α] (c : Client α),
        (Reader.readAll ⟨c, []⟩ (bytes text)).map Reader.client = (c.follow msgs).map Prod.fst := by
  have hspoken : Spoken scenario S := guarded_invariant (I := Spoken scenario) h₀ hevs hguard (spoken_start h₀)
    fun _ _ _ _ _ ih hno hstep => ih.step hno hstep
  obtain ⟨part, hcarried, hpart, hout⟩ := (hspoken.breaksOff ix w hw).carried
  have hhistory : w.transmitted <+: S.server.history ix := by
    obtain ⟨rest, heq, -⟩ := (accounted_run (run_eq_some.mpr ⟨S₀, h₀, hevs⟩)).jobs ix w hw
    rw [heq]
    exact hout.trans (List.prefix_append _ _)
  have hread : ∀ msg ∈ w.transmitted, msg.Readable := fun msg hmsg =>
    hspoken.readable _ (Server.mem_inbox.mp (hhistory.subset hmsg))
  by_cases hall : text = w.carried
  · refine ⟨w.transmitted, List.prefix_rfl, hhistory, fun _ => rfl, fun α _ c => ?_⟩
    rw [hall, hcarried]
    exact Reader.readAll_stream c hread hpart
  · -- the client stands somewhere in the stream
    rw [hcarried] at htext
    obtain ⟨msgs, rest, rfl, hrest⟩ := stream_isPrefix htext
    have hmsgs : msgs <+: w.transmitted := by
      rcases hrest with ⟨rfl, -⟩ | ⟨msg, hnext, -⟩
      · exact List.prefix_rfl
      · exact (List.prefix_append _ _).trans hnext
    refine ⟨msgs, hmsgs, hhistory, fun heq => absurd heq hall, fun α _ c => ?_⟩
    refine Reader.readAll_stream c (fun msg hmsg => hread msg (hmsgs.subset hmsg)) ?_
    rcases hrest with ⟨-, hlast⟩ | ⟨msg, -, hlast, hne⟩
    · exact fun hmem => hpart (hlast.subset hmem)
    · exact SendJob.plain_part hlast hne

/-- Four players sit down; the `DEAL` for `N` gets through, and its `TRICK` breaks off after three bytes. -/
def breaksOff : List Event :=
  accepts [11, 12, 13, 14] ++ speaks 1 "IAMN" ++ speaks 2 "IAME" ++ speaks 3 "IAMS" ++ speaks 4 "IAMW" ++
    goes 1 5 ++ [.worker 1 (.sent 35) false, .worker 1 (.sent 3) false]

theorem followed_of_guarded_breaksOff :
    ∃ S w, exec step (started [suitRound] 5 3 suitRound) breaksOff = some S ∧ S.threads 1 = some w ∧
      w.carried.length = 38 ∧ w.transmitted = [.deal .trickPenalty .N (suitRound.deal .N)] ∧
      (Reader.readAll ⟨.new (PlayerConsole.new .N), []⟩ (bytes w.carried)).map Reader.client =
        ((Client.new (PlayerConsole.new .N)).follow w.transmitted).map Prod.fst := by
  have hfacts : (exec step (started [suitRound] 5 3 suitRound) breaksOff).bind (fun S => (S.threads 1).map fun w =>
      (w.carried.length, w.transmitted)) = some (38, [.deal .trickPenalty .N (suitRound.deal .N)]) := by
    decide +kernel
  obtain ⟨S, hS, hthread⟩ := Option.bind_eq_some_iff.mp hfacts
  obtain ⟨w, hw, heq⟩ := Option.map_eq_some_iff.mp hthread
  obtain ⟨hlen, htransmitted⟩ := Prod.mk.inj heq
  obtain ⟨msgs, -, -, hall, hread⟩ := followed_of_guarded (start_cons suitRound [] 5 3) hS (by decide +kernel) hw
    (List.prefix_rfl (l := w.carried))
  obtain rfl := hall rfl
  exact ⟨S, w, hS, hw, hlen, htransmitted, hread _ _⟩

/-- **What the server makes of the bytes is what the client said.**  In every run, let a client for `side`
have put the cards `out`, whatever it has heard and whatever the user typed, and let a part of its bytes have
come in, in portions of any size.  The calls that are granted to its worker are, in order and each once, the
first of those for its `IAM` and its cards; and with all its bytes in and no message parked these are all of
them. -/
theorem heeded {scenario : GameScenario} {timeout tcpListenSock : Int} {evs : List Event} {S₀ S : System}
    (h₀ : start scenario timeout tcpListenSock = .ok S₀) (hevs : exec step S₀ evs = some S) {ix : Nat}
    {w : IOWorker} (hw : S.threads ix = some w) (hkind : w.kind = .handler) {α : Type} [Player α] {c : Client α}
    {side : Side} {out : List (Nat × Card)} (hsaid : c.Said out)
    (hcome : Heard.received (record step (heardBy ix) S₀ evs) <+: (said side out).flatMap SendJob.genMsg) :
    record step (grantedTo ix) S₀ evs <+: .playerIntro side ix :: out.map (fun p => .playerTricked p.1 p.2 ix) ∧
      (Heard.received (record step (heardBy ix) S₀ evs) = (said side out).flatMap SendJob.genMsg →
        w.pendingIncoming = [] →
        record step (grantedTo ix) S₀ evs = .playerIntro side ix :: out.map fun p => .playerTricked p.1 p.2 ix) := by
  have hnumbers := hsaid.trickNumber.2
  -- the stream is cut into the texts that were put in, and none of them is too long
  have hcut : (cut '\r' '\n' ((said side out).flatMap SendJob.genMsg)).1 = (said side out).map SendJob.body := by
    have hplain : ∀ piece ∈ (said side out).map SendJob.body, '\r' ∉ piece := by
      intro piece hpiece hmem
      obtain ⟨job, -, rfl⟩ := List.mem_map.mp hpiece
      exact (job.plain _ hmem).1 rfl
    have hstream := cut_stream (b := '\n') hplain []
    rw [List.flatMap_map, List.append_nil] at hstream
    show (cut '\r' '\n' ((said side out).flatMap fun job => job.body ++ ['\r', '\n'])).1 = _
    rw [hstream]
    simp [cut]
  have hshort : ((said side out).map SendJob.body).takeWhile (Intake.Short ·) = (said side out).map SendJob.body :=
    List.takeWhile_eq_self_iff.mpr fun msg hmsg => decide_eq_true (short_said side hnumbers msg hmsg)
  have hrequests := requests_run h₀ hevs hw hkind
  rw [← callsFor_said ix side hnumbers]
  constructor
  · have hpieces := cut_isPrefix (a := '\r') (b := '\n') hcome
    have hprefix := callsFor_isPrefix ix (takeWhile_isPrefix (p := (Intake.Short ·)) hpieces)
    rw [← hrequests, hcut, hshort] at hprefix
    exact (List.prefix_append _ _).trans hprefix
  · intro hall hnone
    rw [hall, hcut, hshort, hnone] at hrequests
    rw [← hrequests]
    exact (List.append_nil _).symm

/-- An automatic player that has heard these two messages. -/
theorem said_putsCard : ∃ c : Client PlayerAuto, c.Said [(1, ⟨.A, .colorC⟩)] := by
  obtain ⟨c, hc⟩ : ∃ c, (Client.new PlayerAuto.new).recv (.deal .trickPenalty .N (suitRound.deal .N)) =
      .ok (c, []) ∧ ∃ c', c.recv (.trick [] 1) = .ok (c', [(1, ⟨.A, .colorC⟩)]) := ⟨_, rfl, _, rfl⟩
  obtain ⟨hdeal, c', htrick⟩ := hc
  exact ⟨c', ((Client.Said.start _).recv _ hdeal).recv _ htrick⟩

theorem heeded_putsCard :
    ∃ (S : System) (w : IOWorker) (c : Client PlayerAuto),
      exec step (started [suitRound] 5 3 suitRound) putsCard = some S ∧ S.threads 1 = some w ∧
      c.Said [(1, ⟨.A, .colorC⟩)] ∧
      record step (grantedTo 1) (started [suitRound] 5 3 suitRound) putsCard =
        [.playerIntro .N 1, .playerTricked 1 ⟨.A, .colorC⟩ 1] := by
  have hfacts : (exec step (started [suitRound] 5 3 suitRound) putsCard).bind (fun S => (S.threads 1).map fun w =>
      (w.kind, w.pendingIncoming)) = some (.handler, []) := by
    decide +kernel
  have hcome : Heard.received (record step (heardBy 1) (started [suitRound] 5 3 suitRound) putsCard) =
      (said .N [(1, ⟨.A, .colorC⟩)]).flatMap SendJob.genMsg := by
    decide +kernel
  obtain ⟨S, hS, hthread⟩ := Option.bind_eq_some_iff.mp hfacts
  obtain ⟨w, hw, heq⟩ := Option.map_eq_some_iff.mp hthread
  obtain ⟨hkind, hnone⟩ := Prod.mk.inj heq
  obtain ⟨c, hsaid⟩ := said_putsCard
  refine ⟨S, w, c, hS, hw, hsaid, ?_⟩
  exact (heeded (start_cons suitRound [] 5 3) hS hw hkind hsaid (by rw [hcome])).2 hcome hnone

end System

end Kierki
