import Kierki.Client.Dispatch

/-!
# The event loop of the client

The loop of `Client::run`.  An iteration looks at what `poll` has found on both descriptors, and serves
`stdin` if that is readable, the socket otherwise.  `Served` says that an iteration that finds the socket
readable leaves nothing on it and has dispatched all complete messages, and `served_iff` when it does.  A
`stdin` at its end is readable in every iteration, and then the socket is never read (`starved`).
-/

namespace Kierki

open Execution

/-- The client in its loop, with what has come in on the socket and was not read.  `dispatched` is history:
the messages the client has come to, oldest first. -/
structure EventLoop (α : Type) where
  reader : Reader α
  nextCmd : List Char
  tcpSock : List Char
  dispatched : List (List Char)

/-- What an iteration meets: the bytes that come in on the socket before `poll` returns, whether `poll` marks
the socket, whether the server has closed the connection behind these bytes, and, if `poll` marks `stdin`,
the bytes that can be read there. -/
structure Polled where
  arrived : List Char
  tcp : Bool
  ended : Bool
  stdin : Option (List Char)

/-- The lines that a text completes, each with its newline, when a line has begun before; and the line that
has begun behind it. -/
def completed : List Char → List Char → List (List Char) × List Char
  | begun, [] => ([], begun)
  | begun, c :: text =>
      if c = '\n' then ((begun ++ [c]) :: (completed [] text).1, (completed [] text).2)
      else completed (begun ++ [c]) text

namespace EventLoop

variable {α : Type} [Player α]

/-- The loop before its first iteration. -/
def new (player : α) : EventLoop α := ⟨⟨.new player, []⟩, [], [], []⟩

/-- A character from `stdin`. -/
def keystroke (s : EventLoop α) (c : Char) : Except ClientFault (EventLoop α) :=
  if c = '\n' then do
    let (client, _) ← s.reader.client.command true s.nextCmd
    return { s with reader := { s.reader with client := client }, nextCmd := [] }
  else .ok { s with nextCmd := s.nextCmd ++ [c] }

/-- The loop when a byte has gone through the reader. -/
def heard (s : EventLoop α) (c : Char) (reader : Reader α) : EventLoop α :=
  { s with
    reader := reader
    dispatched := if c = '\n' then s.dispatched ++ [Reader.line (s.reader.nextMsg ++ [c])]
      else s.dispatched }

/-- The loop around `recv`, over the bytes on the socket; a `BUSY` leaves it. -/
def recvAll (s : EventLoop α) : List Char → Except ClientFault (EventLoop α)
  | [] => .ok { s with tcpSock := [] }
  | c :: rest => do
      let reader ← s.reader.read c true
      if reader.client.terminate then return { s.heard c reader with tcpSock := rest }
      else (s.heard c reader).recvAll rest

/-- What follows when `recv` has returned zero. -/
def hangUp (s : EventLoop α) : EventLoop α :=
  { s with reader := { s.reader with client := { s.reader.client with
    exitFlag := if s.reader.client.stage = .afterTotal then 0 else 1
    terminate := true } } }

/-- An iteration. -/
def turn (s : EventLoop α) (p : Polled) : Except ClientFault (EventLoop α) :=
  let s := { s with tcpSock := s.tcpSock ++ p.arrived }
  match p.stdin with
  | some typed => typed.foldlM keystroke s
  | none =>
      if p.tcp then do
        let s ← s.recvAll s.tcpSock
        return if p.ended && !s.reader.client.terminate then s.hangUp else s
      else .ok s

/-- The test of the loop, and an iteration. -/
def step (s : EventLoop α) (p : Polled) : Option (EventLoop α) :=
  if s.reader.client.terminate then none
  else
    match s.turn p with
    | .ok s' => some s'
    | .error _ => none

/-- **An iteration that finds the socket readable** ends with nothing left on the socket, and every complete
message among the bytes that were there is dispatched. -/
def Served (s : EventLoop α) (p : Polled) : Prop :=
  s.reader.client.terminate = false → p.tcp = true → ∃ s', s.turn p = .ok s' ∧ s'.tcpSock = [] ∧
    s'.dispatched = s.dispatched ++
      ((completed s.reader.nextMsg (s.tcpSock ++ p.arrived)).1.map Reader.line)

/-- The text of a `BUSY`. -/
def IsBusy (msg : List Char) : Prop :=
  ∃ taken, (SendJob.busy taken).Readable ∧ (SendJob.busy taken).body = msg

/-- No message but one that ends with the last of the bytes is a `BUSY`. -/
def BusyLast (begun avail : List Char) : Prop :=
  ∀ pre post, avail = pre ++ post → post ≠ [] → ∀ l ∈ (completed begun pre).1, ¬ IsBusy (Reader.line l)

end EventLoop

/-- A player with the commands that do not end it. -/
class HeedfulPlayer (α : Type) [Player α] where
  Heeds : List Char → Prop
  anyCmd (p : α) (asked : Bool) (cmd : List Char) :
    (∃ res, Player.anyCmd p asked cmd = .ok res) ↔ Heeds cmd

instance : HeedfulPlayer PlayerConsole where
  Heeds := fun cmd => cmd ≠ []
  anyCmd p asked cmd := by
    show (∃ res, p.anyCmd asked cmd = .ok res) ↔ cmd ≠ []
    rcases p.anyCmd_cases asked cmd with ⟨rfl, heq⟩ | ⟨card, hnames, hasked, heq⟩ | ⟨hne, -, heq⟩
    · rw [heq]
      exact iff_of_false (by simp) (by simp)
    · obtain ⟨text, rfl, -⟩ := hnames
      rw [heq]
      exact iff_of_true ⟨_, rfl⟩ (by simp)
    · rw [heq]
      exact iff_of_true ⟨_, rfl⟩ hne

instance : HeedfulPlayer PlayerAuto where
  Heeds := fun _ => True
  anyCmd _ _ _ := iff_of_true ⟨_, rfl⟩ trivial

section Reading

variable {α : Type} [Player α]

/-- Only a `BUSY` ends the loop. -/
theorem Client.take_terminate {c c' : Client α} {sent : Bool} {job : SendJob} {out : List (Nat × Card)}
    (h : c.take sent job = .ok (c', out)) :
    c'.terminate = true ↔ c.terminate = true ∨ job.kind = .busy := by
  have hother (hkind : job.kind ≠ .busy) (hsame : c'.terminate = c.terminate) :
      c'.terminate = true ↔ c.terminate = true ∨ job.kind = .busy := by
    rw [hsame, or_iff_left hkind]
  cases job with
  | busy taken =>
      cases h
      exact iff_of_true rfl (.inr rfl)
  | trick t n =>
      obtain ⟨⟨player, put⟩, -, h⟩ := Fallible.bind_eq_ok.mp h
      refine hother (by rintro ⟨⟩) ?_
      cases put with
      | none =>
          cases h
          rfl
      | some card =>
          simp only [Client.chooseCard, if_true] at h
          split at h
          · cases h
            rfl
          · cases h
  | score res | total res =>
      obtain ⟨player, -, h⟩ := Fallible.bind_eq_ok.mp h
      cases h
      exact hother (by rintro ⟨⟩) rfl
  | deal | taken | wrong | intro =>
      cases h
      exact hother (by rintro ⟨⟩) rfl

variable [WaryPlayer α]

/-- What the player is ready for is taken, if an answer can be sent. -/
theorem Client.take_ok {c : Client α} {job : SendJob} (h : WaryPlayer.Ready c.player job) :
    ∃ res, c.take true job = .ok res := by
  have hchoose (c : Client α) (put : Option Card) : ∃ res, c.chooseCard true put = .ok res := by
    cases put with
    | none => exact ⟨_, rfl⟩
    | some card =>
        simp only [Client.chooseCard, if_true]
        split <;> exact ⟨_, rfl⟩
  cases job with
  | trick t n =>
      rcases WaryPlayer.trickMsg c.player n t with ⟨-, ⟨player, put⟩, hok⟩ | ⟨hnot, -⟩
      · rw [Client.take, hok]
        exact hchoose _ put
      · exact absurd h hnot
  | score res =>
      rcases WaryPlayer.scoreMsg c.player res false _ rfl with ⟨-, player, hok⟩ | ⟨hnot, -⟩
      · rw [Client.take, hok]
        exact ⟨_, rfl⟩
      · exact absurd h hnot
  | total res =>
      rcases WaryPlayer.scoreMsg c.player res true _ rfl with ⟨-, player, hok⟩ | ⟨hnot, -⟩
      · rw [Client.take, hok]
        exact ⟨_, rfl⟩
      · exact absurd h hnot
  | busy | deal | taken | wrong | intro => exact ⟨_, rfl⟩

theorem Reader.read_ok_iff (r : Reader α) (c : Char) : (∃ r', r.read c true = .ok r') ↔ r.Fit c := by
  refine ⟨fun ⟨r', hok⟩ => ?_, fun hfit => ?_⟩
  · rw [← Reader.read_survives_iff r c true, hok]
    exact survives_ok r'
  · unfold Reader.read
    by_cases hc : c = '\n'
    swap
    · exact ⟨_, if_neg hc⟩
    obtain ⟨job, hread, hbody, hready⟩ := hfit hc
    rcases r.client.dispatch_cases true (line (r.nextMsg ++ [c])) with ⟨job', hread', hbody', heq⟩ | ⟨hnone, -⟩
    · obtain rfl : job' = job := hread'.body_injective hread (hbody'.trans hbody.symm)
      obtain ⟨⟨client, out⟩, hok⟩ := Client.take_ok hready
      simp only [if_pos hc, heq, hok]
      exact ⟨_, rfl⟩
    · exact absurd hbody (hnone job hread)

omit [WaryPlayer α] in
/-- **A character**: what it leaves of the line, and that it ends the loop only with a `BUSY`. -/
theorem Reader.read_spec {r r' : Reader α} {c : Char} (h : r.read c true = .ok r') :
    r'.nextMsg = (if c = '\n' then [] else r.nextMsg ++ [c]) ∧
      (r'.client.terminate = true ↔ r.client.terminate = true ∨
        c = '\n' ∧ EventLoop.IsBusy (line (r.nextMsg ++ [c]))) := by
  unfold Reader.read at h
  by_cases hc : c = '\n'
  swap
  · rw [if_neg hc] at h
    cases h
    exact ⟨(if_neg hc).symm, (or_iff_left fun hbusy => hc hbusy.1).symm⟩
  rw [if_pos hc] at h
  obtain ⟨⟨client, out⟩, hdispatch, h⟩ := Fallible.bind_eq_ok.mp h
  cases h
  refine ⟨(if_pos hc).symm, ?_⟩
  rcases r.client.dispatch_cases true (line (r.nextMsg ++ [c])) with ⟨job, hread, hbody, heq⟩ | ⟨-, heq⟩
  · rw [heq] at hdispatch
    have hbusy : EventLoop.IsBusy (line (r.nextMsg ++ [c])) ↔ job.kind = .busy := by
      refine ⟨fun ⟨taken, hbread, hbbody⟩ => ?_, fun hkind => ?_⟩
      · obtain rfl : SendJob.busy taken = job := hbread.body_injective hread (hbbody.trans hbody.symm)
        rfl
      · cases job with
        | busy taken => exact ⟨taken, hread, hbody⟩
        | deal | trick | taken | score | total | wrong | intro => cases hkind
    rw [and_iff_right hc, hbusy]
    exact Client.take_terminate hdispatch
  · rw [heq] at hdispatch
    cases hdispatch

end Reading

namespace EventLoop

theorem completed_cons (begun : List Char) (c : Char) (text : List Char) :
    completed begun (c :: text) =
      ((if c = '\n' then [begun ++ [c]] else []) ++ (completed (if c = '\n' then [] else begun ++ [c]) text).1,
        (completed (if c = '\n' then [] else begun ++ [c]) text).2) := by
  rw [completed]
  split <;> rfl

theorem busyLast_cons {begun : List Char} {c : Char} {rest : List Char} :
    BusyLast begun (c :: rest) ↔
      (c = '\n' ∧ IsBusy (Reader.line (begun ++ [c])) → rest = []) ∧
        BusyLast (if c = '\n' then [] else begun ++ [c]) rest := by
  constructor
  · intro h
    refine ⟨fun ⟨hc, hbusy⟩ => ?_, fun pre post hrest hpost l hl => ?_⟩
    · by_contra hrest
      refine h [c] rest rfl hrest (begun ++ [c]) ?_ hbusy
      rw [completed_cons, if_pos hc]
      exact List.mem_append_left _ (List.mem_singleton_self _)
    · refine h (c :: pre) post (by rw [hrest, List.cons_append]) hpost l ?_
      rw [completed_cons]
      exact List.mem_append_right _ hl
  · rintro ⟨hhead, htail⟩ pre post havail hpost l hl
    cases pre with
    | nil => cases hl
    | cons d pre =>
        obtain ⟨rfl, hrest⟩ := List.cons.inj havail
        rw [completed_cons] at hl
        rcases List.mem_append.mp hl with hl | hl
        · -- the line that this byte completes, with bytes behind it
          intro hbusy
          split at hl
          · rename_i hc
            rw [List.mem_singleton.mp hl] at hbusy
            have hnil : rest = [] := hhead ⟨hc, hbusy⟩
            rw [hnil] at hrest
            exact hpost (List.append_eq_nil_iff.mp hrest.symm).2
          · cases hl
        · exact htail pre post hrest hpost l hl

section Loop

variable {α : Type} [Player α] [WaryPlayer α]

/-- **The loop around `recv`** reads all that is there and dispatches every message if and only if the
client can handle all of them, and none but the last is a `BUSY` with nothing behind it. -/
theorem recvAll_iff (s : EventLoop α) (text : List Char) (hgo : s.reader.client.terminate = false) :
    (∃ s', s.recvAll text = .ok s' ∧ s'.tcpSock = [] ∧
      s'.dispatched = s.dispatched ++ (completed s.reader.nextMsg text).1.map Reader.line) ↔
      s.reader.Tame (bytes text) ∧ BusyLast s.reader.nextMsg text := by
  induction text generalizing s with
  | nil =>
      refine iff_of_true ⟨_, rfl, rfl, (List.append_nil _).symm⟩ ⟨trivial, ?_⟩
      intro pre post hnil hpost
      exact absurd (List.append_eq_nil_iff.mp hnil.symm).2 hpost
  | cons c rest ih =>
      have htame : s.reader.Tame (bytes (c :: rest)) ↔ s.reader.Fit c ∧
          ∀ r', s.reader.read c true = .ok r' → r'.Tame (bytes rest) :=
        or_iff_right (by rw [hgo]; decide)
      rw [htame, busyLast_cons, completed_cons]
      by_cases hfit : s.reader.Fit c
      swap
      · refine iff_of_false ?_ fun h => hfit h.1.1
        rintro ⟨s', hok, -⟩
        obtain ⟨r', hread, -⟩ := Fallible.bind_eq_ok.mp hok
        exact hfit ((s.reader.read_ok_iff c).mp ⟨r', hread⟩)
      obtain ⟨r', hread⟩ := (s.reader.read_ok_iff c).mpr hfit
      obtain ⟨hnext, hend⟩ := Reader.read_spec hread
      rw [hgo] at hend
      have hthe : (∀ r'', s.reader.read c true = .ok r'' → r''.Tame (bytes rest)) ↔ r'.Tame (bytes rest) := by
        refine ⟨fun h => h r' hread, fun h r'' hread'' => ?_⟩
        obtain rfl : r' = r'' := Except.ok.inj (hread.symm.trans hread'')
        exact h
      rw [and_iff_right hfit, hthe, recvAll, hread, Fallible.ok_bind]
      have hdispatched (ls : List (List Char)) :
          s.dispatched ++ ((if c = '\n' then [s.reader.nextMsg ++ [c]] else []) ++ ls).map Reader.line =
            (s.heard c r').dispatched ++ ls.map Reader.line := by
        unfold heard
        split <;> simp
      rw [hdispatched, ← hnext]
      cases hterm : r'.client.terminate with
      | true =>
          -- a `BUSY`; whatever is behind it stays on the socket
          obtain hbusy : c = '\n' ∧ IsBusy (Reader.line (s.reader.nextMsg ++ [c])) := by
            simpa using hend.mp hterm
          have hdone : r'.Tame (bytes rest) := by
            cases rest with
            | nil => trivial
            | cons d rest => exact .inl hterm
          rw [if_pos rfl, and_iff_right hdone]
          constructor
          · rintro ⟨s', hok, hempty, -⟩
            cases hok
            refine ⟨fun _ => hempty, ?_⟩
            intro pre post hrest hpost
            change rest = [] at hempty
            rw [hempty] at hrest
            exact absurd (List.append_eq_nil_iff.mp hrest.symm).2 hpost
          · rintro ⟨hlast, -⟩
            obtain rfl := hlast hbusy
            exact ⟨_, rfl, rfl, (List.append_nil _).symm⟩
      | false =>
          have hquiet : ¬ (c = '\n' ∧ IsBusy (Reader.line (s.reader.nextMsg ++ [c]))) := by
            intro hbusy
            rw [hend.mpr (.inr hbusy)] at hterm
            cases hterm
          rw [if_neg (by decide), and_iff_right (fun hbusy => absurd hbusy hquiet)]
          exact ih (s.heard c r') hterm

end Loop

section Typing

variable {α : Type} [Player α]

/-- A character from `stdin` leaves alone what comes from the server. -/
theorem keystroke_frame {s s' : EventLoop α} {c : Char} (h : s.keystroke c = .ok s') :
    s'.tcpSock = s.tcpSock ∧ s'.dispatched = s.dispatched ∧
      s'.nextCmd = (if c = '\n' then [] else s.nextCmd ++ [c]) := by
  unfold keystroke at h
  split at h
  · rename_i hc
    obtain ⟨⟨client, out⟩, -, h⟩ := Fallible.bind_eq_ok.mp h
    cases h
    exact ⟨rfl, rfl, (if_pos hc).symm⟩
  · rename_i hc
    cases h
    exact ⟨rfl, rfl, (if_neg hc).symm⟩

theorem typed_frame {s s' : EventLoop α} {typed : List Char} (h : typed.foldlM keystroke s = .ok s') :
    s'.tcpSock = s.tcpSock ∧ s'.dispatched = s.dispatched := by
  induction typed generalizing s with
  | nil =>
      cases h
      exact ⟨rfl, rfl⟩
  | cons c typed ih =>
      rw [List.foldlM_cons] at h
      obtain ⟨s₁, hkey, h⟩ := Fallible.bind_eq_ok.mp h
      obtain ⟨hsock, hdispatched, -⟩ := keystroke_frame hkey
      obtain ⟨hsock', hdispatched'⟩ := ih h
      exact ⟨hsock'.trans hsock, hdispatched'.trans hdispatched⟩

variable [HeedfulPlayer α]

/-- A command goes through if the player heeds it. -/
theorem command_ok_iff (c : Client α) (cmd : List Char) :
    (∃ res, c.command true cmd = .ok res) ↔ HeedfulPlayer.Heeds α cmd := by
  rw [← HeedfulPlayer.anyCmd c.player c.waitingForCard cmd]
  constructor
  · rintro ⟨res, hok⟩
    obtain ⟨res', hany, -⟩ := Fallible.bind_eq_ok.mp hok
    exact ⟨res', hany⟩
  · rintro ⟨⟨player, put⟩, hany⟩
    rw [Client.command, hany, Fallible.ok_bind]
    dsimp only
    split <;> exact ⟨_, rfl⟩

theorem keystroke_ok_iff (s : EventLoop α) (c : Char) :
    (∃ s', s.keystroke c = .ok s') ↔ (c = '\n' → HeedfulPlayer.Heeds α s.nextCmd) := by
  by_cases hc : c = '\n'
  · rw [forall_prop_of_true hc, ← command_ok_iff s.reader.client, keystroke, if_pos hc]
    constructor
    · rintro ⟨s', hok⟩
      obtain ⟨res, hcmd, -⟩ := Fallible.bind_eq_ok.mp hok
      exact ⟨res, hcmd⟩
    · rintro ⟨res, hcmd⟩
      rw [hcmd]
      exact ⟨_, rfl⟩
  · rw [keystroke, if_neg hc]
    exact iff_of_true ⟨_, rfl⟩ fun h => absurd h hc

/-- **The loop around `read`** goes through all that is typed if the player heeds every line. -/
theorem typed_ok_iff (s : EventLoop α) (typed : List Char) :
    (∃ s', typed.foldlM keystroke s = .ok s') ↔
      ∀ l ∈ (completed s.nextCmd typed).1, HeedfulPlayer.Heeds α l.dropLast := by
  induction typed generalizing s with
  | nil => exact iff_of_true ⟨_, rfl⟩ (by simp [completed])
  | cons c typed ih =>
      have hhead : (∀ l ∈ (if c = '\n' then [s.nextCmd ++ [c]] else []), HeedfulPlayer.Heeds α l.dropLast) ↔
          (c = '\n' → HeedfulPlayer.Heeds α s.nextCmd) := by
        by_cases hc : c = '\n' <;> simp [hc]
      rw [completed_cons, List.forall_mem_append, hhead, ← keystroke_ok_iff, List.foldlM_cons]
      constructor
      · rintro ⟨s', hok⟩
        obtain ⟨s₁, hkey, hok⟩ := Fallible.bind_eq_ok.mp hok
        refine ⟨⟨s₁, hkey⟩, ?_⟩
        rw [← (keystroke_frame hkey).2.2]
        exact (ih s₁).mp ⟨s', hok⟩
      · rintro ⟨⟨s₁, hkey⟩, htail⟩
        rw [← (keystroke_frame hkey).2.2] at htail
        obtain ⟨s', hok⟩ := (ih s₁).mpr htail
        rw [hkey]
        exact ⟨s', hok⟩

end Typing

section Serving

variable {α : Type} [Player α] [WaryPlayer α] [HeedfulPlayer α]

/-- When an iteration attends to the socket.  If `stdin` is not marked, the client can handle every message
that is there, and only the last bytes may be a `BUSY`.  If `stdin` is marked, nothing is there to be
read, and no line that is typed ends the client. -/
def Attends (s : EventLoop α) (p : Polled) : Prop :=
  s.reader.client.terminate = false → p.tcp = true →
    match p.stdin with
    | none => s.reader.Tame (bytes (s.tcpSock ++ p.arrived)) ∧
        BusyLast s.reader.nextMsg (s.tcpSock ++ p.arrived)
    | some typed => s.tcpSock ++ p.arrived = [] ∧
        ∀ l ∈ (completed s.nextCmd typed).1, HeedfulPlayer.Heeds α l.dropLast

theorem served_iff_attends (s : EventLoop α) (p : Polled) : s.Served p ↔ s.Attends p := by
  unfold Served Attends
  refine forall_congr' fun hgo => forall_congr' fun htcp => ?_
  obtain ⟨arrived, tcp, ended, stdin⟩ := p
  obtain rfl : tcp = true := htcp
  cases stdin with
  | none =>
      -- the socket is read to its end; hanging up afterwards changes neither side
      refine Iff.trans ?_ (recvAll_iff { s with tcpSock := s.tcpSock ++ arrived } (s.tcpSock ++ arrived) hgo)
      constructor
      · rintro ⟨s', hok, hempty, hdispatched⟩
        obtain ⟨s₁, hrecv, hlast⟩ := Fallible.bind_eq_ok.mp hok
        refine ⟨s₁, hrecv, ?_⟩
        split at hlast <;> cases hlast <;> exact ⟨hempty, hdispatched⟩
      · rintro ⟨s₁, hrecv, hempty, hdispatched⟩
        refine ⟨if ended && !s₁.reader.client.terminate then s₁.hangUp else s₁, ?_, ?_⟩
        · show (do
            let s ← EventLoop.recvAll _ _
            return if ended && !s.reader.client.terminate then s.hangUp else s) = _
          rw [hrecv]
          rfl
        · split <;> exact ⟨hempty, hdispatched⟩
  | some typed =>
      -- a line of the console comes first, and leaves the socket as it was
      have htyped := typed_ok_iff { s with tcpSock := s.tcpSock ++ arrived } typed
      constructor
      · rintro ⟨s', hok, hempty, -⟩
        obtain ⟨hsock, -⟩ := typed_frame hok
        exact ⟨hsock.symm.trans hempty, htyped.mp ⟨s', hok⟩⟩
      · rintro ⟨hnone, hheeds⟩
        obtain ⟨s', hok⟩ := htyped.mpr hheeds
        obtain ⟨hsock, hdispatched⟩ := typed_frame hok
        refine ⟨s', hok, hsock.trans hnone, ?_⟩
        show s'.dispatched = s.dispatched ++ (completed s.reader.nextMsg (s.tcpSock ++ arrived)).1.map Reader.line
        rw [hnone, hdispatched]
        exact (List.append_nil _).symm

omit [HeedfulPlayer α] [WaryPlayer α] in
/-- **Starvation**: while `stdin` is at its end, nothing is read from the socket, and the loop goes on. -/
theorem starved {s : EventLoop α} (hgo : s.reader.client.terminate = false) (ps : List Polled)
    (hstdin : ∀ p ∈ ps, p.stdin = some []) :
    exec step s ps = some { s with tcpSock := s.tcpSock ++ ps.flatMap Polled.arrived } := by
  induction ps generalizing s with
  | nil => simp
  | cons p ps ih =>
      have hturn : s.turn p = .ok { s with tcpSock := s.tcpSock ++ p.arrived } := by
        unfold turn
        rw [hstdin p (List.mem_cons_self ..)]
        rfl
      have hstep : step s p = some { s with tcpSock := s.tcpSock ++ p.arrived } := by
        rw [step, if_neg (by rw [hgo]; decide), hturn]
      have hrest := ih (s := { s with tcpSock := s.tcpSock ++ p.arrived }) hgo
        fun q hq => hstdin q (List.mem_cons_of_mem p hq)
      rw [exec, hstep, Option.bind_some, hrest, List.flatMap_cons, List.append_assoc]

end Serving

/-- **When the server is not starved**: in every run of either client, all iterations serve the socket if
and only if all of them attend to it. -/
theorem served_iff (ps : List Polled) :
    (∀ side, Guarded step Served (new (PlayerConsole.new side)) ps ↔
      Guarded step Attends (new (PlayerConsole.new side)) ps) ∧
    (Guarded step Served (new PlayerAuto.new) ps ↔ Guarded step Attends (new PlayerAuto.new) ps) := by
  have hsame {α : Type} [Player α] [WaryPlayer α] [HeedfulPlayer α] :
      (Served : EventLoop α → Polled → Prop) = Attends := by
    ext s p
    exact served_iff_attends s p
  rw [hsame, hsame]
  exact ⟨fun _ => Iff.rfl, Iff.rfl⟩

/-- The server refuses the client and closes the connection, and `stdin` is at its end. -/
def refused : Polled := ⟨(SendJob.busy [.N]).genMsg, true, true, some []⟩

/-- With its `stdin` at the end, the client never comes to the `BUSY` that has arrived, in any number of
iterations. -/
theorem not_served_stdinAtEnd :
    ¬ Guarded step Served (new (PlayerConsole.new .N)) [refused] ∧
      ∀ n, exec step (new (PlayerConsole.new .N)) (refused :: List.replicate n { refused with arrived := [] }) =
        some { new (PlayerConsole.new .N) with tcpSock := (SendJob.busy [.N]).genMsg } := by
  refine ⟨?_, fun n => ?_⟩
  · rintro ⟨hserved, -⟩
    obtain ⟨s', hok, hempty, -⟩ := hserved rfl rfl
    cases hok
    cases hempty
  · rw [starved rfl _ (by simp [refused])]
    simp [refused, new]

end EventLoop

end Kierki
