import Kierki.Client.Client
import Kierki.Server.IOWorker

/-!
# What the client makes of the bytes it receives

The part of `Client::run` from `recv` to the callbacks of the player, character by character: `nextMsg` is
cut at every newline, parsed, and the fields of the parse result are read at fixed positions.  On the
text of a message that the client can read, `dispatch` is `Client.take` of the message (`dispatch_body`);
every other line makes it look at `msgArray[0]` of an empty parse result.
-/

namespace Kierki

open Fallible NetworkMsgParser

namespace Client

/-- `msgArray[i].second`. -/
def field (msgArray : ParseResp) (i : Nat) : Except ClientFault (List Char) :=
  require .noField (msgArray[i]?.map Prod.snd)

/-- `msgArray[i].second.at(0)`. -/
def first (msgArray : ParseResp) (i : Nat) : Except ClientFault Char := do
  require .emptyField (← field msgArray i).head?

/-- `static_cast<Side>(msgArray[i].second.at(0))`. -/
def sideAt (msgArray : ParseResp) (i : Nat) : Except ClientFault Side := do
  require .badField (Side.ofChar (← first msgArray i))

/-- `Card::fromString(msgArray[i].second)`. -/
def cardAt (msgArray : ParseResp) (i : Nat) : Except ClientFault Card := do
  require .badField (Card.fromString (← field msgArray i))

/-- The loops over fields: `n` of them from index `i` on. -/
def fieldsFrom {β : Type} (f : Nat → Except ClientFault β) : Nat → Nat → Except ClientFault (List β)
  | _, 0 => .ok []
  | i, n + 1 => do
      let b ← f i
      return b :: (← fieldsFrom f (i + 1) n)

/-- One entry of the score map: the fields `2 * i - 1` and `2 * i`. -/
def scoreAt (msgArray : ParseResp) (i : Nat) : Except ClientFault (Side × Nat) := do
  let s ← sideAt msgArray (2 * i - 1)
  return (s, atoi (← field msgArray (2 * i)))

/-- The message that the branches of `Client::run` read off the parse result; none if its type is not
one of theirs. -/
def readFields (msgArray : ParseResp) : Except ClientFault (Option SendJob) := do
  let type ← field msgArray 0
  if type = MsgKind.typeName .deal then
    let mode ← require .badField (RoundType.ofDigit (← first msgArray 1))
    let hand ← fieldsFrom (cardAt msgArray) 3 13
    return some (.deal mode (← sideAt msgArray 2) hand)
  else if type = MsgKind.typeName .trickS then
    let trickNo := atoi (← field msgArray 1)
    return some (.trick (← fieldsFrom (cardAt msgArray) 2 (msgArray.length - 2)) trickNo)
  else if type = MsgKind.typeName .taken then
    let trickNo := atoi (← field msgArray 1)
    let s ← sideAt msgArray (msgArray.length - 1)
    return some (.taken (← fieldsFrom (cardAt msgArray) 2 4) s trickNo)
  else if type = MsgKind.typeName .score ∨ type = MsgKind.typeName .total then
    let res ← fieldsFrom (scoreAt msgArray) 1 4
    return some (if type = MsgKind.typeName .total then .total res else .score res)
  else if type = MsgKind.typeName .wrong then
    return some (.wrong (atoi (← field msgArray 1)))
  else if type = MsgKind.typeName .busy then
    return some (.busy (← fieldsFrom (sideAt msgArray) 1 (msgArray.length - 1)))
  else return none

variable {α : Type} [Player α]

/-- A line of the server. -/
def dispatch (c : Client α) (sent : Bool) (msg : List Char) :
    Except ClientFault (Client α × List (Nat × Card)) :=
  match parseNetMsg msg false with
  | .error _ => .error .scan
  | .ok msgArray => do
      match ← readFields msgArray with
      | none => return (c, [])
      | some job => c.take sent job

section Reading

theorem fieldsFrom_eq {β : Type} {f : Nat → Except ClientFault β} (bs : List β) {i : Nat}
    (h : ∀ k (hk : k < bs.length), f (i + k) = .ok (bs.get ⟨k, hk⟩)) :
    fieldsFrom f i bs.length = .ok bs := by
  induction bs generalizing i with
  | nil => rfl
  | cons b bs ih =>
      have hhead : f i = .ok b := h 0 (Nat.succ_pos _)
      have hrest : fieldsFrom f (i + 1) bs.length = .ok bs := by
        refine ih fun k hk => ?_
        have hnext := h (k + 1) (Nat.succ_lt_succ hk)
        rwa [show i + (k + 1) = i + 1 + k by omega] at hnext
      rw [List.length_cons, fieldsFrom, hhead, ok_bind, hrest]
      rfl

variable {m : ParseResp} {i : Nat} {t : String}

theorem field_eq {text : List Char} (h : m[i]? = some (t, text)) : field m i = .ok text := by
  rw [field, h]
  rfl

theorem sideAt_eq {s : Side} (h : m[i]? = some (t, [s.char])) : sideAt m i = .ok s := by
  rw [sideAt, first, field_eq h]
  cases s <;> rfl

theorem cardAt_eq {c : Card} (h : m[i]? = some (t, c.toString)) : cardAt m i = .ok c := by
  rw [cardAt, field_eq h, ok_bind, Card.fromString_toString]
  rfl

/-- The cards that stand one after the other in the parse result. -/
theorem cards_eq {u w : ParseResp} (cards : List Card) (h : m = u ++ (cardFields cards ++ w))
    (hi : i = u.length) : fieldsFrom (cardAt m) i cards.length = .ok cards := by
  refine fieldsFrom_eq cards fun k hk => cardAt_eq (t := "card") ?_
  subst h hi
  have hk' : k < (cardFields cards).length := by simpa [cardFields] using hk
  rw [List.getElem?_append_right (Nat.le_add_right _ _), Nat.add_sub_cancel_left,
    List.getElem?_append_left hk']
  simp [cardFields, hk]

/-- The entries of a score map. -/
theorem scores_eq {u : ParseResp} (scores : List (Side × Nat)) (h : m = u ++ scoreEntries scores)
    (hi : u.length + 1 = 2 * i) : fieldsFrom (scoreAt m) i scores.length = .ok scores := by
  induction scores generalizing i u with
  | nil => rfl
  | cons p scores ih =>
      obtain ⟨s, n⟩ := p
      have hside : m[2 * i - 1]? = some ("side", [s.char]) := by
        rw [h, ← hi, Nat.add_sub_cancel]
        simp [scoreEntries]
      have hscore : m[2 * i]? = some ("score", toStringNat n) := by
        rw [h, ← hi]
        simp [scoreEntries]
      have hentry : scoreAt m i = .ok (s, n) := by
        rw [scoreAt, sideAt_eq hside, ok_bind, field_eq hscore, ok_bind, atoi_toStringNat]
        rfl
      have hrest := ih (i := i + 1) (u := u ++ [("side", [s.char]), ("score", toStringNat n)])
        (by simp [h, scoreEntries]) (by simp; omega)
      rw [List.length_cons, fieldsFrom, hentry, ok_bind, hrest]
      rfl

theorem readFields_deal (mode : RoundType) (s : Side) {cards : List Card} (hlen : cards.length = 13) :
    readFields (("type", MsgKind.typeName .deal) :: ("round_mode", toStringNat mode.number) ::
      ("side", [s.char]) :: cardFields cards) = .ok (some (.deal mode s cards)) := by
  generalize hm : ("type", MsgKind.typeName .deal) :: ("round_mode", toStringNat mode.number) ::
    ("side", [s.char]) :: cardFields cards = m
  obtain ⟨c, hc, hmode⟩ := digit_toStringNat mode
  have hdigit : first m 1 = .ok c := by
    rw [first, field_eq (t := "round_mode") (by rw [← hm, hc]; rfl)]
    rfl
  have hhand : fieldsFrom (cardAt m) 3 13 = .ok cards := by
    rw [← hlen]
    exact cards_eq (u := m.take 3) (w := []) cards (by simp [← hm]) (by simp [← hm])
  have hside : sideAt m 2 = .ok s := sideAt_eq (t := "side") (by rw [← hm]; rfl)
  rw [readFields, field_eq (t := "type") (by rw [← hm]; rfl), ok_bind, if_pos rfl, hdigit, ok_bind, hmode,
    require, ok_bind, hhand, ok_bind, hside]
  rfl

theorem readFields_trick (table : List Card) (n : Nat) :
    readFields (("type", MsgKind.typeName .trickS) :: ("rn", toStringNat n) :: cardFields table) =
      .ok (some (.trick table n)) := by
  generalize hm : ("type", MsgKind.typeName .trickS) :: ("rn", toStringNat n) :: cardFields table = m
  have htable : fieldsFrom (cardAt m) 2 (m.length - 2) = .ok table := by
    have hlen : m.length - 2 = table.length := by simp [← hm, cardFields]
    rw [hlen]
    exact cards_eq (u := m.take 2) (w := []) table (by simp [← hm]) (by simp [← hm])
  have hnumber : field m 1 = .ok (toStringNat n) := field_eq (t := "rn") (by rw [← hm]; rfl)
  rw [readFields, field_eq (t := "type") (by rw [← hm]; rfl), ok_bind, if_neg (by decide), if_pos rfl,
    hnumber, ok_bind, atoi_toStringNat, htable]
  rfl

/-- The side stands behind the cards. -/
theorem readFields_taken {cards : List Card} (s : Side) (n : Nat) (hlen : cards.length = 4) :
    readFields (("type", MsgKind.typeName .taken) :: ("rn", toStringNat n) ::
      (cardFields cards ++ [("side", [s.char])])) = .ok (some (.taken cards s n)) := by
  generalize hm : ("type", MsgKind.typeName .taken) :: ("rn", toStringNat n) ::
    (cardFields cards ++ [("side", [s.char])]) = m
  have htable : fieldsFrom (cardAt m) 2 4 = .ok cards := by
    rw [← hlen]
    exact cards_eq (u := m.take 2) (w := [("side", [s.char])]) cards (by simp [← hm]) (by simp [← hm])
  have hnumber : field m 1 = .ok (toStringNat n) := field_eq (t := "rn") (by rw [← hm]; rfl)
  have hside : sideAt m (m.length - 1) = .ok s := by
    have hlast : m.length - 1 = 6 := by simp [← hm, cardFields, hlen]
    refine sideAt_eq (t := "side") ?_
    rw [hlast, ← hm]
    simp [cardFields, hlen]
  rw [readFields, field_eq (t := "type") (by rw [← hm]; rfl), ok_bind, if_neg (by decide),
    if_neg (by decide), if_pos rfl, hnumber, ok_bind, hside, ok_bind, atoi_toStringNat, htable]
  rfl

/-- A `SCORE` and a `TOTAL` are read by one branch. -/
theorem readFields_scores {k : MsgKind} (hk : k = .score ∨ k = .total) {scores : List (Side × Nat)}
    (hlen : scores.length = 4) : readFields (("type", MsgKind.typeName k) :: scoreEntries scores) =
      .ok (some (if k = .total then .total scores else .score scores)) := by
  have hres := scores_eq (u := [("type", MsgKind.typeName k)]) scores rfl (i := 1) rfl
  rw [hlen] at hres
  rcases hk with rfl | rfl <;>
    rw [readFields, field_eq rfl, ok_bind, if_neg (by decide), if_neg (by decide), if_neg (by decide),
      if_pos (by decide), ← List.singleton_append, hres] <;>
    rfl

theorem readFields_busy (sides : List Side) :
    readFields (("type", MsgKind.typeName .busy) :: sides.map fun s => ("side", [s.char])) =
      .ok (some (.busy sides)) := by
  generalize hm : (("type", MsgKind.typeName .busy) :: sides.map fun s => ("side", [s.char])) = m
  have hsides : fieldsFrom (sideAt m) 1 (m.length - 1) = .ok sides := by
    have hlen : m.length - 1 = sides.length := by simp [← hm]
    rw [hlen]
    refine fieldsFrom_eq sides fun k hk => sideAt_eq (t := "side") ?_
    simp [← hm, Nat.add_comm 1 k, hk]
  rw [readFields, field_eq (t := "type") (by rw [← hm]; rfl), ok_bind, if_neg (by decide),
    if_neg (by decide), if_neg (by decide), if_neg (by decide), if_neg (by decide), if_pos rfl, hsides]
  rfl

/-- **The fields of a readable message are read back into the message.** -/
theorem readFields_eq {job : SendJob} (h : job.Readable) :
    readFields (("type", job.kind.typeName) :: job.fields) = .ok (some job) := by
  obtain ⟨hdir, hvalid⟩ := h
  cases job with
  | intro s => exact absurd hdir (show ¬ true = false by decide)
  | deal mode s cards => exact readFields_deal mode s hvalid
  | trick table n => exact readFields_trick table n
  | taken cards s n => exact readFields_taken s n hvalid.2
  | score scores => exact readFields_scores (.inl rfl) hvalid
  | total scores => exact readFields_scores (.inr rfl) hvalid
  | wrong n =>
      show readFields [("type", MsgKind.typeName .wrong), ("rn", toStringNat n)] = _
      rw [readFields, field_eq rfl, ok_bind, if_neg (by decide), if_neg (by decide), if_neg (by decide),
        if_neg (by decide), if_pos rfl, field_eq (i := 1) rfl, ok_bind, atoi_toStringNat]
      rfl
  | busy sides => exact readFields_busy sides

end Reading

/-- A message to the client that is valid for a pattern belongs to this pattern. -/
theorem kind_eq {k : MsgKind} {job : SendJob} (h : k.Valid job) (hdir : k.forServer = false) :
    job.kind = k := by
  cases k <;> cases job <;> first
    | rfl
    | exact h.elim
    | cases hdir

/-- **A line of the server** is the text of a message that the client can read, or makes it look behind the
end of the parse result. -/
theorem dispatch_cases (c : Client α) (sent : Bool) (msg : List Char) :
    (∃ job : SendJob, job.Readable ∧ job.body = msg ∧ c.dispatch sent msg = c.take sent job) ∨
      (∀ job : SendJob, job.Readable → job.body ≠ msg) ∧ c.dispatch sent msg = .error .noField := by
  rcases parse_cases msg false with hnone | ⟨k, job, hdir, hvalid, rfl⟩
  · refine .inr ⟨?_, ?_⟩
    · rintro job ⟨hdir, hvalid⟩ rfl
      have hparse := parse_body hvalid
      rw [hdir, hnone] at hparse
      cases hparse
    · rw [dispatch, hnone]
      rfl
  · obtain rfl := kind_eq hvalid hdir
    refine .inl ⟨job, ⟨hdir, hvalid⟩, rfl, ?_⟩
    have hparse := parse_body hvalid
    rw [hdir] at hparse
    rw [dispatch, hparse]
    simp only [readFields_eq ⟨hdir, hvalid⟩, ok_bind]

end Client

/-- A line is the text of one message at most. -/
theorem SendJob.Readable.body_injective {job job' : SendJob} (h : job.Readable)
    (h' : job'.Readable) (heq : job.body = job'.body) : job = job' := by
  obtain ⟨hdir, hvalid⟩ := h
  obtain ⟨hdir', hvalid'⟩ := h'
  have hkind : job.kind = job'.kind := kind_unique hvalid hvalid' (hdir.trans hdir'.symm) heq
  have hparse := parse_body hvalid
  rw [heq, hkind, parse_body hvalid'] at hparse
  have hfields : job'.fields = job.fields := (List.cons.inj (Except.ok.inj hparse)).2
  rw [← hkind] at hvalid'
  exact fields_injective hvalid hvalid' hfields.symm

/-- The client goes on, unless its answer could not be sent. -/
def Survives {β : Type} (res : Except ClientFault β) : Prop := ∀ f, res = .error f → f = .send

/-- A player with what it asks of a message. -/
class WaryPlayer (α : Type) [Player α] where
  Ready : α → SendJob → Prop
  trickMsg (p : α) (n : Nat) (t : Table) :
    (Ready p (.trick t n) ∧ ∃ res, Player.trickMsg p n t = .ok res) ∨
      ¬ Ready p (.trick t n) ∧ ¬ Survives (Player.trickMsg p n t)
  scoreMsg (p : α) (res : List (Side × Nat)) (total : Bool) (job : SendJob) :
    job = (if total then .total res else .score res) →
      (Ready p job ∧ ∃ q, Player.scoreMsg p res total = .ok q) ∨
        ¬ Ready p job ∧ ¬ Survives (Player.scoreMsg p res total)
  others (p : α) (job : SendJob) : job.kind ≠ .trickS → job.kind ≠ .score → job.kind ≠ .total → Ready p job

/-- The console looks up all four sides in a score map. -/
def PlayerConsole.Ready : SendJob → Prop
  | .score res | .total res => ∀ s : Side, s ∈ res.map Prod.fst
  | _ => True

/-- The automatic player needs a card for a trick that it has not answered. -/
def PlayerAuto.Ready (p : PlayerAuto) : SendJob → Prop
  | .trick _ n => p.nextTrick ≤ n → p.hand ≠ []
  | _ => True

theorem not_survives {β : Type} {f : ClientFault} (hf : f ≠ .send) :
    ¬ Survives (.error f : Except ClientFault β) := fun h => hf (h f rfl)

instance : WaryPlayer PlayerConsole where
  Ready := fun _ => PlayerConsole.Ready
  trickMsg p n t := .inl ⟨trivial, _, rfl⟩
  scoreMsg p res total job hjob := by
    have hready : PlayerConsole.Ready job ↔ ∀ s ∈ Side.sides_, s ∈ res.map Prod.fst := by
      have hall : (∀ s : Side, s ∈ res.map Prod.fst) ↔ ∀ s ∈ Side.sides_, s ∈ res.map Prod.fst :=
        ⟨fun h s _ => h s, fun h s => h s s.mem_sides_⟩
      subst hjob
      cases total <;> exact hall
    show _ ∧ (∃ q, p.scoreMsg res total = .ok q) ∨ _ ∧ ¬ Survives (p.scoreMsg res total)
    unfold PlayerConsole.scoreMsg
    by_cases hall : ∀ s ∈ Side.sides_, s ∈ res.map Prod.fst
    · rw [if_pos hall]
      exact .inl ⟨hready.mpr hall, _, rfl⟩
    · rw [if_neg hall]
      exact .inr ⟨fun h => hall (hready.mp h), not_survives (by decide)⟩
  others p job htrick hscore htotal := by
    cases job <;> trivial

instance : WaryPlayer PlayerAuto where
  Ready := PlayerAuto.Ready
  trickMsg p n t := by
    show _ ∧ (∃ res, p.trickMsg n t = .ok res) ∨ _ ∧ ¬ Survives (p.trickMsg n t)
    unfold PlayerAuto.trickMsg
    by_cases hold : n < p.nextTrick
    · rw [if_pos hold]
      exact .inl ⟨fun hle => absurd hold (not_lt.mpr hle), _, rfl⟩
    · rw [if_neg hold]
      by_cases hne : p.hand = []
      · have hfault : Strategy.nextMove p.hand t = .error .emptyHand := by
          rw [hne]
          cases t <;> rfl
        rw [hfault]
        exact .inr ⟨fun h => h (not_lt.mp hold) hne, not_survives (by decide)⟩
      · obtain ⟨c, hand', hmove, -⟩ := Strategy.nextMove_spec hne t
        rw [hmove]
        exact .inl ⟨fun _ => hne, _, rfl⟩
  scoreMsg p res total job hjob := by
    subst hjob
    cases total <;> exact .inl ⟨trivial, _, rfl⟩
  others p job htrick _ _ := by
    cases job <;> trivial

section Stream

variable {α : Type} [Player α]

/-- The client with the line it has begun to read. -/
structure Reader (α : Type) where
  client : Client α
  nextMsg : List Char

namespace Reader

/-- `nextMsg.substr(0, nextMsg.size() - 2)`.  The difference wraps around if there is only the newline,
and then the whole of it is taken. -/
def line (text : List Char) : List Char :=
  if text.length < 2 then text else text.take (text.length - 2)

/-- One character. -/
def read (r : Reader α) (c : Char) (sent : Bool) : Except ClientFault (Reader α) :=
  let text := r.nextMsg ++ [c]
  if c = '\n' then do
    let (client, _) ← r.client.dispatch sent (line text)
    return ⟨client, []⟩
  else .ok ⟨r.client, text⟩

/-- The loop around `recv`, over the characters that come in, each with the fate of what the client sends
when it has read it. -/
def readAll (r : Reader α) : List (Char × Bool) → Except ClientFault (Reader α)
  | [] => .ok r
  | (c, sent) :: rest =>
      if r.client.terminate then .ok r
      else do
        let r ← r.read c sent
        r.readAll rest

variable [WaryPlayer α]

/-- If the character completes a line, it is a message that the client can read and the player is ready
for. -/
def Fit (r : Reader α) (c : Char) : Prop :=
  c = '\n' → ∃ job : SendJob, job.Readable ∧ job.body = line (r.nextMsg ++ [c]) ∧
    WaryPlayer.Ready r.client.player job

/-- All lines up to a `BUSY` are fit when they come. -/
def Tame (r : Reader α) : List (Char × Bool) → Prop
  | [] => True
  | (c, sent) :: rest => r.client.terminate = true ∨
      r.Fit c ∧ ∀ r', r.read c sent = .ok r' → r'.Tame rest

end Reader

/-- What has ended a client. -/
def fault {β : Type} : Except ClientFault β → Option ClientFault
  | .error f => some f
  | .ok _ => none

theorem not_survives_of_fault {β : Type} {x : Except ClientFault β} {f : ClientFault}
    (h : fault x = some f) (hf : f ≠ .send) : ¬ Survives x := by
  cases x with
  | ok b => cases h
  | error f' =>
      obtain rfl := Option.some.inj h
      exact not_survives hf

theorem survives_ok {β : Type} (b : β) : Survives (.ok b : Except ClientFault β) := by
  rintro f ⟨⟩

theorem survives_bind {β γ : Type} {x : Except ClientFault β} {g : β → Except ClientFault γ} :
    Survives (x >>= g) ↔ Survives x ∧ ∀ b, x = .ok b → Survives (g b) := by
  cases x with
  | ok b =>
      refine ⟨fun h => ⟨survives_ok b, ?_⟩, fun h => h.2 b rfl⟩
      rintro _ ⟨⟩
      exact h
  | error f =>
      refine ⟨fun h => ⟨?_, fun b hb => by cases hb⟩, fun h => ?_⟩
      · rintro _ ⟨⟩
        exact h f rfl
      · rintro _ ⟨⟩
        exact h.1 f rfl

omit [Player α] in
theorem chooseCard_survives (c : Client α) (sent : Bool) (put : Option Card) :
    Survives (c.chooseCard sent put) := by
  cases put with
  | none => exact survives_ok _
  | some card =>
      simp only [Client.chooseCard]
      split
      · split
        · exact survives_ok _
        · rintro _ ⟨⟩
          rfl
      · exact survives_ok _

variable [WaryPlayer α]

/-- A message that was read is survived if the player is ready for it. -/
theorem Client.take_survives_iff (c : Client α) (sent : Bool) (job : SendJob) :
    Survives (c.take sent job) ↔ WaryPlayer.Ready c.player job := by
  cases job with
  | trick t n =>
      rw [Client.take, survives_bind]
      rcases WaryPlayer.trickMsg c.player n t with ⟨hready, res, hok⟩ | ⟨hnot, hfault⟩
      · rw [hok]
        exact iff_of_true ⟨survives_ok res, fun _ _ => chooseCard_survives _ _ _⟩ hready
      · exact iff_of_false (fun h => hfault h.1) hnot
  | score res =>
      rw [Client.take, survives_bind]
      rcases WaryPlayer.scoreMsg c.player res false _ rfl with ⟨hready, q, hok⟩ | ⟨hnot, hfault⟩
      · rw [hok]
        exact iff_of_true ⟨survives_ok q, fun _ _ => survives_ok _⟩ hready
      · exact iff_of_false (fun h => hfault h.1) hnot
  | total res =>
      rw [Client.take, survives_bind]
      rcases WaryPlayer.scoreMsg c.player res true _ rfl with ⟨hready, q, hok⟩ | ⟨hnot, hfault⟩
      · rw [hok]
        exact iff_of_true ⟨survives_ok q, fun _ _ => survives_ok _⟩ hready
      · exact iff_of_false (fun h => hfault h.1) hnot
  | busy | deal | intro | taken | wrong =>
      exact iff_of_true (survives_ok _) (WaryPlayer.others _ _ nofun nofun nofun)

theorem Reader.read_survives_iff (r : Reader α) (c : Char) (sent : Bool) :
    Survives (r.read c sent) ↔ r.Fit c := by
  unfold Reader.read Reader.Fit
  by_cases hc : c = '\n'
  swap
  · simp only [if_neg hc]
    exact iff_of_true (survives_ok _) fun h => absurd h hc
  simp only [if_pos hc, survives_bind]
  rcases r.client.dispatch_cases sent (line (r.nextMsg ++ [c])) with ⟨job, hread, hbody, heq⟩ | ⟨hnone, heq⟩
  · rw [heq, Client.take_survives_iff]
    refine ⟨fun h _ => ⟨job, hread, hbody, h.1⟩, fun h => ⟨?_, fun _ _ => survives_ok _⟩⟩
    -- the line is the text of no other message
    obtain ⟨job', hread', hbody', hready⟩ := h hc
    obtain rfl : job' = job := hread'.body_injective hread (hbody'.trans hbody.symm)
    exact hready
  · rw [heq]
    refine iff_of_false (fun h => not_survives (by decide) h.1) fun h => ?_
    obtain ⟨job, hread, hbody, -⟩ := h hc
    exact hnone job hread hbody

theorem Reader.readAll_survives_iff (r : Reader α) (stream : List (Char × Bool)) :
    Survives (r.readAll stream) ↔ r.Tame stream := by
  induction stream generalizing r with
  | nil => exact iff_of_true (survives_ok r) trivial
  | cons p rest ih =>
      obtain ⟨c, sent⟩ := p
      rw [Reader.readAll, Reader.Tame]
      by_cases hend : r.client.terminate = true
      · rw [if_pos hend]
        exact iff_of_true (survives_ok r) (.inl hend)
      · rw [if_neg hend, survives_bind, Reader.read_survives_iff, or_iff_right hend]
        exact and_congr_right fun _ => forall₂_congr fun r' _ => ih r'

/-- **What the client survives**: of every stream of bytes, in every state, exactly that all lines it comes
to are texts of messages of the server, that a score map names all four sides (for the console), and that
a hand is not empty when a prompt comes that has not been answered (for the automatic player). -/
theorem survives_iff (console : Reader PlayerConsole) (auto : Reader PlayerAuto) (stream : List (Char × Bool)) :
    (Survives (console.readAll stream) ↔ console.Tame stream) ∧
      (Survives (auto.readAll stream) ↔ auto.Tame stream) :=
  ⟨console.readAll_survives_iff stream, auto.readAll_survives_iff stream⟩

/-- A stream without an answer of the client. -/
def bytes (text : List Char) : List (Char × Bool) := text.map fun c => (c, true)

/-- A line that no pattern matches, a single newline, a score map that names `N` four times, and a prompt
for a player who holds nothing: each of them ends the client. -/
theorem not_survives_lines :
    ¬ Survives ((⟨.new (PlayerConsole.new .N), []⟩ : Reader PlayerConsole).readAll (bytes ['H', 'I', '\r', '\n'])) ∧
    ¬ Survives ((⟨.new (PlayerConsole.new .N), []⟩ : Reader PlayerConsole).readAll (bytes ['\n'])) ∧
    ¬ Survives ((⟨.new (PlayerConsole.new .N), []⟩ : Reader PlayerConsole).readAll
      (bytes (SendJob.score [(.N, 0), (.N, 0), (.N, 0), (.N, 0)]).genMsg)) ∧
    ¬ Survives ((⟨.new PlayerAuto.new, []⟩ : Reader PlayerAuto).readAll (bytes (SendJob.trick [] 1).genMsg)) := by
  refine ⟨not_survives_of_fault (f := .noField) (by decide +kernel) (by decide),
    not_survives_of_fault (f := .noField) (by decide +kernel) (by decide),
    not_survives_of_fault (f := .noScore) (by decide +kernel) (by decide),
    not_survives_of_fault (f := .emptyHand) (by decide +kernel) (by decide)⟩

end Stream

end Kierki
