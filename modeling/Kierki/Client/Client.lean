import Kierki.Client.Player

/-!
# The client

`Client::run` and `Client::chooseCard` of `client/client.cpp`, over any player.  `take` is what the client
does with one message of the server that it has read and `command` with one line of the user; both return
the `TRICK` messages that they send, each by its number and card.  The argument `sent` says whether
`sendMessage` gets the message through.  `recv` is the whole way of a message, over a connection that works.

What the two players have in common is kept in a `Ledger`: the cards a client counts as its own, and the
cards it has sent and knows nothing about yet.  A `LawfulPlayer` changes its ledger as the messages say,
and puts cards of its own only.
-/

namespace Kierki

/-- The pattern of a message to the client. -/
def SendJob.kind : SendJob → MsgKind
  | .busy _ => .busy
  | .deal _ _ _ => .deal
  | .intro _ => .iam
  | .score _ => .score
  | .taken _ _ _ => .taken
  | .total _ => .total
  | .trick _ _ => .trickS
  | .wrong _ => .wrong

instance (k : MsgKind) (msg : SendJob) : Decidable (k.Valid msg) := by
  unfold MsgKind.Valid
  split <;> infer_instance

/-- The client can read the message. -/
def SendJob.Readable (msg : SendJob) : Prop := msg.kind.forServer = false ∧ msg.kind.Valid msg

instance (msg : SendJob) : Decidable msg.Readable := by
  unfold SendJob.Readable
  infer_instance

/-- `enum GameStage`. -/
inductive GameStage
  | pre | afterFirstDeal | afterDeal | afterTrick | afterScore | afterTotal
  deriving DecidableEq, Repr

/-- The members of `class Client` and the variables of `Client::run` that outlive a message. -/
structure Client (α : Type) where
  player : α
  stage : GameStage
  waitingForCard : Bool
  trickNo : Nat
  exitFlag : Nat
  terminate : Bool

namespace Client

variable {α : Type} [Player α]

/-- The constructor. -/
def new (player : α) : Client α := ⟨player, .pre, false, 1, 0, false⟩

/-- `chooseCard`, for the card that the player puts. -/
def chooseCard (c : Client α) (sent : Bool) :
    Option Card → Except ClientFault (Client α × List (Nat × Card))
  | none => .ok (c, [])
  | some card =>
      if c.waitingForCard then
        if sent then .ok ({ c with waitingForCard := false }, [(c.trickNo, card)]) else .error .send
      else .ok (c, [])

/-- What the client does with a message that it has read. -/
def take (c : Client α) (sent : Bool) : SendJob → Except ClientFault (Client α × List (Nat × Card))
  | .deal type starting hand => .ok ({ c with
      stage := if c.stage = .pre then .afterFirstDeal else .afterDeal
      player := Player.dealMsg c.player type hand starting }, [])
  | .trick t trickNo => do
      let c := { c with stage := .afterTrick, waitingForCard := true, trickNo := trickNo }
      let (player, put) ← Player.trickMsg c.player trickNo t
      { c with player := player }.chooseCard sent put
  | .taken t s trickNo => .ok ({ c with
      trickNo := trickNo
      player := Player.takenMsg c.player s t trickNo (c.stage = .afterFirstDeal) }, [])
  | .score res => do
      return ({ c with stage := .afterScore, player := ← Player.scoreMsg c.player res false }, [])
  | .total res => do
      return ({ c with stage := .afterTotal, player := ← Player.scoreMsg c.player res true }, [])
  | .wrong trickNo => .ok ({ c with
      trickNo := trickNo, waitingForCard := true, player := Player.wrongMsg c.player trickNo }, [])
  | .busy taken => .ok ({ c with
      player := Player.busyMsg c.player taken, exitFlag := 1, terminate := true }, [])
  | .intro _ => .ok (c, [])

/-- A message of the server. -/
def recv (c : Client α) (msg : SendJob) : Except ClientFault (Client α × List (Nat × Card)) :=
  if msg.Readable then c.take true msg else .error .noField

/-- A line of the user.  The handler around `putCb` catches what `sendMessage` throws. -/
def command (c : Client α) (sent : Bool) (nextCmd : List Char) :
    Except ClientFault (Client α × List (Nat × Card)) := do
  let (player, put) ← Player.anyCmd c.player c.waitingForCard nextCmd
  match { c with player := player }.chooseCard sent put with
  | .ok res => return res
  | .error _ => return ({ c with player := player }, [])

/-- Messages, one after the other. -/
def recvAll (c : Client α) : List SendJob → Except ClientFault (Client α × List (Nat × Card))
  | [] => .ok (c, [])
  | msg :: msgs => do
      let (c, out) ← c.recv msg
      let (c, out') ← c.recvAll msgs
      return (c, out ++ out')

end Client

/-- The cards that a client counts as its own, and those that it has put and has no answer for, oldest
first. -/
@[ext] structure Ledger where
  hand : Multiset Card
  last : List Card

namespace Ledger

/-- A new hand. -/
def deal (l : Ledger) (cards : Hand) : Ledger := { l with hand := cards }

/-- The cards of a trick are struck out. -/
def strike (l : Ledger) (cards : Table) : Ledger := { l with hand := l.hand - cards }

/-- The oldest card is gone for good. -/
def settle (l : Ledger) : Ledger := { l with last := l.last.tail }

/-- The oldest card comes back. -/
def takeBack (l : Ledger) : Ledger :=
  match l.last with
  | [] => l
  | front :: rest => ⟨front ::ₘ l.hand, rest⟩

/-- A card is put. -/
def put (l : Ledger) (c : Card) : Ledger := ⟨l.hand.erase c, l.last ++ [c]⟩

/-- What a message does to the ledger of a client in stage `stage`, but for a card that is put. -/
def hear (l : Ledger) (stage : GameStage) : SendJob → Ledger
  | .deal _ _ cards => l.deal cards
  | .taken cards _ _ => if stage = .afterFirstDeal then l.strike cards else l.settle
  | .wrong _ => l.takeBack
  | .trick _ _ | .score _ | .total _ | .busy _ | .intro _ => l

/-- Nothing is put, or a card that is there. -/
def Puts (l : Ledger) : Option Card → Ledger → Prop
  | none, l' => l' = l
  | some c, l' => c ∈ l.hand ∧ l' = l.put c

end Ledger

/-- The stage after a message. -/
def GameStage.next (stage : GameStage) : SendJob → GameStage
  | .deal _ _ _ => if stage = .pre then .afterFirstDeal else .afterDeal
  | .trick _ _ => .afterTrick
  | .score _ => .afterScore
  | .total _ => .afterTotal
  | .taken _ _ _ | .wrong _ | .busy _ | .intro _ => stage

/-- What a player knows of its cards. -/
def Player.ledger {α : Type} [Player α] (p : α) : Ledger := ⟨(hand p : Multiset Card), lastCards p⟩

/-- A player whose ledger says what the messages and its own cards make of it. -/
class LawfulPlayer (α : Type) [Player α] : Prop where
  dealMsg (p : α) (mode : RoundType) (cards : Hand) (s : Side) :
    Player.ledger (Player.dealMsg p mode cards s) = (Player.ledger p).deal cards
  takenMsg (p : α) (s : Side) (cards : Table) (n : Nat) (apply : Bool) :
    Player.ledger (Player.takenMsg p s cards n apply) =
      if apply = true then (Player.ledger p).strike cards else (Player.ledger p).settle
  wrongMsg (p : α) (n : Nat) : Player.ledger (Player.wrongMsg p n) = (Player.ledger p).takeBack
  scoreMsg (p q : α) (res : List (Side × Nat)) (total : Bool) :
    Player.scoreMsg p res total = .ok q → Player.ledger q = Player.ledger p
  busyMsg (p : α) (taken : List Side) : Player.ledger (Player.busyMsg p taken) = Player.ledger p
  trickMsg (p q : α) (n : Nat) (t : Table) (put : Option Card) :
    Player.trickMsg p n t = .ok (q, put) → (Player.ledger p).Puts put (Player.ledger q)
  anyCmd (p q : α) (asked : Bool) (msg : List Char) (put : Option Card) :
    Player.anyCmd p asked msg = .ok (q, put) →
      (Player.ledger p).Puts put (Player.ledger q) ∧ (put.isSome → asked = true)

theorem coe_rmIntersection (hand : Hand) (table : Table) :
    (rmIntersection hand table : Multiset Card) = (hand : Multiset Card) - (table : Multiset Card) := by
  rw [Multiset.coe_sub, List.diff_eq_foldl]
  unfold rmIntersection
  congr 2
  funext hand card
  exact rmCardIfPresent_eq_erase hand card

theorem ledger_takeBack (hand : Hand) (front : Card) (rest : List Card) :
    (⟨((hand ++ [front] : Hand) : Multiset Card), rest⟩ : Ledger) =
      (⟨(hand : Multiset Card), front :: rest⟩ : Ledger).takeBack := by
  simp [Ledger.takeBack, Multiset.cons_coe, Multiset.coe_eq_coe]

instance : LawfulPlayer PlayerAuto where
  dealMsg _ _ _ _ := rfl
  takenMsg p s cards n apply := by
    cases apply with
    | false => rfl
    | true => exact Ledger.ext (coe_rmIntersection p.hand cards) rfl
  wrongMsg p n := by
    obtain ⟨k, hand, last⟩ := p
    cases last with
    | nil => rfl
    | cons front rest => exact ledger_takeBack hand front rest
  scoreMsg p q res total h := by
    cases h
    rfl
  busyMsg _ _ := rfl
  trickMsg p q n t put h := by
    change p.trickMsg n t = .ok (q, put) at h
    unfold PlayerAuto.trickMsg at h
    split at h
    · cases h
      rfl
    · by_cases hne : p.hand = []
      · rw [hne] at h
        cases t <;> cases h
      obtain ⟨c, hand', hmove, hhand, -⟩ := Strategy.nextMove_spec hne t
      rw [hmove] at h
      cases h
      have hledger : Player.ledger p = ⟨c ::ₘ (hand' : Multiset Card), p.lastCards⟩ :=
        Ledger.ext hhand rfl
      rw [hledger]
      refine ⟨Multiset.mem_cons_self c (hand' : Multiset Card), Ledger.ext ?_ rfl⟩
      exact (Multiset.erase_cons_head c (hand' : Multiset Card)).symm
  anyCmd p q asked msg put h := by
    cases h
    exact ⟨rfl, by simp⟩

instance : LawfulPlayer PlayerConsole where
  dealMsg _ _ _ _ := rfl
  takenMsg p s cards n apply := by
    change Player.ledger (p.takenMsg s cards n apply) = _
    cases apply with
    | false =>
        unfold PlayerConsole.takenMsg
        split <;> rfl
    | true =>
        unfold PlayerConsole.takenMsg
        split <;> exact Ledger.ext (coe_rmIntersection p.localHand cards) rfl
  wrongMsg p n := by
    obtain ⟨side, hand, last, tricks⟩ := p
    cases last with
    | nil => rfl
    | cons front rest => exact ledger_takeBack hand front rest
  scoreMsg p q res total h := by
    change p.scoreMsg res total = .ok q at h
    unfold PlayerConsole.scoreMsg at h
    split at h
    · cases h
      rfl
    · cases h
  busyMsg _ _ := rfl
  trickMsg p q n t put h := by
    cases h
    rfl
  anyCmd p q asked msg put h := by
    change p.anyCmd asked msg = .ok (q, put) at h
    rcases p.anyCmd_cases asked msg with ⟨-, heq⟩ | ⟨card, hnames, hasked, heq⟩ | ⟨-, -, heq⟩
    · rw [heq] at h
      cases h
    · obtain ⟨-, -, -, hheld⟩ := hnames
      rw [heq] at h
      cases h
      refine ⟨⟨Multiset.mem_coe.mpr hheld, Ledger.ext ?_ rfl⟩, fun _ => hasked⟩
      exact (Multiset.coe_erase p.localHand card).symm
    · rw [heq] at h
      cases h
      exact ⟨rfl, by simp⟩

namespace Client

variable {α : Type} [Player α]

/-- The ledger of the player. -/
def ledger (c : Client α) : Ledger := Player.ledger c.player

variable [LawfulPlayer α] {c c' : Client α} {out : List (Nat × Card)}

omit [Player α] [LawfulPlayer α] in
/-- What is sent for a card that may be put. -/
theorem chooseCard_spec {sent : Bool} {put : Option Card} (h : c.chooseCard sent put = .ok (c', out)) :
    c'.stage = c.stage ∧ c'.player = c.player ∧
      ((out = [] ∧ c' = c ∧ (put.isSome → c.waitingForCard = false)) ∨
        ∃ card, put = some card ∧ out = [(c.trickNo, card)] ∧ c.waitingForCard = true ∧
          c'.waitingForCard = false) := by
  cases put with
  | none =>
      cases h
      exact ⟨rfl, rfl, .inl ⟨rfl, rfl, by simp⟩⟩
  | some card =>
      simp only [chooseCard] at h
      by_cases hwait : c.waitingForCard = true
      · rw [if_pos hwait] at h
        split at h
        · cases h
          exact ⟨rfl, rfl, .inr ⟨card, rfl, rfl, hwait, rfl⟩⟩
        · cases h
      · rw [if_neg hwait] at h
        cases h
        exact ⟨rfl, rfl, .inl ⟨rfl, rfl, fun _ => by simpa using hwait⟩⟩

/-- **A message**: the stage and the ledger go on as the message says, and then at most one card is put,
in answer to a prompt. -/
theorem recv_spec {msg : SendJob} (h : c.recv msg = .ok (c', out)) :
    msg.Readable ∧ c'.stage = c.stage.next msg ∧
      ((out = [] ∧ c'.ledger = c.ledger.hear c.stage msg ∧
          (c'.waitingForCard = true → c.waitingForCard = true ∨
            (∃ t n, msg = .trick t n) ∨ ∃ n, msg = .wrong n)) ∨
        ∃ t n card, msg = .trick t n ∧ out = [(n, card)] ∧ card ∈ c.ledger.hand ∧
          c'.ledger = c.ledger.put card ∧ c'.waitingForCard = false) := by
  unfold recv at h
  split at h
  swap
  · cases h
  rename_i hread
  refine ⟨hread, ?_⟩
  cases msg with
  -- an `IAM` is not for clients, and is not readable
  | intro s => exact absurd hread.1 (show ¬ true = false by decide)
  | deal type starting cards =>
      cases h
      exact ⟨rfl, .inl ⟨rfl, LawfulPlayer.dealMsg _ _ _ _, .inl⟩⟩
  | taken t s n =>
      cases h
      refine ⟨rfl, .inl ⟨rfl, ?_, .inl⟩⟩
      have hlaw := LawfulPlayer.takenMsg c.player s t n (c.stage = .afterFirstDeal)
      simpa [ledger, Ledger.hear] using hlaw
  | score res =>
      obtain ⟨player, hplayer, h⟩ := Fallible.bind_eq_ok.mp h
      cases h
      exact ⟨rfl, .inl ⟨rfl, LawfulPlayer.scoreMsg _ _ _ _ hplayer, .inl⟩⟩
  | total res =>
      obtain ⟨player, hplayer, h⟩ := Fallible.bind_eq_ok.mp h
      cases h
      exact ⟨rfl, .inl ⟨rfl, LawfulPlayer.scoreMsg _ _ _ _ hplayer, .inl⟩⟩
  | wrong n =>
      cases h
      exact ⟨rfl, .inl ⟨rfl, LawfulPlayer.wrongMsg _ _, fun _ => .inr (.inr ⟨n, rfl⟩)⟩⟩
  | busy taken =>
      cases h
      exact ⟨rfl, .inl ⟨rfl, LawfulPlayer.busyMsg _ _, .inl⟩⟩
  | trick t n =>
      obtain ⟨⟨player, put⟩, hplayer, h⟩ := Fallible.bind_eq_ok.mp h
      have hput := LawfulPlayer.trickMsg _ _ _ _ _ hplayer
      -- the player puts a card at once, or `chooseCard` waits for one
      obtain ⟨hstage, hsame, ⟨rfl, -, hwait⟩ | ⟨card, rfl, rfl, -, hwait⟩⟩ := chooseCard_spec h
      · obtain rfl : put = none := by
          cases put with
          | none => rfl
          | some card => exact absurd (hwait rfl) (by simp)
        refine ⟨hstage, .inl ⟨rfl, ?_, fun _ => .inr (.inl ⟨t, n, rfl⟩)⟩⟩
        rw [ledger, hsame]
        exact hput
      · refine ⟨hstage, .inr ⟨t, n, card, rfl, rfl, hput.1, ?_, hwait⟩⟩
        rw [ledger, hsame]
        exact hput.2

/-- **A line of the user** that gets through puts at most one card, when the client waits for one. -/
theorem command_spec {cmd : List Char} (h : c.command true cmd = .ok (c', out)) :
    c'.stage = c.stage ∧
      ((out = [] ∧ c'.ledger = c.ledger ∧ (c'.waitingForCard = true → c.waitingForCard = true)) ∨
        ∃ card, out = [(c.trickNo, card)] ∧ card ∈ c.ledger.hand ∧ c'.ledger = c.ledger.put card ∧
          c.waitingForCard = true ∧ c'.waitingForCard = false) := by
  unfold command at h
  obtain ⟨⟨player, put⟩, hplayer, h⟩ := Fallible.bind_eq_ok.mp h
  obtain ⟨hput, hasked⟩ := LawfulPlayer.anyCmd _ _ _ _ _ hplayer
  cases put with
  | none =>
      cases h
      exact ⟨rfl, .inl ⟨rfl, hput, id⟩⟩
  | some card =>
      have hwait : c.waitingForCard = true := hasked rfl
      simp only [chooseCard, hwait, if_true] at h
      cases h
      exact ⟨rfl, .inr ⟨card, rfl, hput.1, hput.2, hwait, rfl⟩⟩

end Client

end Kierki
