import Kierki.Common.Codec
import Kierki.Server.GameRules

/-!
# The two players

`client/player.h` and its subclasses `PlayerAuto` and `PlayerConsole`, with `client/strategy.cpp`.  What
is printed is left out.  A method that calls `putCb` returns the card it puts, and `checkCardCb` is an
argument of the one method that asks it.
-/

namespace Kierki

/-- What ends a client: an access to something that is not there, or an exception. -/
inductive ClientFault
  /-- `hand.front()` or `hand.back()` in `Strategy::nextMove` -/
  | emptyHand
  /-- `msg.at(0)` in `PlayerConsole::anyCmd` -/
  | emptyCommand
  /-- `msgArray[i]` behind the end of the parse result -/
  | noField
  /-- `at(0)` of an empty field -/
  | emptyField
  /-- a field that is not the text of what it is taken for -/
  | badField
  /-- `scores.at(s)` in `PlayerConsole::scoreMsg` -/
  | noScore
  /-- what `parseNetMsg` throws -/
  | scan
  /-- `Client::sendMessage` throws -/
  | send
  deriving DecidableEq, Repr

/-- `rmIntersection`. -/
def rmIntersection (hand : Hand) (table : Table) : Hand := table.foldl rmCardIfPresent hand

/-- `class Player`.  `hand` is the member in which a subclass keeps its cards. -/
class Player (α : Type) where
  hand : α → Hand
  lastCards : α → List Card
  trickMsg : α → Nat → Table → Except ClientFault (α × Option Card)
  takenMsg : α → Side → Table → Nat → Bool → α
  scoreMsg : α → List (Side × Nat) → Bool → Except ClientFault α
  dealMsg : α → RoundType → Hand → Side → α
  wrongMsg : α → Nat → α
  busyMsg : α → List Side → α
  anyCmd : α → Bool → List Char → Except ClientFault (α × Option Card)

namespace Strategy

/-- The loop of `nextMove`: `i` is the index of `iter`, `toErase` that of the candidate `cand`. -/
def pick (colorReq : Color) : Hand → Nat → Nat → Card → Nat × Card
  | [], _, toErase, cand => (toErase, cand)
  | c :: rest, i, toErase, cand =>
      if cand.col ≠ colorReq ∧ c.col = colorReq then pick colorReq rest (i + 1) i c
      else pick colorReq rest (i + 1) toErase cand

/-- `Strategy::nextMove`: the card, and the hand without it. -/
def nextMove (hand : Hand) (t : Table) : Except ClientFault (Card × Hand) :=
  match t with
  | first :: _ =>
      match hand with
      | [] => .error .emptyHand
      | front :: rest =>
          let (toErase, cand) := pick first.col (front :: rest) 0 0 front
          .ok (cand, (front :: rest).eraseIdx toErase)
  | [] =>
      match hand.getLast? with
      | none => .error .emptyHand
      | some card => .ok (card, hand.dropLast)

end Strategy

/-- `class PlayerAuto`; `hand` is the hand of its `Strategy`. -/
structure PlayerAuto where
  nextTrick : Nat
  hand : Hand
  lastCards : List Card

namespace PlayerAuto

/-- The constructor. -/
def new : PlayerAuto := ⟨0, [], []⟩

/-- `trickMsg`. -/
def trickMsg (p : PlayerAuto) (trickNo : Nat) (table : Table) :
    Except ClientFault (PlayerAuto × Option Card) :=
  if trickNo < p.nextTrick then .ok (p, none)
  else do
    let (c, hand) ← Strategy.nextMove p.hand table
    return (⟨trickNo + 1, hand, p.lastCards ++ [c]⟩, some c)

/-- `takenMsg`. -/
def takenMsg (p : PlayerAuto) (_ : Side) (cards : Table) (trickNo : Nat) (apply : Bool) : PlayerAuto :=
  let p := { p with nextTrick := trickNo + 1 }
  if apply then { p with hand := rmIntersection p.hand cards }
  else { p with lastCards := p.lastCards.tail }

/-- `dealMsg`. -/
def dealMsg (p : PlayerAuto) (_ : RoundType) (hand : Hand) (_ : Side) : PlayerAuto :=
  { p with nextTrick := 1, hand := hand }

/-- `wrongMsg`. -/
def wrongMsg (p : PlayerAuto) (trickNo : Nat) : PlayerAuto :=
  let p := { p with nextTrick := trickNo }
  match p.lastCards with
  | [] => p
  | front :: rest => { p with hand := p.hand ++ [front], lastCards := rest }

instance : Player PlayerAuto where
  hand := PlayerAuto.hand
  lastCards := PlayerAuto.lastCards
  trickMsg := trickMsg
  takenMsg := takenMsg
  scoreMsg := fun p _ _ => .ok p
  dealMsg := dealMsg
  wrongMsg := wrongMsg
  busyMsg := fun p _ => p
  anyCmd := fun p _ _ => .ok (p, none)

end PlayerAuto

/-- `class PlayerConsole`. -/
structure PlayerConsole where
  inGameSide : Side
  localHand : Hand
  lastCards : List Card
  takenTricks : List (Side × Table)

namespace PlayerConsole

/-- The constructor. -/
def new (side : Side) : PlayerConsole := ⟨side, [], [], []⟩

/-- `takenMsg`. -/
def takenMsg (p : PlayerConsole) (side : Side) (cards : Table) (_ : Nat) (apply : Bool) :
    PlayerConsole :=
  let p := if side = p.inGameSide then { p with takenTricks := p.takenTricks ++ [(side, cards)] } else p
  if apply then { p with localHand := rmIntersection p.localHand cards }
  else { p with lastCards := p.lastCards.tail }

/-- `scoreMsg`.  Only the look at `scores` in the loop that prints them is kept. -/
def scoreMsg (p : PlayerConsole) (scores : List (Side × Nat)) (_ : Bool) : Except ClientFault PlayerConsole :=
  if ∀ s ∈ Side.sides_, s ∈ scores.map Prod.fst then .ok { p with takenTricks := [] } else .error .noScore

/-- `dealMsg`. -/
def dealMsg (p : PlayerConsole) (_ : RoundType) (hand : Hand) (_ : Side) : PlayerConsole :=
  { p with localHand := hand }

/-- `wrongMsg`. -/
def wrongMsg (p : PlayerConsole) (_ : Nat) : PlayerConsole :=
  match p.lastCards with
  | [] => p
  | front :: rest => { p with localHand := p.localHand ++ [front], lastCards := rest }

/-- `anyCmd`.  Every command that does not begin with `!` is answered on the screen alone. -/
def anyCmd (p : PlayerConsole) (checkCardCb : Bool) (msg : List Char) :
    Except ClientFault (PlayerConsole × Option Card) :=
  match msg with
  | [] => .error .emptyCommand
  | first :: rest =>
      if first = '!' then
        match Card.fromString rest with
        | none => .ok (p, none)
        | some c =>
            if checkCardCb = false then .ok (p, none)
            else if p.localHand.any (fun card => card.col = c.col ∧ card.value = c.value) = false then
              .ok (p, none)
            else .ok ({ p with
              localHand := rmCardIfPresent p.localHand c
              lastCards := p.lastCards ++ [c] }, some c)
      else .ok (p, none)

instance : Player PlayerConsole where
  hand := PlayerConsole.localHand
  lastCards := PlayerConsole.lastCards
  trickMsg := fun p _ _ => .ok (p, none)
  takenMsg := takenMsg
  scoreMsg := scoreMsg
  dealMsg := dealMsg
  wrongMsg := wrongMsg
  busyMsg := fun p _ => p
  anyCmd := anyCmd

end PlayerConsole

/-- The card that a line of the user names, if it is one of the hand. -/
def PlayerConsole.Names (p : PlayerConsole) (msg : List Char) (card : Card) : Prop :=
  ∃ text, msg = '!' :: text ∧ Card.fromString text = some card ∧ card ∈ p.localHand

/-- **A line of the user** is empty, or puts the card it names, or does nothing. -/
theorem PlayerConsole.anyCmd_cases (p : PlayerConsole) (asked : Bool) (msg : List Char) :
    (msg = [] ∧ p.anyCmd asked msg = .error .emptyCommand) ∨
      (∃ card, p.Names msg card ∧ asked = true ∧ p.anyCmd asked msg = .ok ({ p with
        localHand := p.localHand.erase card, lastCards := p.lastCards ++ [card] }, some card)) ∨
      msg ≠ [] ∧ (∀ card, p.Names msg card → asked = false) ∧ p.anyCmd asked msg = .ok (p, none) := by
  cases msg with
  | nil => exact .inl ⟨rfl, rfl⟩
  | cons first rest =>
      refine .inr ?_
      simp only [anyCmd]
      -- other lines print something at the most
      by_cases hfirst : first = '!'
      swap
      · rw [if_neg hfirst]
        refine .inr ⟨by simp, fun card hnames => ?_, rfl⟩
        obtain ⟨text, htext, -⟩ := hnames
        exact absurd (List.cons.inj htext).1 hfirst
      subst hfirst
      rw [if_pos rfl]
      cases hcard : Card.fromString rest with
      | none =>
          refine .inr ⟨by simp, fun card hnames => ?_, rfl⟩
          obtain ⟨text, htext, hread, -⟩ := hnames
          obtain rfl := (List.cons.inj htext).2
          rw [hcard] at hread
          cases hread
      | some c =>
          -- the search compares colour and value, which is equality of cards
          have hfound : (∃ card ∈ p.localHand, card.col = c.col ∧ card.value = c.value) ↔
              c ∈ p.localHand := by
            simp [Card.same_iff]
          -- a text names one card
          have hunique : ∀ card, p.Names ('!' :: rest) card → card = c ∧ c ∈ p.localHand := by
            rintro card ⟨text, htext, hread, hheld⟩
            obtain rfl := (List.cons.inj htext).2
            obtain rfl := Option.some.inj (hcard.symm.trans hread)
            exact ⟨rfl, hheld⟩
          cases asked with
          | false => exact .inr ⟨by simp, fun _ _ => rfl, rfl⟩
          | true =>
              by_cases hheld : c ∈ p.localHand
              · refine .inl ⟨c, ⟨rest, rfl, hcard, hheld⟩, rfl, ?_⟩
                simpa [rmCardIfPresent_eq_erase] using hfound.mpr hheld
              · refine .inr ⟨by simp, fun card hnames => absurd (hunique card hnames).2 hheld, ?_⟩
                simpa using mt hfound.mp hheld

section Strategy

/-- The loop ends on a card of the hand, at its index, and on one of the colour asked for if it meets
one. -/
theorem Strategy.pick_spec {colorReq : Color} {hand : Hand} (rest seen : Hand) (toErase : Nat)
    (cand : Card) (hhand : hand = seen ++ rest) (hcand : hand[toErase]? = some cand)
    (hseen : cand.col = colorReq ∨ ∀ d ∈ seen, d.col ≠ colorReq) {i : Nat} {c : Card}
    (hpick : pick colorReq rest seen.length toErase cand = (i, c)) :
    hand[i]? = some c ∧ (c.col = colorReq ∨ ∀ d ∈ hand, d.col ≠ colorReq) := by
  induction rest generalizing seen toErase cand with
  | nil =>
      obtain rfl : hand = seen := by simpa using hhand
      obtain ⟨rfl, rfl⟩ := Prod.mk.inj hpick
      exact ⟨hcand, hseen⟩
  | cons d rest ih =>
      have hsplit : hand = (seen ++ [d]) ++ rest := by simpa using hhand
      have hlen : (seen ++ [d]).length = seen.length + 1 := by simp
      rw [pick] at hpick
      by_cases hbetter : cand.col ≠ colorReq ∧ d.col = colorReq
      · rw [if_pos hbetter, ← hlen] at hpick
        exact ih (seen ++ [d]) seen.length d hsplit (by simp [hhand]) (.inl hbetter.2) hpick
      · rw [if_neg hbetter, ← hlen] at hpick
        refine ih (seen ++ [d]) toErase cand hsplit hcand ?_ hpick
        rcases hseen with hgood | hnone
        · exact .inl hgood
        · by_cases hgood : cand.col = colorReq
          · exact .inl hgood
          · refine .inr fun d' hd' => ?_
            rcases List.mem_append.mp hd' with hd' | hd'
            · exact hnone d' hd'
            · obtain rfl := List.mem_singleton.mp hd'
              exact fun hcol => hbetter ⟨hgood, hcol⟩

/-- The strategy takes a card out of a hand that is not empty, and follows suit. -/
theorem Strategy.nextMove_eq {hand : Hand} (hne : hand ≠ []) (t : Table) :
    ∃ i c, hand[i]? = some c ∧ nextMove hand t = .ok (c, hand.eraseIdx i) ∧
      ∀ first ∈ t.head?, c.col = first.col ∨ ∀ d ∈ hand, d.col ≠ first.col := by
  cases t with
  | nil =>
      -- the last card
      refine ⟨hand.length - 1, hand.getLast hne, ?_, ?_, by simp⟩
      · rw [← List.getLast?_eq_getElem?, List.getLast?_eq_some_getLast hne]
      · rw [List.eraseIdx_length_sub_one]
        simp [nextMove, List.getLast?_eq_some_getLast hne]
  | cons first rest =>
      cases hand with
      | nil => exact absurd rfl hne
      | cons front cards =>
          rcases hpick : pick first.col (front :: cards) 0 0 front with ⟨i, c⟩
          obtain ⟨hget, hfollow⟩ := pick_spec (front :: cards) [] 0 front rfl rfl (.inr (by simp)) hpick
          exact ⟨i, c, hget, by simp [nextMove, hpick], by simpa using hfollow⟩

/-- The same with the hand as a multiset. -/
theorem Strategy.nextMove_spec {hand : Hand} (hne : hand ≠ []) (t : Table) :
    ∃ c hand', nextMove hand t = .ok (c, hand') ∧ (hand : Multiset Card) = c ::ₘ (hand' : Multiset Card) ∧
      ∀ first ∈ t.head?, c.col = first.col ∨ ∀ d ∈ hand, d.col ≠ first.col := by
  obtain ⟨i, c, hget, hmove, hfollow⟩ := nextMove_eq hne t
  refine ⟨c, hand.eraseIdx i, hmove, ?_, hfollow⟩
  obtain ⟨hlt, rfl⟩ := List.getElem?_eq_some_iff.mp hget
  rw [Multiset.cons_coe, Multiset.coe_eq_coe]
  exact (List.getElem_cons_eraseIdx_perm hlt).symm

/-- **The strategy obeys the rules**: what it puts is a legal move of a side that holds the hand, and it
takes one occurrence of the card out of the hand and leaves the others as they are. -/
theorem Strategy.nextMove_legal (s : Side) (state : TableState) (hne : state s ≠ []) (table : Table) :
    ∃ i c, (state s)[i]? = some c ∧ nextMove (state s) table = .ok (c, (state s).eraseIdx i) ∧
      GameRules.isMoveLegal s c state table = true := by
  obtain ⟨i, c, hget, hmove, hfollow⟩ := nextMove_eq hne table
  refine ⟨i, c, hget, hmove, ?_⟩
  exact GameRules.isMoveLegal_iff.mpr ⟨List.mem_of_getElem? hget, hfollow⟩

/-- Hearts are led, and the only heart of the hand is the last card. -/
theorem Strategy.nextMove_legal_heart :
    ∃ i c, [⟨.A, .colorS⟩, ⟨.v10, .colorC⟩, ⟨.v2, .colorH⟩][i]? = some c ∧
      nextMove [⟨.A, .colorS⟩, ⟨.v10, .colorC⟩, ⟨.v2, .colorH⟩] [⟨.K, .colorH⟩] =
        .ok (c, ([⟨.A, .colorS⟩, ⟨.v10, .colorC⟩, ⟨.v2, .colorH⟩] : Hand).eraseIdx i) ∧
      GameRules.isMoveLegal .E c (fun _ => [⟨.A, .colorS⟩, ⟨.v10, .colorC⟩, ⟨.v2, .colorH⟩])
        [⟨.K, .colorH⟩] = true :=
  nextMove_legal .E (fun _ => [⟨.A, .colorS⟩, ⟨.v10, .colorC⟩, ⟨.v2, .colorH⟩]) (by decide) [⟨.K, .colorH⟩]

end Strategy

end Kierki
