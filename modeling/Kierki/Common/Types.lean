import Mathlib

/-!
# Cards, sides and rounds

The data of `common/card.h`, `common/common_types.h` and `common/constants.h`, with the few functions
of `common/utils.cpp` that work on it.

A card is a key of the table `VALUES` together with a colour, so that a card with an unknown value
cannot be built (the constructor `Card::Card` throws there).  `Card::operator==` and its siblings
compare values only; equality of `Card` below is equality of value *and* colour, which is what the
code tests wherever it looks a card up.
-/

namespace Kierki

/-- `enum Color`. -/
inductive Color
  | colorC | colorD | colorH | colorS
  deriving DecidableEq, Repr

instance : Fintype Color where
  elems := {.colorC, .colorD, .colorH, .colorS}
  complete := by intro c; cases c <;> decide

/-- The keys of `VALUES`. -/
inductive CardValue
  | v2 | v3 | v4 | v5 | v6 | v7 | v8 | v9 | v10 | J | Q | K | A
  deriving DecidableEq, Repr

instance : Fintype CardValue where
  elems := {.v2, .v3, .v4, .v5, .v6, .v7, .v8, .v9, .v10, .J, .Q, .K, .A}
  complete := by intro v; cases v <;> decide

/-- `VALUES.at(value)`. -/
def CardValue.trueVal : CardValue → Nat
  | v2 => 2 | v3 => 3 | v4 => 4 | v5 => 5 | v6 => 6 | v7 => 7 | v8 => 8 | v9 => 9 | v10 => 10
  | J => 11 | Q => 12 | K => 13 | A => 14

theorem CardValue.trueVal_injective : Function.Injective CardValue.trueVal := by
  intro v w
  revert v w
  decide

/-- The key itself, as a string. -/
def CardValue.text : CardValue → List Char
  | v2 => ['2'] | v3 => ['3'] | v4 => ['4'] | v5 => ['5'] | v6 => ['6'] | v7 => ['7'] | v8 => ['8']
  | v9 => ['9'] | v10 => ['1', '0'] | J => ['J'] | Q => ['Q'] | K => ['K'] | A => ['A']

/-- The enumerator is its character. -/
def Color.char : Color → Char
  | colorC => 'C' | colorD => 'D' | colorH => 'H' | colorS => 'S'

/-- `class Card`. -/
structure Card where
  value : CardValue
  col : Color
  deriving DecidableEq, Repr, Fintype

namespace Card

def trueVal (c : Card) : Nat := c.value.trueVal

/-- `Card::toString`. -/
def toString (c : Card) : List Char := c.value.text ++ [c.col.char]

/-- `Card::operator<=`: equal or smaller, by value alone. -/
def le (c other : Card) : Bool := c.trueVal == other.trueVal || c.trueVal < other.trueVal

/-- `Card::operator>`. -/
def gt (c other : Card) : Bool := !c.le other

@[simp] theorem gt_iff (c other : Card) : c.gt other = true ↔ other.trueVal < c.trueVal := by
  simp [gt, le]
  omega

/-- Two cards of one colour and one rank are the same card. -/
theorem eq_of_trueVal {c d : Card} (hcol : c.col = d.col) (hval : c.trueVal = d.trueVal) :
    c = d := by
  obtain ⟨v, col⟩ := c
  obtain ⟨v', col'⟩ := d
  obtain rfl : col = col' := hcol
  obtain rfl : v = v' := CardValue.trueVal_injective hval
  rfl

end Card

/-- `enum Side`, without the null value that only the client's command line uses. -/
inductive Side
  | N | E | S | W
  deriving DecidableEq, Repr

instance : Fintype Side where
  elems := {.N, .E, .S, .W}
  complete := by intro s; cases s <;> decide

namespace Side

def char : Side → Char
  | N => 'N' | E => 'E' | S => 'S' | W => 'W'

/-- `#define sides_`. -/
def sides_ : List Side := [N, S, W, E]

theorem mem_sides_ (s : Side) : s ∈ sides_ := by cases s <;> decide

theorem sides_nodup : sides_.Nodup := by decide

end Side

/-- `nxtSide`. -/
def nxtSide : Side → Side
  | .N => .E
  | .E => .S
  | .S => .W
  | .W => .N

@[simp] theorem nxtSide_four (s : Side) : nxtSide (nxtSide (nxtSide (nxtSide s))) = s := by
  cases s <;> rfl

/-- `enum RoundType`. -/
inductive RoundType
  | trickPenalty | heartPenalty | queenPenalty | kingJackPenalty | heartKingPenalty
  | seventhLastTrickPenalty | everything
  deriving DecidableEq, Repr

/-- The number of the enumerator. -/
def RoundType.number : RoundType → Nat
  | trickPenalty => 1 | heartPenalty => 2 | queenPenalty => 3 | kingJackPenalty => 4
  | heartKingPenalty => 5 | seventhLastTrickPenalty => 6 | everything => 7

def TRICKS_PER_ROUND : Nat := 13

abbrev Hand := List Card
abbrev Table := List Card

/-- `table_state`: every map of this type the server keeps has all four keys. -/
abbrev TableState := Side → Hand

/-- One element of `game_scenario`: `parseScenario` reads `TRICKS_PER_ROUND` cards for each side. -/
structure Round where
  mode : RoundType
  deal : TableState
  starting : Side
  dealt : ∀ s, (deal s).length = TRICKS_PER_ROUND

abbrev GameScenario := List Round

/-- `rmCardIfPresent`: erase the first card of the same colour and value. -/
def rmCardIfPresent : Hand → Card → Hand
  | [], _ => []
  | it :: rest, card =>
      if it.col = card.col ∧ it.value = card.value then rest
      else it :: rmCardIfPresent rest card

theorem Card.same_iff (c d : Card) : (c.col = d.col ∧ c.value = d.value) ↔ c = d := by
  cases c
  cases d
  simp [and_comm]

theorem rmCardIfPresent_eq_erase (hand : Hand) (card : Card) :
    rmCardIfPresent hand card = hand.erase card := by
  induction hand with
  | nil => rfl
  | cons c rest ih =>
      by_cases h : c = card
      · simp [rmCardIfPresent, h]
      · have hne : ¬ (c.col = card.col ∧ c.value = card.value) := by rwa [Card.same_iff]
        rw [rmCardIfPresent, if_neg hne, ih, List.erase_cons_tail (by simpa using h)]

/-- The 52 cards. -/
def deck : Multiset Card := (Finset.univ : Finset Card).val

/-- The deal splits the deck into four hands. -/
def Round.SplitsDeck (r : Round) : Prop := ∑ s, (r.deal s : Multiset Card) = deck

instance (r : Round) : Decidable r.SplitsDeck := by
  unfold Round.SplitsDeck
  infer_instance

/-- The keys of `VALUES`, from the lowest rank up. -/
def CardValue.ranks : List CardValue :=
  [v2, v3, v4, v5, v6, v7, v8, v9, v10, J, Q, K, A]

/-- The deal in which every side holds one colour. -/
def suitDeal : TableState
  | .N => CardValue.ranks.map fun v => ⟨v, .colorC⟩
  | .E => CardValue.ranks.map fun v => ⟨v, .colorD⟩
  | .S => CardValue.ranks.map fun v => ⟨v, .colorH⟩
  | .W => CardValue.ranks.map fun v => ⟨v, .colorS⟩

/-- A round of that deal, led by `N`. -/
def suitRound : Round := ⟨.trickPenalty, suitDeal, .N, by decide⟩

example : suitRound.SplitsDeck := by decide +kernel

end Kierki
