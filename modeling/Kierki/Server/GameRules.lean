import Kierki.Common.Types

/-!
# The rules of the game

`GameRules::isMoveLegal` and `GameRules::whoTakes` of `server/game_rules.cpp`.
-/

namespace Kierki
namespace GameRules

def TRICK_PENALTY_VAL : Nat := 1
def HEART_PENALTY_VAL : Nat := 1
def QUEEN_PENALTY_VAL : Nat := 5
def KING_JACK_PENALTY_VAL : Nat := 2
def KING_HEART_PENALTY_VAL : Nat := 18
def SEVENTH_LAST_TRICK_PENALTY_VAL : Nat := 10

/-- Does the player holding `hand` have a card of the colour that was led? -/
def holdsColor (hand : Hand) (wanted : Color) : Bool := hand.any fun card => card.col == wanted

/-- `GameRules::isMoveLegal`: first the colour of the trick, then that the card is held. -/
def isMoveLegal (s : Side) (c : Card) (state : TableState) (table : Table) : Bool :=
  match table with
  | [] => (state s).any fun card => card.col == c.col && card.value == c.value
  | front :: _ =>
      if c.col ≠ front.col ∧ holdsColor (state s) front.col then false
      else (state s).any fun card => card.col == c.col && card.value == c.value

/-- A legal card is held, and follows the colour led unless the hand has none of it. -/
theorem isMoveLegal_iff {s : Side} {c : Card} {state : TableState} {table : Table} :
    isMoveLegal s c state table = true ↔ c ∈ state s ∧
      ∀ front ∈ table.head?, c.col = front.col ∨ ∀ d ∈ state s, d.col ≠ front.col := by
  have hheld : ((state s).any fun card => card.col == c.col && card.value == c.value) = true ↔
      c ∈ state s := by
    rw [List.any_eq_true]
    constructor
    · rintro ⟨d, hd, heq⟩
      obtain rfl : d = c := (Card.same_iff d c).mp (by simpa using heq)
      exact hd
    · exact fun hc => ⟨c, hc, by simp⟩
  cases table with
  | nil => simpa [isMoveLegal] using hheld
  | cons front rest =>
      have hholds : holdsColor (state s) front.col = true ↔ ¬ ∀ d ∈ state s, d.col ≠ front.col := by
        simp [holdsColor]
      simp only [isMoveLegal, List.head?_cons, Option.mem_def, Option.some.injEq, forall_eq']
      by_cases hbad : c.col ≠ front.col ∧ holdsColor (state s) front.col = true
      · rw [if_pos hbad]
        have hnone := hholds.mp hbad.2
        simp only [Bool.false_eq_true, false_iff, not_and, not_or]
        exact fun _ => ⟨hbad.1, hnone⟩
      · rw [if_neg hbad, hheld, iff_self_and]
        intro _
        by_cases hcol : c.col = front.col
        · exact .inl hcol
        · exact .inr (not_not.mp fun hsome => hbad ⟨hcol, hholds.mpr hsome⟩)

/-- The loop of `whoTakes` over the cards after the first: `best` is `table[takerIx]`. -/
def takerLoop (wanted : Color) (best : Card) (takerIx i : Nat) : Table → Nat
  | [] => takerIx
  | c :: rest =>
      if c.col = wanted ∧ c.gt best = true then takerLoop wanted c i (i + 1) rest
      else takerLoop wanted best takerIx (i + 1) rest

/-- `takerIx` at the end of the loop. -/
def takerIx : Table → Nat
  | [] => 0
  | front :: rest => takerLoop front.col front 0 1 rest

/-- The sum over the cards of the table that meet a condition. -/
def sumOver (table : Table) (cond : Card → Bool) (val : Nat) : Nat :=
  table.foldl (fun pen c => if cond c then pen + val else pen) 0

def isHeart (c : Card) : Bool := c.col == .colorH
def isQueen (c : Card) : Bool := c.value == .Q
def isKingOrJack (c : Card) : Bool := c.value == .K || c.value == .J
def isKingOfHearts (c : Card) : Bool := c.value == .K && c.col == .colorH

/-- `trickNo == 7 || trickNo == TRICKS_PER_ROUND`. -/
def isSeventhOrLast (trickNo : Nat) : Bool := trickNo == 7 || trickNo == TRICKS_PER_ROUND

/-- What one card adds in the loop of the `EVERYTHING` branch. -/
def everythingCard (pen : Nat) (c : Card) : Nat :=
  let pen := if isHeart c then pen + HEART_PENALTY_VAL else pen
  let pen := if isQueen c then pen + QUEEN_PENALTY_VAL else pen
  let pen := if isKingOrJack c then pen + KING_JACK_PENALTY_VAL else pen
  if isKingOfHearts c then pen + KING_HEART_PENALTY_VAL else pen

/-- The `switch` of `whoTakes`. -/
def penalty (table : Table) (roundType : RoundType) (trickNo : Nat) : Nat :=
  match roundType with
  | .trickPenalty => TRICK_PENALTY_VAL
  | .heartPenalty => sumOver table isHeart HEART_PENALTY_VAL
  | .queenPenalty => sumOver table isQueen QUEEN_PENALTY_VAL
  | .kingJackPenalty => sumOver table isKingOrJack KING_JACK_PENALTY_VAL
  | .heartKingPenalty => sumOver table isKingOfHearts KING_HEART_PENALTY_VAL
  | .seventhLastTrickPenalty =>
      if isSeventhOrLast trickNo then SEVENTH_LAST_TRICK_PENALTY_VAL else 0
  | .everything =>
      table.foldl everythingCard
        (TRICK_PENALTY_VAL +
          if isSeventhOrLast trickNo then SEVENTH_LAST_TRICK_PENALTY_VAL else 0)

/-- `GameRules::whoTakes`: the taker is found by walking `takerIx` places from the starting side. -/
def whoTakes (startingSide : Side) (table : Table) (roundType : RoundType) (trickNo : Nat) :
    Side × Nat :=
  (nxtSide^[takerIx table] startingSide, penalty table roundType trickNo)

end GameRules
end Kierki
