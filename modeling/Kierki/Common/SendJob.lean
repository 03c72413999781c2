import Kierki.Common.Types

/-!
# Outgoing messages

The subclasses of `SendJob` in `common/send_job.h` and the text each of them generates.  A score map
is given by its entries in the order in which the map is walked.
-/

namespace Kierki

/-- The subclasses of `SendJob`. -/
inductive SendJob
  | busy (sides : List Side)
  | deal (roundType : RoundType) (starting : Side) (cards : Hand)
  | intro (s : Side)
  | score (scores : List (Side × Nat))
  | taken (cards : Table) (s : Side) (trickNo : Nat)
  | total (scores : List (Side × Nat))
  | trick (table : Table) (trickNo : Nat)
  | wrong (trickNo : Nat)
  deriving DecidableEq, Repr

/-- `std::to_string` of a number that is not negative. -/
def toStringNat (n : Nat) : List Char := Nat.toDigits 10 n

/-- The cards of a hand or a table, one after the other. -/
def cardsText (cards : List Card) : List Char := cards.flatMap Card.toString

/-- The entries of a score map. -/
def scoresText (scores : List (Side × Nat)) : List Char :=
  scores.flatMap fun score => score.1.char :: toStringNat score.2

namespace SendJob

/-- What `genMsg` puts before the final CRLF. -/
def body : SendJob → List Char
  | busy sides => ['B', 'U', 'S', 'Y'] ++ sides.map Side.char
  | deal roundType starting cards =>
      ['D', 'E', 'A', 'L'] ++ toStringNat roundType.number ++ [starting.char] ++ cardsText cards
  | intro s => ['I', 'A', 'M'] ++ [s.char]
  | score scores => ['S', 'C', 'O', 'R', 'E'] ++ scoresText scores
  | taken cards s trickNo =>
      ['T', 'A', 'K', 'E', 'N'] ++ toStringNat trickNo ++ cardsText cards ++ [s.char]
  | total scores => ['T', 'O', 'T', 'A', 'L'] ++ scoresText scores
  | trick table trickNo => ['T', 'R', 'I', 'C', 'K'] ++ toStringNat trickNo ++ cardsText table
  | wrong trickNo => ['W', 'R', 'O', 'N', 'G'] ++ toStringNat trickNo

/-- `SendJob*::genMsg`. -/
def genMsg (job : SendJob) : List Char := job.body ++ ['\r', '\n']

/-- The message without its last two characters, as the client cuts it. -/
theorem genMsg_strip (job : SendJob) :
    job.genMsg.take (job.genMsg.length - 2) = job.body := by
  simp [genMsg]

end SendJob

end Kierki
