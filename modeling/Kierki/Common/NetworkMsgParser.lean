import Kierki.Common.SendJob
import Kierki.Library.Fallible
import Kierki.Library.Patterns

/-!
# The parser of network messages

`common/network_msg_parser.cpp`.  `std::regex_match` is a full match against a pattern, here of
Mathlib's regular expressions; what the code then does with the message are index scans, in which every
`at` and `substr` is checked and every subtraction of a `size_t` must not wrap around.
-/

namespace Kierki

open RegularExpression Patterns Fallible

/-- What ends the parser: an exception of `std::string`, or an unsigned subtraction below zero. -/
inductive ScanFault
  | outOfRange | unsignedWrap
  deriving DecidableEq, Repr

/-- `#define CARD_`. -/
def CARD_ : RegularExpression Char :=
  (oneOf ['2', '3', '4', '5', '6', '7', '8', '9'] + (lit ['1', '0'] + (char 'J' + (char 'Q' +
    (char 'K' + char 'A'))))) * oneOf ['C', 'D', 'H', 'S']

/-- `#define SIDE_`. -/
def SIDE_ : RegularExpression Char := oneOf ['N', 'S', 'E', 'W']

/-- `#define RN_`. -/
def RN_ : RegularExpression Char := oneOf nonzeroDigits + char '1' * oneOf ['0', '1', '2', '3']

/-- The indices of `patterns`. -/
inductive MsgKind
  | iam | busy | deal | trickS | trickC | wrong | taken | score | total
  deriving DecidableEq, Repr

namespace MsgKind

/-- The word with which a message begins. -/
def keyword : MsgKind → List Char
  | iam => ['I', 'A', 'M']
  | busy => ['B', 'U', 'S', 'Y']
  | deal => ['D', 'E', 'A', 'L']
  | trickS | trickC => ['T', 'R', 'I', 'C', 'K']
  | wrong => ['W', 'R', 'O', 'N', 'G']
  | taken => ['T', 'A', 'K', 'E', 'N']
  | score => ['S', 'C', 'O', 'R', 'E']
  | total => ['T', 'O', 'T', 'A', 'L']

/-- What follows the keyword. -/
def rest : MsgKind → RegularExpression Char
  | iam => SIDE_
  | busy => between SIDE_ 1 4
  | deal => oneOf ['1', '2', '3', '4', '5', '6', '7'] * (SIDE_ * CARD_ ^ 13)
  | trickS => RN_ * between CARD_ 0 3
  | trickC => RN_ * CARD_
  | wrong => RN_
  | taken => RN_ * (CARD_ ^ 4 * SIDE_)
  | score => (SIDE_ * numeral) ^ 4
  | total => (SIDE_ * numeral) ^ 4

/-- `patterns[i]`. -/
def pattern (k : MsgKind) : RegularExpression Char := lit k.keyword * k.rest

/-- The kinds in the order of `patterns`. -/
def all : List MsgKind := [iam, busy, deal, trickS, trickC, wrong, taken, score, total]

/-- The kinds the server reads: `i == 0` and `i == 4`. -/
def forServer : MsgKind → Bool
  | iam | trickC => true
  | _ => false

end MsgKind

/-- `ParseResp`. -/
abbrev ParseResp := List (String × List Char)

namespace NetworkMsgParser

/-- The loop over the cards of a `DEAL`. -/
def dealCards (m : List Char) : Nat → Nat → Except ScanFault ParseResp
  | 0, _ => .ok []
  | j + 1, itr => do
      let ten ← charAt .outOfRange m itr
      if ten = '1' then
        let card ← substr .outOfRange m itr 3
        return ("card", card) :: (← dealCards m j (itr + 3))
      else
        let card ← substr .outOfRange m itr 2
        return ("card", card) :: (← dealCards m j (itr + 2))

/-- The loop over the cards of a `TRICK`, which ends at the end of the message.  Every turn takes at
least two characters, so that the length of the message is fuel enough. -/
def trickCards (m : List Char) : Nat → Nat → Except ScanFault ParseResp
  | 0, _ => .ok []
  | fuel + 1, itr =>
      if itr < m.length then do
        let ten ← charAt .outOfRange m itr
        if ten = '1' then
          let card ← substr .outOfRange m itr 3
          return ("card", card) :: (← trickCards m fuel (itr + 3))
        else
          let card ← substr .outOfRange m itr 2
          return ("card", card) :: (← trickCards m fuel (itr + 2))
      else .ok []

/-- The loop over the cards of a `TAKEN`, from the last one back: `itr` is the index of the colour. -/
def takenCards (m : List Char) : Nat → Nat → Except ScanFault (ParseResp × Nat)
  | 0, itr => .ok ([], itr)
  | j + 1, itr => do
      let ten ← charAt .outOfRange m (← checkedSub .unsignedWrap itr 1)
      if ten = '0' then
        let card ← substr .outOfRange m (← checkedSub .unsignedWrap itr 2) 3
        let (cards, itr) ← takenCards m j (← checkedSub .unsignedWrap itr 3)
        return (("card", card) :: cards, itr)
      else
        let card ← substr .outOfRange m (← checkedSub .unsignedWrap itr 1) 2
        let (cards, itr) ← takenCards m j (← checkedSub .unsignedWrap itr 2)
        return (("card", card) :: cards, itr)

/-- `m.at(i) >= '0' && m.at(i) <= '9'`. -/
def isDigit (c : Char) : Bool := decide ('0' ≤ c) && decide (c ≤ '9')

/-- The loop that looks for the last digit of a number, with the rest of the message as fuel. -/
def numberEnd (m : List Char) : Nat → Nat → Except ScanFault Nat
  | 0, itr => .ok itr
  | fuel + 1, itr =>
      if itr + 1 < m.length then do
        if isDigit (← charAt .outOfRange m (itr + 1)) then numberEnd m fuel (itr + 1) else .ok itr
      else .ok itr

/-- The loop over the scores. -/
def scoreFields (m : List Char) : Nat → Nat → Except ScanFault ParseResp
  | 0, _ => .ok []
  | j + 1, itr => do
      let side ← substr .outOfRange m itr 1
      let start := itr + 1
      let itr ← numberEnd m m.length start
      let score ← substr .outOfRange m start ((← checkedSub .unsignedWrap itr start) + 1)
      return ("side", side) :: ("score", score) :: (← scoreFields m j (itr + 1))

/-- The loop over the sides of a `BUSY`. -/
def busySides (m : List Char) : Nat → Nat → Except ScanFault ParseResp
  | 0, _ => .ok []
  | fuel + 1, j =>
      if j < m.length then do
        let side ← substr .outOfRange m j 1
        return ("side", side) :: (← busySides m fuel (j + 1))
      else .ok []

/-- The number of a `TRICK` sent by the server, with the index of its first card. -/
def trickNumber (m : List Char) : Except ScanFault (List Char × Nat) :=
  if m.length ≤ 7 then do return (← substr .outOfRange m 5 m.length, 7)
  else do
    let ind ← charAt .outOfRange m 7
    if ind = 'C' ∨ ind = 'H' ∨ ind = 'D' ∨ ind = 'S' ∨ ind = '0' then
      return (← substr .outOfRange m 5 1, 6)
    else return (← substr .outOfRange m 5 2, 7)

/-- The `switch` over the pattern that matched. -/
def fields (m : List Char) : MsgKind → Except ScanFault ParseResp
  | .iam => do
      return [("type", ['I', 'A', 'M']), ("side", ← substr .outOfRange m 3 1)]
  | .busy => do
      return ("type", ['B', 'U', 'S', 'Y']) :: (← busySides m m.length 4)
  | .deal => do
      let mode ← substr .outOfRange m 4 1
      let side ← substr .outOfRange m 5 1
      return ("type", ['D', 'E', 'A', 'L']) :: ("round_mode", mode) :: ("side", side) ::
        (← dealCards m TRICKS_PER_ROUND 6)
  | .trickS => do
      let (rn, itr) ← trickNumber m
      return ("type", ['T', 'R', 'I', 'C', 'K', '_', 'S']) :: ("rn", rn) :: (← trickCards m m.length itr)
  | .trickC => do
      let ten ← charAt .outOfRange m (← checkedSub .unsignedWrap m.length 2)
      let (card, itr) ←
        if ten = '0' then do
          let card ← substr .outOfRange m (← checkedSub .unsignedWrap m.length 3) 3
          pure (card, ← checkedSub .unsignedWrap m.length 4)
        else do
          let card ← substr .outOfRange m (← checkedSub .unsignedWrap m.length 2) 2
          pure (card, ← checkedSub .unsignedWrap m.length 3)
      let rn ← substr .outOfRange m 5 (← checkedSub .unsignedWrap itr 4)
      return [("card", card), ("rn", rn), ("type", ['T', 'R', 'I', 'C', 'K', '_', 'C'])].reverse
  | .wrong => do
      return [("type", ['W', 'R', 'O', 'N', 'G']), ("rn", ← substr .outOfRange m 5 m.length)]
  | .taken => do
      let side ← substr .outOfRange m (← checkedSub .unsignedWrap m.length 1) m.length
      let (cards, itr) ← takenCards m 4 (← checkedSub .unsignedWrap m.length 2)
      let rn ← substr .outOfRange m 5 (← checkedSub .unsignedWrap itr 4)
      return (("side", side) :: (cards ++ [("rn", rn), ("type", ['T', 'A', 'K', 'E', 'N'])])).reverse
  | .score => do
      return ("type", ['S', 'C', 'O', 'R', 'E']) :: (← scoreFields m 4 5)
  | .total => do
      return ("type", ['T', 'O', 'T', 'A', 'L']) :: (← scoreFields m 4 5)

end NetworkMsgParser

/-- `parseNetMsg`: the first pattern of the receiver's direction that matches decides, and nothing is
returned when none does. -/
def parseNetMsg (m : List Char) (serverSide : Bool) : Except ScanFault ParseResp :=
  match (MsgKind.all.filter fun k => k.forServer == serverSide).find? fun k => k.pattern.rmatch m with
  | none => .ok []
  | some k => NetworkMsgParser.fields m k

end Kierki
