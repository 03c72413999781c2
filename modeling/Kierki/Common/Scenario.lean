import Kierki.Common.Codec

/-!
# The scenario file

`parseScenario` of `common/utils.cpp`, on the text of the file, and the text it reads back.  Every index
into the lines of the file or into the characters of a line is checked here: a reading that succeeds has
stayed in bounds.
-/

namespace Kierki

open Fallible

/-- What keeps `parseScenario` from a scenario: an index out of bounds, or a character that is none of the
ones it is cast from. -/
inductive ScenarioFault
  | lineIndex | charIndex | badMode | badSide | badCard
  deriving DecidableEq, Repr

namespace Scenario

/-- What successive calls of `std::getline` deliver: the text up to each newline, and what is left after
the last one, unless that is empty. -/
def getlines : List Char → List (List Char)
  | [] => []
  | c :: text =>
      if c = '\n' then [] :: getlines text
      else
        match getlines text with
        | [] => [[c]]
        | line :: lines => (c :: line) :: lines

/-- The loop over the cards of a line: `n` more of them, the next one at `iter`. -/
def readCards (line : List Char) : Nat → Nat → Except ScenarioFault Hand
  | 0, _ => .ok []
  | n + 1, iter => do
      let c ← charAt .charIndex line iter
      if c = '1' then
        let card ← require .badCard (Card.fromString (← substr .charIndex line iter 3))
        return card :: (← readCards line n (iter + 1 + 2))
      else
        let card ← require .badCard (Card.fromString (← substr .charIndex line iter 2))
        return card :: (← readCards line n (iter + 2))

/-- The loop over the sides, which fills the map and moves on in the lines. -/
def readHands (lines : List (List Char)) :
    List Side → Nat → TableState → Except ScenarioFault (TableState × Nat)
  | [], ix, state => .ok (state, ix)
  | s_ :: sides, ix, state => do
      let line ← charAt .lineIndex lines ix
      let hand ← readCards line TRICKS_PER_ROUND 0
      readHands lines sides (ix + 1) (Function.update state s_ hand)

variable {lines : List (List Char)} {sides : List Side} {ix ix' : Nat} {state state' : TableState}

theorem readCards_length {line : List Char} {n iter : Nat} {hand : Hand}
    (h : readCards line n iter = .ok hand) : hand.length = n := by
  induction n generalizing iter hand with
  | zero =>
      cases h
      rfl
  | succ n ih =>
      obtain ⟨c, -, h⟩ := bind_eq_ok.mp h
      split at h
      all_goals
        obtain ⟨text, -, h⟩ := bind_eq_ok.mp h
        obtain ⟨card, -, h⟩ := bind_eq_ok.mp h
        obtain ⟨rest, hrest, h⟩ := bind_eq_ok.mp h
        cases h
        exact congrArg (· + 1) (ih hrest)

/-- The loop over the sides leaves thirteen cards with each of them, and takes a line for each. -/
theorem readHands_spec (h : readHands lines sides ix state = .ok (state', ix')) :
    (∀ s, s ∈ sides ∨ (state s).length = TRICKS_PER_ROUND → (state' s).length = TRICKS_PER_ROUND) ∧
      ix' = ix + sides.length := by
  induction sides generalizing ix state with
  | nil =>
      cases h
      exact ⟨fun s hs => hs.resolve_left (List.not_mem_nil), rfl⟩
  | cons s_ sides ih =>
      obtain ⟨line, -, h⟩ := bind_eq_ok.mp h
      obtain ⟨hand, hhand, h⟩ := bind_eq_ok.mp h
      obtain ⟨hlen, rfl⟩ := ih h
      refine ⟨fun s hs => hlen s ?_, ?_⟩
      · by_cases heq : s = s_
        · -- a later line of the same side would overwrite this one with as many cards
          subst heq
          rw [Function.update_self]
          exact .inr (readCards_length hhand)
        · rw [Function.update_of_ne heq]
          exact hs.imp_left fun hmem => (List.mem_cons.mp hmem).resolve_left heq
      · rw [List.length_cons]
        omega

/-- One turn of the loop over the rounds. -/
def readRound (lines : List (List Char)) (ix : Nat) : Except ScenarioFault (Round × Nat) := do
  let line ← charAt .lineIndex lines ix
  let type ← require .badMode (RoundType.ofDigit (← charAt .charIndex line 0))
  let s ← require .badSide (Side.ofChar (← charAt .charIndex line 1))
  -- `state.clear()`: nothing is left of the hands of the round before
  match h : readHands lines Side.sides_ (ix + 1) (fun _ => []) with
  | .error e => .error e
  | .ok (state, ix') =>
      .ok (⟨type, state, s, fun s_ => (readHands_spec h).1 s_ (.inl s_.mem_sides_)⟩, ix')

theorem readRound_ix {r : Round} (h : readRound lines ix = .ok (r, ix')) : ix' = ix + 5 := by
  obtain ⟨line, -, h⟩ := bind_eq_ok.mp h
  obtain ⟨c, -, h⟩ := bind_eq_ok.mp h
  obtain ⟨type, -, h⟩ := bind_eq_ok.mp h
  obtain ⟨d, -, h⟩ := bind_eq_ok.mp h
  obtain ⟨s, -, h⟩ := bind_eq_ok.mp h
  split at h
  · cases h
  · rename_i heq
    cases h
    exact (readHands_spec heq).2

/-- The loop over the rounds. -/
def readRounds (lines : List (List Char)) (ix : Nat) : Except ScenarioFault GameScenario :=
  if ix < lines.length then
    match _h : readRound lines ix with
    | .error e => .error e
    | .ok (r, ix') => (r :: ·) <$> readRounds lines ix'
  else .ok []
termination_by lines.length - ix
decreasing_by
  have := readRound_ix _h
  omega

/-- A hand as a line. -/
def roundLines (r : Round) : List (List Char) :=
  (toStringNat r.mode.number ++ [r.starting.char]) :: Side.sides_.map fun s => cardsText (r.deal s)

/-- The lines of a scenario file. -/
def fileLines (scenario : GameScenario) : List (List Char) := scenario.flatMap roundLines

/-- A file in which a newline ends every line. -/
def ended (lines : List (List Char)) : List Char := lines.flatMap (· ++ ['\n'])

/-- A file in which a newline stands between two lines. -/
def separated (lines : List (List Char)) : List Char := ['\n'].intercalate lines

theorem getlines_append {line : List Char} (hline : '\n' ∉ line) (text : List Char) :
    getlines (line ++ '\n' :: text) = line :: getlines text := by
  induction line with
  | nil => simp [getlines]
  | cons c line ih =>
      obtain ⟨hc, hrest⟩ := List.ne_and_not_mem_of_not_mem_cons hline
      rw [List.cons_append, getlines, if_neg (Ne.symm hc), ih hrest]

/-- A last line without a newline is delivered as well, if it has a character. -/
theorem getlines_last {line : List Char} (hline : '\n' ∉ line) (hne : line ≠ []) :
    getlines line = [line] := by
  induction line with
  | nil => exact absurd rfl hne
  | cons c line ih =>
      obtain ⟨hc, hrest⟩ := List.ne_and_not_mem_of_not_mem_cons hline
      rw [getlines, if_neg (Ne.symm hc)]
      cases line with
      | nil => rfl
      | cons d line => rw [ih hrest (by simp)]

theorem getlines_ended (h : ∀ line ∈ lines, '\n' ∉ line) : getlines (ended lines) = lines := by
  induction lines with
  | nil => rfl
  | cons line lines ih =>
      have htext : ended (line :: lines) = line ++ '\n' :: ended lines := by simp [ended]
      rw [htext, getlines_append (h line List.mem_cons_self),
        ih fun l hl => h l (List.mem_cons_of_mem _ hl)]

theorem getlines_separated (h : ∀ line ∈ lines, '\n' ∉ line ∧ line ≠ []) :
    getlines (separated lines) = lines := by
  induction lines with
  | nil => rfl
  | cons line lines ih =>
      obtain ⟨hline, hne⟩ := h line List.mem_cons_self
      cases lines with
      | nil =>
          have htext : separated [line] = line := by simp [separated]
          rw [htext, getlines_last hline hne]
      | cons next lines =>
          have htext : separated (line :: next :: lines) = line ++ '\n' :: separated (next :: lines) := by
            simp [separated, List.intercalate]
          rw [htext, getlines_append hline, ih fun l hl => h l (List.mem_cons_of_mem _ hl)]

theorem readCards_eq {line u : List Char} {iter : Nat} (cards : List Card)
    (hline : line = u ++ cardsText cards) (hiter : iter = u.length) :
    readCards line cards.length iter = .ok cards := by
  induction cards generalizing u iter with
  | nil => rfl
  | cons c cards ih =>
      have hsplit : line = u ++ (c.toString ++ cardsText cards) := by simp [hline, cardsText]
      obtain ⟨ten, hten, hlen⟩ := card_ahead (e := ScenarioFault.charIndex) hsplit hiter
      have hrest : readCards line cards.length (iter + c.toString.length) = .ok cards :=
        ih (u := u ++ c.toString) (by simp [hsplit]) (by simp [hiter])
      rw [List.length_cons, readCards, hten, ok_bind]
      split at hlen <;> rename_i ht <;> rw [hlen] at hrest
      · rw [if_pos ht, substr_eq hsplit hiter hlen.symm, ok_bind, c.fromString_toString]
        simp only [require, ok_bind, hrest]
        rfl
      · rw [if_neg ht, substr_eq hsplit hiter hlen.symm, ok_bind, c.fromString_toString]
        simp only [require, ok_bind, hrest]
        rfl

/-- The lines of the hands are read back into the hands. -/
theorem readHands_eq {u w : List (List Char)} (deal : TableState)
    (hdealt : ∀ s, (deal s).length = TRICKS_PER_ROUND)
    (hlines : lines = u ++ (sides.map fun s => cardsText (deal s)) ++ w)
    (hix : ix = u.length) :
    ∃ state', readHands lines sides ix state = .ok (state', ix + sides.length) ∧
      ∀ s, (s ∈ sides ∨ state s = deal s) → state' s = deal s := by
  induction sides generalizing u ix state with
  | nil => exact ⟨state, rfl, fun s hs => hs.resolve_left List.not_mem_nil⟩
  | cons s_ sides ih =>
      obtain ⟨state', hread, hstate'⟩ :
          ∃ state', readHands lines sides (ix + 1) (Function.update state s_ (deal s_)) =
              .ok (state', ix + 1 + sides.length) ∧
            ∀ s, (s ∈ sides ∨ Function.update state s_ (deal s_) s = deal s) → state' s = deal s :=
        ih (u := u ++ [cardsText (deal s_)]) (by simp [hlines]) (by simp [hix])
      have hline : charAt ScenarioFault.lineIndex lines ix = .ok (cardsText (deal s_)) :=
        charAt_eq (w := (sides.map fun s => cardsText (deal s)) ++ w) (by simp [hlines]) hix
      have hcards : readCards (cardsText (deal s_)) TRICKS_PER_ROUND 0 = .ok (deal s_) := by
        rw [← hdealt s_]
        exact readCards_eq (u := []) (deal s_) rfl rfl
      refine ⟨state', ?_, fun s hs => hstate' s ?_⟩
      · rw [readHands, hline, ok_bind, hcards, ok_bind, hread, List.length_cons]
        simp only [Except.ok.injEq, Prod.mk.injEq, true_and]
        omega
      · by_cases heq : s = s_
        · exact .inr (by rw [heq, Function.update_self])
        · rw [Function.update_of_ne heq]
          exact hs.imp_left fun hmem => (List.mem_cons.mp hmem).resolve_left heq

theorem readRound_eq {u w : List (List Char)} (r : Round) (hlines : lines = u ++ roundLines r ++ w)
    (hix : ix = u.length) : readRound lines ix = .ok (r, ix + 5) := by
  obtain ⟨digit, hnumber, hdigit⟩ := digit_toStringNat r.mode
  have hside : Side.ofChar r.starting.char = some r.starting := by cases r.starting <;> rfl
  have hsplit : lines = (u ++ [[digit, r.starting.char]]) ++
      (Side.sides_.map fun s => cardsText (r.deal s)) ++ w := by
    rw [hlines, roundLines, hnumber]
    simp
  have hline : charAt ScenarioFault.lineIndex lines ix = .ok [digit, r.starting.char] :=
    charAt_eq (w := (Side.sides_.map fun s => cardsText (r.deal s)) ++ w) (by simp [hsplit]) hix
  have hnext : ix + 1 = (u ++ [[digit, r.starting.char]]).length := by simp [hix]
  obtain ⟨state, hread, hstate⟩ := readHands_eq r.deal r.dealt hsplit hnext
  have hdeal : state = r.deal := funext fun s => hstate s (.inl s.mem_sides_)
  rw [readRound, hline, ok_bind]
  show (require ScenarioFault.badMode (RoundType.ofDigit digit) >>= fun type => _) = _
  rw [hdigit, show require ScenarioFault.badMode (some r.mode) = .ok r.mode from rfl, ok_bind]
  show (require ScenarioFault.badSide (Side.ofChar r.starting.char) >>= fun s => _) = _
  rw [hside, show require ScenarioFault.badSide (some r.starting) = .ok r.starting from rfl, ok_bind]
  split
  · rename_i heq
    rw [hread] at heq
    cases heq
  · rename_i heq
    rw [hread] at heq
    cases heq
    subst hdeal
    rfl

/-- The lines of a scenario are read back into the scenario. -/
theorem readRounds_eq {u : List (List Char)} (scenario : GameScenario)
    (hlines : lines = u ++ fileLines scenario) (hix : ix = u.length) :
    readRounds lines ix = .ok scenario := by
  induction scenario generalizing u ix with
  | nil =>
      have hend : ¬ ix < lines.length := by simp [hlines, hix, fileLines]
      rw [readRounds, if_neg hend]
  | cons r scenario ih =>
      have hsplit : lines = u ++ roundLines r ++ fileLines scenario := by
        simp [hlines, fileLines]
      have hlen : (roundLines r).length = 5 := rfl
      have hlt : ix < lines.length := by
        rw [hsplit, List.length_append, List.length_append, hix, hlen]
        omega
      rw [readRounds, if_pos hlt]
      split
      · rename_i heq
        rw [readRound_eq r hsplit hix] at heq
        cases heq
      · rename_i heq
        rw [readRound_eq r hsplit hix] at heq
        cases heq
        rw [ih hsplit (by simp [hix, hlen])]
        rfl

/-- No line of a scenario is empty, and no newline stands in one. -/
theorem fileLines_text (scenario : GameScenario) :
    ∀ line ∈ fileLines scenario, '\n' ∉ line ∧ line ≠ [] := by
  have hcard : ∀ c : Card, '\n' ∉ c.toString := by decide
  have hhead : ∀ r : RoundType, ∀ s : Side, '\n' ∉ toStringNat r.number ++ [s.char] := by
    intro r s
    cases r <;> cases s <;> decide
  intro line hline
  obtain ⟨r, -, hline⟩ := List.mem_flatMap.mp hline
  rcases List.mem_cons.mp hline with rfl | hline
  · exact ⟨hhead r.mode r.starting, by simp⟩
  · obtain ⟨s, -, rfl⟩ := List.mem_map.mp hline
    refine ⟨fun hmem => ?_, fun hnil => ?_⟩
    · obtain ⟨c, -, hmem⟩ := List.mem_flatMap.mp hmem
      exact hcard c hmem
    · -- there are thirteen cards in the line, and none has an empty name
      obtain ⟨c, hc⟩ : ∃ c, c ∈ r.deal s := List.exists_mem_of_length_pos (by rw [r.dealt s]; decide)
      have hlen := c.toString_pos
      rw [List.flatMap_eq_nil_iff.mp hnil c hc] at hlen
      exact absurd hlen (by decide)

end Scenario

/-- `parseScenario`, on the text of the file. -/
def parseScenario (text : List Char) : Except ScenarioFault GameScenario :=
  Scenario.readRounds (Scenario.getlines text) 0

/-- **Scenario files round-trip**: the rounds of a file are read back as they were written, whether or not
a newline ends the last line, with every index in bounds. -/
theorem parseScenario_roundtrip (scenario : GameScenario) :
    parseScenario (Scenario.ended (Scenario.fileLines scenario)) = .ok scenario ∧
      parseScenario (Scenario.separated (Scenario.fileLines scenario)) = .ok scenario := by
  have htext := Scenario.fileLines_text scenario
  refine ⟨?_, ?_⟩
  · rw [parseScenario, Scenario.getlines_ended fun line hline => (htext line hline).1]
    exact Scenario.readRounds_eq (u := []) scenario rfl rfl
  · rw [parseScenario, Scenario.getlines_separated htext]
    exact Scenario.readRounds_eq (u := []) scenario rfl rfl

end Kierki
