import Kierki.Common.NetworkMsgParser

/-!
# The wire format

`Valid k job` says that `job` is a message of kind `k` with the sizes and numbers the protocol allows.
The patterns accept exactly the texts of valid messages (`spells_pattern`), and on such a text the index
scans find the fields the message was built from (`fields_body`).  Together: parsing inverts printing,
and a message that is accepted is its keyword followed by the fields.
-/

namespace Kierki

open RegularExpression Patterns Fallible NetworkMsgParser

/-- A trick number on the wire. -/
def TrickNumber (n : Nat) : Prop := 1 ≤ n ∧ n ≤ TRICKS_PER_ROUND

instance (n : Nat) : Decidable (TrickNumber n) := by
  unfold TrickNumber
  infer_instance

/-- The messages of a kind. -/
def MsgKind.Valid : MsgKind → SendJob → Prop
  | .iam, .intro _ => True
  | .busy, .busy sides => 1 ≤ sides.length ∧ sides.length ≤ 4
  | .deal, .deal _ _ cards => cards.length = TRICKS_PER_ROUND
  | .trickS, .trick table n => TrickNumber n ∧ table.length ≤ 3
  | .trickC, .trick table n => TrickNumber n ∧ table.length = 1
  | .wrong, .wrong n => TrickNumber n
  | .taken, .taken cards _ n => TrickNumber n ∧ cards.length = 4
  | .score, .score scores => scores.length = 4
  | .total, .total scores => scores.length = 4
  | _, _ => False

/-- The value of the field `type`. -/
def MsgKind.typeName : MsgKind → List Char
  | .iam => ['I', 'A', 'M']
  | .busy => ['B', 'U', 'S', 'Y']
  | .deal => ['D', 'E', 'A', 'L']
  | .trickS => ['T', 'R', 'I', 'C', 'K', '_', 'S']
  | .trickC => ['T', 'R', 'I', 'C', 'K', '_', 'C']
  | .wrong => ['W', 'R', 'O', 'N', 'G']
  | .taken => ['T', 'A', 'K', 'E', 'N']
  | .score => ['S', 'C', 'O', 'R', 'E']
  | .total => ['T', 'O', 'T', 'A', 'L']

/-- Cards as fields. -/
def cardFields (cards : List Card) : ParseResp := cards.map fun c => ("card", c.toString)

/-- Score maps as fields. -/
def scoreEntries (scores : List (Side × Nat)) : ParseResp :=
  scores.flatMap fun p => [("side", [p.1.char]), ("score", toStringNat p.2)]

/-- The fields a message is built from, in order. -/
def SendJob.fields : SendJob → ParseResp
  | busy sides => sides.map fun s => ("side", [s.char])
  | deal roundType starting cards =>
      ("round_mode", toStringNat roundType.number) :: ("side", [starting.char]) :: cardFields cards
  | intro s => [("side", [s.char])]
  | score scores => scoreEntries scores
  | taken cards s n => ("rn", toStringNat n) :: (cardFields cards ++ [("side", [s.char])])
  | total scores => scoreEntries scores
  | trick table n => ("rn", toStringNat n) :: cardFields table
  | wrong n => [("rn", toStringNat n)]

section Spelling

theorem spells_SIDE : Spells SIDE_ (fun _ : Side => True) fun s => [s.char] := by
  refine spells_oneOf fun c => ⟨fun h => ?_, ?_⟩
  · simp only [List.mem_cons, List.not_mem_nil, or_false] at h
    rcases h with rfl | rfl | rfl | rfl
    exacts [⟨.N, rfl⟩, ⟨.S, rfl⟩, ⟨.E, rfl⟩, ⟨.W, rfl⟩]
  · rintro ⟨s, rfl⟩
    cases s <;> simp [Side.char]

theorem spells_color : Spells (oneOf ['C', 'D', 'H', 'S']) (fun _ : Color => True)
    fun c => [c.char] := by
  refine spells_oneOf fun c => ⟨fun h => ?_, ?_⟩
  · simp only [List.mem_cons, List.not_mem_nil, or_false] at h
    rcases h with rfl | rfl | rfl | rfl
    exacts [⟨.colorC, rfl⟩, ⟨.colorD, rfl⟩, ⟨.colorH, rfl⟩, ⟨.colorS, rfl⟩]
  · rintro ⟨s, rfl⟩
    cases s <;> simp [Color.char]

/-- The part of `CARD_` for the value. -/
theorem spells_value :
    Spells (oneOf ['2', '3', '4', '5', '6', '7', '8', '9'] + (lit ['1', '0'] + (char 'J' +
      (char 'Q' + (char 'K' + char 'A'))))) (fun _ : CardValue => True) CardValue.text := by
  intro x
  have hchar (c : Char) : x ∈ (char c).matches' ↔ x = [c] := Set.mem_singleton_iff
  simp only [matches'_add, Language.mem_add, mem_oneOf, mem_lit, hchar, List.mem_cons,
    List.not_mem_nil, or_false]
  constructor
  · rintro (⟨c, rfl | rfl | rfl | rfl | rfl | rfl | rfl | rfl, rfl⟩ | rfl | rfl | rfl | rfl | rfl)
    exacts [⟨.v2, trivial, rfl⟩, ⟨.v3, trivial, rfl⟩, ⟨.v4, trivial, rfl⟩, ⟨.v5, trivial, rfl⟩,
      ⟨.v6, trivial, rfl⟩, ⟨.v7, trivial, rfl⟩, ⟨.v8, trivial, rfl⟩, ⟨.v9, trivial, rfl⟩,
      ⟨.v10, trivial, rfl⟩, ⟨.J, trivial, rfl⟩, ⟨.Q, trivial, rfl⟩, ⟨.K, trivial, rfl⟩,
      ⟨.A, trivial, rfl⟩]
  · rintro ⟨v, -, rfl⟩
    cases v <;> simp [CardValue.text]

theorem spells_CARD : Spells CARD_ (fun _ : Card => True) Card.toString :=
  (spells_value.mul spells_color).congr
    (fun vc _ => ⟨⟨vc.1, vc.2⟩, trivial, rfl⟩) fun c _ => ⟨(c.value, c.col), ⟨trivial, trivial⟩, rfl⟩

theorem spells_RN : Spells RN_ TrickNumber toStringNat := by
  intro x
  rw [RN_, matches'_add, Language.mem_add, matches'_mul, Language.mem_mul, mem_oneOf]
  constructor
  · rintro (⟨c, hc, rfl⟩ | ⟨a, ha, b, hb, rfl⟩)
    · obtain ⟨d, hpos, hd, rfl⟩ := mem_nonzeroDigits.mp hc
      exact ⟨d, ⟨hpos, by simp only [TRICKS_PER_ROUND]; omega⟩, Nat.toDigits_of_lt_base hd⟩
    · obtain rfl : a = ['1'] := ha
      obtain ⟨c, hc, rfl⟩ := mem_oneOf.mp hb
      simp only [List.mem_cons, List.not_mem_nil, or_false] at hc
      rcases hc with rfl | rfl | rfl | rfl
      exacts [⟨10, by decide, rfl⟩, ⟨11, by decide, rfl⟩, ⟨12, by decide, rfl⟩,
        ⟨13, by decide, rfl⟩]
  · rintro ⟨n, ⟨hpos, hle⟩, rfl⟩
    rcases Nat.lt_or_ge n 10 with hlt | hge
    · refine .inl ⟨n.digitChar, mem_nonzeroDigits.mpr ⟨n, hpos, hlt, rfl⟩, ?_⟩
      exact Nat.toDigits_of_lt_base hlt
    · refine .inr ⟨['1'], rfl, [(n % 10).digitChar], mem_oneOf.mpr ⟨_, ?_, rfl⟩, ?_⟩ <;>
        (simp only [TRICKS_PER_ROUND] at hle; interval_cases n <;> simp [toStringNat] <;> decide)

theorem spells_mode : Spells (oneOf ['1', '2', '3', '4', '5', '6', '7']) (fun _ : RoundType => True)
    fun r => toStringNat r.number := by
  have hdigit (r : RoundType) : toStringNat r.number = [r.number.digitChar] := by
    cases r <;> rfl
  simp only [hdigit]
  refine spells_oneOf fun c => ⟨fun h => ?_, ?_⟩
  · simp only [List.mem_cons, List.not_mem_nil, or_false] at h
    rcases h with rfl | rfl | rfl | rfl | rfl | rfl | rfl
    exacts [⟨.trickPenalty, rfl⟩, ⟨.heartPenalty, rfl⟩, ⟨.queenPenalty, rfl⟩,
      ⟨.kingJackPenalty, rfl⟩, ⟨.heartKingPenalty, rfl⟩, ⟨.seventhLastTrickPenalty, rfl⟩,
      ⟨.everything, rfl⟩]
  · rintro ⟨r, rfl⟩
    cases r <;> simp [RoundType.number]

theorem sides_text (sides : List Side) :
    (sides.flatMap fun s => [s.char]) = sides.map Side.char := by
  induction sides with
  | nil => rfl
  | cons s sides ih => rw [List.flatMap_cons, ih]; rfl

/-- A score map has a side and a number four times over. -/
theorem spells_scores : Spells ((SIDE_ * numeral) ^ 4)
    (fun scores : List (Side × Nat) => scores.length = 4) scoresText :=
  ((spells_SIDE.mul spells_numeral).pow 4).congr (fun scores h => ⟨scores, h.1, rfl⟩)
    fun scores h => ⟨scores, ⟨h, fun _ _ => ⟨trivial, trivial⟩⟩, rfl⟩

/-- **The patterns accept the texts of the valid messages**, and nothing else. -/
theorem spells_pattern (k : MsgKind) : Spells k.pattern k.Valid SendJob.body := by
  cases k with
  | iam =>
      refine ((spells_lit _).mul spells_SIDE).congr (fun v _ => ⟨.intro v.2, trivial, rfl⟩) ?_
      intro job h
      cases job with
      | intro s => exact ⟨((), s), ⟨trivial, trivial⟩, rfl⟩
      | _ => exact h.elim
  | busy =>
      refine ((spells_lit _).mul (spells_SIDE.between 1 4)).congr ?_ ?_
      · rintro ⟨_, sides⟩ ⟨-, hmin, hmax, -⟩
        exact ⟨.busy sides, ⟨hmin, hmax⟩,
          congrArg (MsgKind.busy.keyword ++ ·) (sides_text sides).symm⟩
      · intro job h
        cases job with
        | busy sides =>
            exact ⟨((), sides), ⟨trivial, h.1, h.2, fun _ _ => trivial⟩,
              congrArg (MsgKind.busy.keyword ++ ·) (sides_text sides)⟩
        | _ => exact h.elim
  | deal =>
      refine ((spells_lit _).mul (spells_mode.mul (spells_SIDE.mul (spells_CARD.pow 13)))).congr ?_ ?_
      · rintro ⟨_, mode, s, cards⟩ ⟨-, -, -, hlen, -⟩
        exact ⟨.deal mode s cards, hlen, by simp [SendJob.body, cardsText, MsgKind.keyword]⟩
      · intro job h
        cases job with
        | deal mode s cards =>
            exact ⟨((), mode, s, cards), ⟨trivial, trivial, trivial, h, fun _ _ => trivial⟩,
              by simp [SendJob.body, cardsText, MsgKind.keyword]⟩
        | _ => exact h.elim
  | trickS =>
      refine ((spells_lit _).mul (spells_RN.mul (spells_CARD.between 0 3))).congr ?_ ?_
      · -- up to three cards lie on the table of a prompt
        rintro ⟨_, n, table⟩ ⟨-, hn, -, hlen, -⟩
        exact ⟨.trick table n, ⟨hn, hlen⟩, by simp [SendJob.body, cardsText, MsgKind.keyword]⟩
      · intro job h
        cases job with
        | trick table n =>
            exact ⟨((), n, table), ⟨trivial, h.1, Nat.zero_le _, h.2, fun _ _ => trivial⟩,
              by simp [SendJob.body, cardsText, MsgKind.keyword]⟩
        | _ => exact h.elim
  | trickC =>
      refine ((spells_lit _).mul (spells_RN.mul spells_CARD)).congr ?_ ?_
      · rintro ⟨_, n, c⟩ ⟨-, hn, -⟩
        exact ⟨.trick [c] n, ⟨hn, rfl⟩, by simp [SendJob.body, cardsText, MsgKind.keyword]⟩
      · intro job h
        cases job with
        | trick table n =>
            -- the client's `TRICK` has one card
            obtain ⟨c, rfl⟩ := List.length_eq_one_iff.mp h.2
            exact ⟨((), n, c), ⟨trivial, h.1, trivial⟩,
              by simp [SendJob.body, cardsText, MsgKind.keyword]⟩
        | _ => exact h.elim
  | wrong =>
      refine ((spells_lit _).mul spells_RN).congr (fun v h => ⟨.wrong v.2, h.2, rfl⟩) ?_
      intro job h
      cases job with
      | wrong n => exact ⟨((), n), ⟨trivial, h⟩, rfl⟩
      | _ => exact h.elim
  | taken =>
      refine ((spells_lit _).mul (spells_RN.mul ((spells_CARD.pow 4).mul spells_SIDE))).congr ?_ ?_
      · rintro ⟨_, n, cards, s⟩ ⟨-, hn, ⟨hlen, -⟩, -⟩
        exact ⟨.taken cards s n, ⟨hn, hlen⟩, by simp [SendJob.body, cardsText, MsgKind.keyword]⟩
      · intro job h
        cases job with
        | taken cards s n =>
            exact ⟨((), n, cards, s), ⟨trivial, h.1, ⟨h.2, fun _ _ => trivial⟩, trivial⟩,
              by simp [SendJob.body, cardsText, MsgKind.keyword]⟩
        | _ => exact h.elim
  | score =>
      refine ((spells_lit _).mul spells_scores).congr (fun v h => ⟨.score v.2, h.2, rfl⟩) ?_
      intro job h
      cases job with
      | score scores => exact ⟨((), scores), ⟨trivial, h⟩, rfl⟩
      | _ => exact h.elim
  | total =>
      refine ((spells_lit _).mul spells_scores).congr (fun v h => ⟨.total v.2, h.2, rfl⟩) ?_
      intro job h
      cases job with
      | total scores => exact ⟨((), scores), ⟨trivial, h⟩, rfl⟩
      | _ => exact h.elim

end Spelling

section Scanning

variable {m u w : List Char} {i k : Nat}

/-- A card is a ten, of three characters, or a character that is neither of the two of a ten, followed
by the colour. -/
theorem Card.toString_cases (c : Card) : c.toString = ['1', '0', c.col.char] ∨
    ∃ a, a ≠ '1' ∧ a ≠ '0' ∧ a ∉ ['C', 'H', 'D', 'S'] ∧ c.toString = [a, c.col.char] := by
  obtain ⟨v, col⟩ := c
  cases v with
  | v10 => exact .inl rfl
  | _ => exact .inr ⟨_, by decide, by decide, by decide, rfl⟩

/-- What the forward scans see of the card in front of them. -/
theorem card_ahead {ε : Type} {e : ε} {c : Card} (hm : m = u ++ (c.toString ++ w)) (hitr : i = u.length) :
    ∃ ten, charAt e m i = .ok ten ∧
      c.toString.length = if ten = '1' then 3 else 2 := by
  rcases c.toString_cases with h | ⟨a, h1, -, -, h⟩ <;> rw [h] at hm ⊢
  · exact ⟨'1', charAt_eq hm hitr, rfl⟩
  · exact ⟨a, charAt_eq hm hitr, by rw [if_neg h1]; rfl⟩

/-- What the backward scans see of the card behind them, which ends before the index `i + 1`. -/
theorem card_behind {c : Card} (hm : m = u ++ (c.toString ++ w))
    (hitr : i = (u ++ c.toString).length) :
    ∃ ten, charAt ScanFault.outOfRange m (i - 2) = .ok ten ∧
      c.toString.length = if ten = '0' then 3 else 2 := by
  rcases c.toString_cases with h | ⟨a, -, h0, -, h⟩ <;> rw [h] at hm hitr ⊢
  · exact ⟨'0', charAt_eq (u := u ++ ['1']) (w := c.col.char :: w) (by simp [hm])
      (by simp [hitr]), rfl⟩
  · exact ⟨a, charAt_eq hm (by simp [hitr]), by rw [if_neg h0]; rfl⟩

theorem dealCards_eq (cards : List Card) (hm : m = u ++ (cardsText cards ++ w))
    (hitr : i = u.length) : dealCards m cards.length i = .ok (cardFields cards) := by
  induction cards generalizing u i with
  | nil => rfl
  | cons c cards ih =>
      have hm' : m = u ++ (c.toString ++ (cardsText cards ++ w)) := by simp [hm, cardsText]
      obtain ⟨ten, hten, hlen⟩ := card_ahead hm' hitr
      have hrest := ih (u := u ++ c.toString) (i := i + c.toString.length) (by simp [hm'])
        (by simp [hitr])
      rw [List.length_cons, dealCards, hten, ok_bind]
      split at hlen <;> rename_i ht <;> rw [hlen] at hrest
      · rw [if_pos ht, substr_eq hm' hitr hlen.symm, ok_bind, hrest]
        rfl
      · rw [if_neg ht, substr_eq hm' hitr hlen.symm, ok_bind, hrest]
        rfl

theorem Card.toString_pos (c : Card) : 2 ≤ c.toString.length := by
  rcases c.toString_cases with h | ⟨a, -, -, -, h⟩ <;> simp [h]

theorem trickCards_eq (cards : List Card) (hm : m = u ++ cardsText cards)
    (hitr : i = u.length) (hfuel : m.length ≤ i + k) :
    trickCards m k i = .ok (cardFields cards) := by
  induction cards generalizing u i k with
  | nil =>
      have hend : ¬ i < m.length := by simp [hm, cardsText, hitr]
      cases k with
      | zero => rfl
      | succ k => rw [trickCards, if_neg hend]; rfl
  | cons c cards ih =>
      have hm' : m = u ++ (c.toString ++ cardsText cards) := by simp [hm, cardsText]
      have hpos := c.toString_pos
      have hlt : i < m.length := by simp only [hm', List.length_append, hitr]; omega
      obtain ⟨ten, hten, hlen⟩ := card_ahead hm' hitr
      cases k with
      | zero => omega
      | succ k =>
          have hrest := ih (u := u ++ c.toString) (i := i + c.toString.length)
            (k := k) (by simp [hm']) (by simp [hitr]) (by omega)
          rw [trickCards, if_pos hlt, hten, ok_bind]
          split at hlen <;> rename_i ht <;> rw [hlen] at hrest
          · rw [if_pos ht, substr_eq hm' hitr hlen.symm, ok_bind, hrest]
            rfl
          · rw [if_neg ht, substr_eq hm' hitr hlen.symm, ok_bind, hrest]
            rfl

/-- The scan from the last card back finds the cards in reverse, and stops in front of them. -/
theorem takenCards_eq (cards : List Card) (hm : m = u ++ (cardsText cards ++ w))
    (hpre : 0 < u.length) (hitr : i + 1 = (u ++ cardsText cards).length) :
    takenCards m cards.length i = .ok ((cardFields cards).reverse, u.length - 1) := by
  induction cards using List.reverseRecOn generalizing w i with
  | nil =>
      have : i = u.length - 1 := by simp [cardsText] at hitr; omega
      rw [this]
      rfl
  | append_singleton cards c ih =>
      have hm' : m = (u ++ cardsText cards) ++ (c.toString ++ w) := by simp [hm, cardsText]
      have hitr' : i + 1 = (u ++ cardsText cards ++ c.toString).length := by
        simp [hitr, cardsText]
      obtain ⟨ten, hten, hlen⟩ := card_behind hm' hitr'
      have hpos := c.toString_pos
      rw [List.length_append] at hitr'
      have hsum : (u ++ cardsText cards).length = u.length + (cardsText cards).length := by simp
      have hrest := ih (w := c.toString ++ w) (i := i - c.toString.length) (by simp [hm'])
        (by omega)
      rw [List.length_append, List.length_singleton, takenCards, checkedSub_eq (by omega), ok_bind,
        show i - 1 = i + 1 - 2 from rfl, hten, ok_bind]
      split at hlen <;> rename_i ht <;> rw [hlen] at hrest hitr'
      · rw [if_pos ht, checkedSub_eq (by omega), ok_bind, substr_eq hm' (by omega) hlen.symm, ok_bind,
          checkedSub_eq (by omega), ok_bind, hrest]
        simp [cardFields, pure_eq]
      · rw [if_neg ht, ok_bind, substr_eq hm' (by omega) hlen.symm, ok_bind,
          checkedSub_eq (by omega), ok_bind, hrest]
        simp [cardFields, pure_eq]

theorem isDigit_of_mem {c : Char} (h : c ∈ digits) : isDigit c = true := by
  obtain ⟨d, hd, rfl⟩ := mem_digits.mp h
  interval_cases d <;> rfl

theorem isDigit_side (s : Side) : isDigit s.char = false := by
  cases s <;> rfl

/-- The scan stops at the last digit when something else, or nothing, follows. -/
theorem numberEnd_eq {d : Char} (ds : List Char) (hm : m = u ++ (d :: ds ++ w))
    (hds : ∀ c ∈ ds, c ∈ digits) (hpost : ∀ c ∈ w.head?, isDigit c = false)
    (hitr : i = u.length) (hfuel : m.length ≤ i + k) :
    numberEnd m k i = .ok (i + ds.length) := by
  induction ds generalizing d u i k with
  | nil =>
      cases k with
      | zero => rfl
      | succ k =>
          rw [numberEnd]
          cases w with
          | nil =>
              rw [if_neg (by simp [hm, hitr])]
              rfl
          | cons c w =>
              have hlt : i + 1 < m.length := by simp [hm, hitr]
              have hat : charAt ScanFault.outOfRange m (i + 1) = .ok c :=
                charAt_eq (u := u ++ [d]) (w := w) (by simp [hm]) (by simp [hitr])
              rw [if_pos hlt, hat, ok_bind, hpost c rfl]
              rfl
  | cons e ds ih =>
      have hlt : i + 1 < m.length := by simp [hm, hitr]
      have hat : charAt ScanFault.outOfRange m (i + 1) = .ok e :=
        charAt_eq (u := u ++ [d]) (w := ds ++ w) (by simp [hm]) (by simp [hitr])
      cases k with
      | zero => omega
      | succ k =>
          have hrest := ih (d := e) (u := u ++ [d]) (i := i + 1) (k := k)
            (by simp [hm]) (fun c hc => hds c (List.mem_cons_of_mem _ hc)) (by simp [hitr]) (by omega)
          rw [numberEnd, if_pos hlt, hat, ok_bind, isDigit_of_mem (hds e List.mem_cons_self),
            if_pos rfl, hrest, List.length_cons]
          congr 1
          omega

theorem toStringNat_eq (n : Nat) : ∃ d ds, toStringNat n = d :: ds ∧ ∀ c ∈ ds, c ∈ digits := by
  rcases Nat.eq_zero_or_pos n with rfl | hpos
  · exact ⟨'0', [], rfl, by simp⟩
  · obtain ⟨d, -, ds, hds, h⟩ := toDigits_of_pos hpos
    exact ⟨d, ds, h, hds⟩

theorem scoreFields_eq (scores : List (Side × Nat)) (hm : m = u ++ scoresText scores)
    (hitr : i = u.length) :
    scoreFields m scores.length i = .ok (scoreEntries scores) := by
  induction scores generalizing u i with
  | nil => rfl
  | cons p scores ih =>
      obtain ⟨s, n⟩ := p
      obtain ⟨d, ds, htext, hds⟩ := toStringNat_eq n
      have hm' : m = (u ++ [s.char]) ++ (d :: ds ++ scoresText scores) := by
        simp [hm, scoresText, htext]
      have hlen : (u ++ [s.char]).length = i + 1 := by simp [hitr]
      have hpost : ∀ c ∈ (scoresText scores).head?, isDigit c = false := by
        cases scores with
        | nil => simp [scoresText]
        | cons p scores => simp [scoresText, isDigit_side]
      have hside : substr ScanFault.outOfRange m i 1 = .ok [s.char] :=
        substr_eq (u := u) (w := d :: ds ++ scoresText scores) (by simp [hm']) hitr rfl
      have hend := numberEnd_eq ds hm' hds hpost hlen.symm (k := m.length) (by omega)
      have hnumber : substr ScanFault.outOfRange m (i + 1) (ds.length + 1) = .ok (d :: ds) :=
        substr_eq hm' hlen.symm rfl
      have hrest := ih (u := u ++ [s.char] ++ d :: ds) (i := i + 1 + ds.length + 1)
        (by simp [hm']) (by simp [hitr]; omega)
      simp only [List.length_cons, scoreFields, hside, ok_bind, hend,
        checkedSub_eq (Nat.le_add_right (i + 1) ds.length), Nat.add_sub_cancel_left, hnumber, hrest,
        pure_eq, scoreEntries, List.flatMap_cons, htext, List.cons_append, List.nil_append]

theorem busySides_eq (sides : List Side) (hm : m = u ++ sides.map Side.char)
    (hitr : i = u.length) (hfuel : m.length ≤ i + k) :
    busySides m k i = .ok (sides.map fun s => ("side", [s.char])) := by
  induction sides generalizing u i k with
  | nil =>
      cases k with
      | zero => rfl
      | succ k => rw [busySides, if_neg (by simp [hm, hitr])]; rfl
  | cons s sides ih =>
      have hlt : i < m.length := by simp [hm, hitr]
      cases k with
      | zero => omega
      | succ k =>
          have hside : substr ScanFault.outOfRange m i 1 = .ok [s.char] :=
            substr_eq (w := sides.map Side.char) (by simp [hm]) hitr rfl
          have hrest := ih (u := u ++ [s.char]) (i := i + 1) (k := k) (by simp [hm])
            (by simp [hitr]) (by omega)
          rw [busySides, if_pos hlt, hside, ok_bind, hrest]
          rfl

/-- A trick number has one digit or two. -/
theorem TrickNumber.text {n : Nat} (h : TrickNumber n) :
    ∃ d, toStringNat n = [d] ∨ toStringNat n = ['1', d] := by
  obtain ⟨hpos, hle⟩ := h
  simp only [TRICKS_PER_ROUND] at hle
  interval_cases n
  all_goals first
    | exact ⟨_, .inl rfl⟩
    | exact ⟨_, .inr rfl⟩

/-- The forward scan of a `TRICK` tells one digit from two by the character after the second: behind
one digit it is the colour of a card or the zero of a ten, behind two it begins a card. -/
theorem trickNumber_eq {n : Nat} (hn : TrickNumber n) (table : List Card) {m : List Char}
    (hm : m = MsgKind.trickS.keyword ++ (toStringNat n ++ cardsText table)) :
    ∃ i, trickNumber m = .ok (toStringNat n, i) ∧
      trickCards m m.length i = .ok (cardFields table) := by
  cases table with
  | nil =>
      -- no card: the number is all that is left of the message
      have hshort : m.length ≤ 7 := by
        obtain ⟨d, h | h⟩ := hn.text <;> simp [hm, h, MsgKind.keyword, cardsText]
      have hrest : substr ScanFault.outOfRange m 5 m.length = .ok (toStringNat n) :=
        substr_rest (by simp [hm, cardsText]; rfl) rfl (by simp [hm]; omega)
      refine ⟨7, by rw [trickNumber, if_pos hshort, hrest]; rfl, ?_⟩
      cases hlen : m.length with
      | zero => rfl
      | succ k => rw [trickCards, if_neg (by omega)]; rfl
  | cons c table =>
      have hpos := c.toString_pos
      obtain ⟨d, h | h⟩ := hn.text
      · -- one digit: the eighth character is the colour of the first card, or the zero of a ten
        have hlong : ¬ m.length ≤ 7 := by
          simp [hm, h, MsgKind.keyword, cardsText]
          omega
        have hind : ∃ ind, charAt ScanFault.outOfRange m 7 = .ok ind ∧
            (ind = 'C' ∨ ind = 'H' ∨ ind = 'D' ∨ ind = 'S' ∨ ind = '0') := by
          rcases c.toString_cases with hc | ⟨a, -, -, -, hc⟩
          · exact ⟨'0', charAt_eq (u := ['T', 'R', 'I', 'C', 'K', d, '1'])
              (w := c.col.char :: cardsText table)
              (by simp [hm, h, MsgKind.keyword, cardsText, hc]) rfl, by simp⟩
          · exact ⟨c.col.char, charAt_eq (u := ['T', 'R', 'I', 'C', 'K', d, a])
              (w := cardsText table) (by simp [hm, h, MsgKind.keyword, cardsText, hc]) rfl,
              by cases c.col <;> simp [Color.char]⟩
        obtain ⟨ind, hat, hin⟩ := hind
        have hnumber : substr ScanFault.outOfRange m 5 1 = .ok (toStringNat n) :=
          substr_eq hm rfl (by rw [h]; rfl)
        refine ⟨6, by rw [trickNumber, if_neg hlong, hat, ok_bind, if_pos hin, hnumber]; rfl, ?_⟩
        exact trickCards_eq (u := ['T', 'R', 'I', 'C', 'K', d]) _ (by rw [hm, h]; rfl) rfl (by simp)
      · -- two digits: the eighth character is the value of the first card
        have hlong : ¬ m.length ≤ 7 := by
          simp [hm, h, MsgKind.keyword, cardsText]
          omega
        have hind : ∃ ind, charAt ScanFault.outOfRange m 7 = .ok ind ∧
            ¬ (ind = 'C' ∨ ind = 'H' ∨ ind = 'D' ∨ ind = 'S' ∨ ind = '0') := by
          rcases c.toString_cases with hc | ⟨a, -, h0, ha, hc⟩
          · exact ⟨'1', charAt_eq (u := ['T', 'R', 'I', 'C', 'K', '1', d])
              (w := '0' :: c.col.char :: cardsText table)
              (by simp [hm, h, MsgKind.keyword, cardsText, hc]) rfl, by decide⟩
          · exact ⟨a, charAt_eq (u := ['T', 'R', 'I', 'C', 'K', '1', d])
              (w := c.col.char :: cardsText table)
              (by simp [hm, h, MsgKind.keyword, cardsText, hc]) rfl,
              by simp_all⟩
        obtain ⟨ind, hat, hin⟩ := hind
        have hnumber : substr ScanFault.outOfRange m 5 2 = .ok (toStringNat n) :=
          substr_eq hm rfl (by rw [h]; rfl)
        refine ⟨7, by rw [trickNumber, if_neg hlong, hat, ok_bind, if_neg hin, hnumber]; rfl, ?_⟩
        exact trickCards_eq (u := ['T', 'R', 'I', 'C', 'K', '1', d]) _ (by rw [hm, h]; rfl) rfl
          (by simp)

theorem fields_deal (mode : RoundType) (s : Side) {cards : List Card}
    (h : cards.length = TRICKS_PER_ROUND) {m : List Char}
    (hm : (SendJob.deal mode s cards).body = m) :
    NetworkMsgParser.fields m .deal =
      .ok (("type", MsgKind.typeName .deal) :: (SendJob.deal mode s cards).fields) := by
  obtain ⟨d, hd⟩ : ∃ d, toStringNat mode.number = [d] := by
    cases mode <;> exact ⟨_, rfl⟩
  have hm' : m = MsgKind.deal.keyword ++ ([d] ++ ([s.char] ++ cardsText cards)) := by
    rw [← hm, ← hd]
    simp [SendJob.body, MsgKind.keyword]
  have hmode : substr ScanFault.outOfRange m 4 1 = .ok [d] := substr_eq hm' rfl rfl
  have hside : substr ScanFault.outOfRange m 5 1 = .ok [s.char] :=
    substr_eq (u := MsgKind.deal.keyword ++ [d]) (w := cardsText cards)
      (by rw [hm']; simp) rfl rfl
  have hcards : dealCards m TRICKS_PER_ROUND 6 = .ok (cardFields cards) := by
    rw [← h]
    exact dealCards_eq (u := MsgKind.deal.keyword ++ [d, s.char]) (w := []) cards
      (by rw [hm']; simp) rfl
  simp only [NetworkMsgParser.fields, hmode, hside, hcards, ok_bind, pure_eq, SendJob.fields, hd]
  rfl

/-- The backward scan of a `TRICK` tells a ten by its zero, and what the card leaves is the number. -/
theorem fields_trickC {n : Nat} (hn : TrickNumber n) (c : Card) {m : List Char}
    (hm : (SendJob.trick [c] n).body = m) : NetworkMsgParser.fields m .trickC =
      .ok (("type", MsgKind.typeName .trickC) :: (SendJob.trick [c] n).fields) := by
  have hm' : m = MsgKind.trickC.keyword ++ (toStringNat n ++ c.toString) := by
    rw [← hm]
    simp [SendJob.body, cardsText, MsgKind.keyword]
  have hbehind : m = (MsgKind.trickC.keyword ++ toStringNat n) ++ (c.toString ++ []) := by
    rw [hm']
    simp
  obtain ⟨ten, hten, hlen⟩ := card_behind hbehind rfl
  have hsize : (MsgKind.trickC.keyword ++ toStringNat n ++ c.toString).length = m.length := by
    rw [hm', List.append_assoc]
  have hpre : (MsgKind.trickC.keyword ++ toStringNat n).length = 5 + (toStringNat n).length :=
    List.length_append
  have hlong : m.length = 5 + (toStringNat n).length + c.toString.length := by
    rw [← hsize, List.length_append, hpre]
  -- the scan goes back over the card, and must not reach the keyword
  have hdigits : 1 ≤ (toStringNat n).length := by
    obtain ⟨d, hd | hd⟩ := hn.text <;> rw [hd] <;> simp
  rw [hsize] at hten
  have hcard : substr ScanFault.outOfRange m (m.length - c.toString.length)
      c.toString.length = .ok c.toString :=
    substr_eq hbehind (by omega) rfl
  have hnumber : substr ScanFault.outOfRange m 5 (m.length - c.toString.length - 1 - 4) =
      .ok (toStringNat n) :=
    substr_eq hm' rfl (by omega)
  have hpos := c.toString_pos
  rw [NetworkMsgParser.fields, checkedSub_eq (by omega), ok_bind, hten, ok_bind]
  split at hlen <;> rename_i ht <;> rw [hlen] at hcard hnumber
  · rw [if_pos ht, checkedSub_eq (by omega), ok_bind, hcard, ok_bind, checkedSub_eq (by omega)]
    simp only [ok_bind, pure_eq]
    rw [checkedSub_eq (by omega), ok_bind,
      show m.length - 4 - 4 = m.length - 3 - 1 - 4 by omega, hnumber]
    simp [SendJob.fields, cardFields, MsgKind.typeName]
  · rw [if_neg ht]
    simp only [ok_bind, pure_eq, hcard]
    rw [checkedSub_eq (by omega)]
    simp only [ok_bind]
    rw [checkedSub_eq (by omega), ok_bind,
      show m.length - 3 - 4 = m.length - 2 - 1 - 4 by omega, hnumber]
    simp [SendJob.fields, cardFields, MsgKind.typeName]

/-- The backward scan of a `TAKEN`. -/
theorem fields_taken {n : Nat} (hn : TrickNumber n) (s : Side) {cards : List Card}
    (h : cards.length = 4) {m : List Char} (hm : (SendJob.taken cards s n).body = m) :
    NetworkMsgParser.fields m .taken =
      .ok (("type", MsgKind.typeName .taken) :: (SendJob.taken cards s n).fields) := by
  have hm' : m = (MsgKind.taken.keyword ++ toStringNat n) ++ (cardsText cards ++ [s.char]) := by
    rw [← hm]
    simp [SendJob.body, MsgKind.keyword]
  have hpre : (MsgKind.taken.keyword ++ toStringNat n).length = 5 + (toStringNat n).length :=
    List.length_append
  have hlong : m.length = 5 + (toStringNat n).length + (cardsText cards).length + 1 := by
    rw [hm', List.length_append, hpre, List.length_append, List.length_singleton]
    omega
  -- there are a digit and a card at least, so that no subtraction goes below zero
  have hdigits : 1 ≤ (toStringNat n).length := by
    obtain ⟨d, hd | hd⟩ := hn.text <;> rw [hd] <;> simp
  have hcardsText : 1 ≤ (cardsText cards).length := by
    obtain ⟨c, rest, rfl⟩ := List.exists_cons_of_length_pos (l := cards) (by rw [h]; omega)
    have := c.toString_pos
    simp [cardsText]
    omega
  have hside : substr ScanFault.outOfRange m (m.length - 1) m.length = .ok [s.char] :=
    substr_rest (u := MsgKind.taken.keyword ++ toStringNat n ++ cardsText cards)
      (by rw [hm']; simp) (by rw [List.length_append, hpre]; omega) (by simp; omega)
  have hcards : takenCards m 4 (m.length - 2) =
      .ok ((cardFields cards).reverse, (MsgKind.taken.keyword ++ toStringNat n).length - 1) := by
    rw [← h]
    exact takenCards_eq cards hm' (by omega) (by rw [List.length_append, hpre]; omega)
  have hnumber : substr ScanFault.outOfRange m 5
      ((MsgKind.taken.keyword ++ toStringNat n).length - 1 - 4) = .ok (toStringNat n) :=
    substr_eq (by rw [hm', List.append_assoc]) rfl (by omega)
  rw [NetworkMsgParser.fields, checkedSub_eq (by omega), ok_bind, hside, ok_bind,
    checkedSub_eq (by omega), ok_bind, hcards, ok_bind]
  simp only
  rw [checkedSub_eq (by omega), ok_bind, hnumber]
  simp [SendJob.fields, MsgKind.typeName, pure_eq]

/-- On the text of a valid message the scans find its fields, and every index they use is in range. -/
theorem fields_body {k : MsgKind} {job : SendJob} (h : k.Valid job) :
    NetworkMsgParser.fields job.body k = .ok (("type", k.typeName) :: job.fields) := by
  generalize hm : job.body = m
  cases k with
  | iam =>
      cases job with
      | intro s => subst hm; rfl
      | _ => exact h.elim
  | busy =>
      cases job with
      | busy sides =>
          have hsides : busySides m m.length 4 = .ok (sides.map fun s => ("side", [s.char])) :=
            busySides_eq (u := MsgKind.busy.keyword) sides hm.symm rfl (by omega)
          rw [NetworkMsgParser.fields, hsides]
          rfl
      | _ => exact h.elim
  | deal =>
      cases job with
      | deal mode s cards => exact fields_deal mode s h hm
      | _ => exact h.elim
  | trickS =>
      cases job with
      | trick table n =>
          -- the server's `TRICK` is scanned from the front, the client's from the back
          obtain ⟨i, hnumber, hcards⟩ := trickNumber_eq h.1 table (m := m)
            (by rw [← hm]; exact List.append_assoc ..)
          simp only [NetworkMsgParser.fields, hnumber, hcards, ok_bind, pure_eq, SendJob.fields]
          rfl
      | _ => exact h.elim
  | trickC =>
      cases job with
      | trick table n =>
          obtain ⟨c, rfl⟩ := List.length_eq_one_iff.mp h.2
          exact fields_trickC h.1 c hm
      | _ => exact h.elim
  | wrong =>
      cases job with
      | wrong n =>
          have hnumber : substr ScanFault.outOfRange m 5 m.length = .ok (toStringNat n) :=
            substr_rest (u := MsgKind.wrong.keyword) hm.symm rfl
              (by simp [← hm, SendJob.body, Nat.add_assoc])
          rw [NetworkMsgParser.fields, hnumber]
          rfl
      | _ => exact h.elim
  | taken =>
      cases job with
      | taken cards s n => exact fields_taken h.1 s h.2 hm
      | _ => exact h.elim
  | score =>
      cases job with
      | score scores =>
          have hscores : scoreFields m 4 5 = .ok (scoreEntries scores) := by
            rw [show (4 : Nat) = scores.length from Eq.symm h]
            exact scoreFields_eq (u := MsgKind.score.keyword) scores hm.symm rfl
          rw [NetworkMsgParser.fields, hscores]
          rfl
      | _ => exact h.elim
  | total =>
      cases job with
      | total scores =>
          have hscores : scoreFields m 4 5 = .ok (scoreEntries scores) := by
            rw [show (4 : Nat) = scores.length from Eq.symm h]
            exact scoreFields_eq (u := MsgKind.total.keyword) scores hm.symm rfl
          rw [NetworkMsgParser.fields, hscores]
          rfl
      | _ => exact h.elim

end Scanning

theorem cardFields_text (cards : List Card) :
    (cardFields cards).flatMap Prod.snd = cardsText cards := by
  simp [cardFields, cardsText, List.flatMap_map]

theorem scoreEntries_text (scores : List (Side × Nat)) :
    (scoreEntries scores).flatMap Prod.snd = scoresText scores := by
  simp [scoreEntries, scoresText, List.flatMap_assoc, toStringNat]

/-- A message is its keyword followed by its fields. -/
theorem body_eq_fields {k : MsgKind} {job : SendJob} (h : k.Valid job) :
    job.body = k.keyword ++ job.fields.flatMap Prod.snd := by
  cases k <;> cases job <;> first
    | exact h.elim
    | simp [SendJob.body, SendJob.fields, MsgKind.keyword, cardFields_text, scoreEntries_text,
        List.flatMap_map, sides_text]

/-- The keywords of one direction differ in their first two letters. -/
theorem MsgKind.keyword_injective {k k' : MsgKind} (hdir : k.forServer = k'.forServer)
    (h : k.keyword.take 2 = k'.keyword.take 2) : k = k' := by
  revert hdir h
  cases k <;> cases k' <;> decide

/-- A message belongs to one kind of its direction. -/
theorem kind_unique {k k' : MsgKind} {job job' : SendJob} (h : k.Valid job) (h' : k'.Valid job')
    (hdir : k.forServer = k'.forServer) (heq : job.body = job'.body) : k = k' := by
  have htake (k : MsgKind) (rest : List Char) : (k.keyword ++ rest).take 2 = k.keyword.take 2 :=
    List.take_append_of_le_length (by cases k <;> decide)
  refine MsgKind.keyword_injective hdir ?_
  rw [← htake k, ← htake k', ← body_eq_fields h, ← body_eq_fields h', heq]

theorem mem_all (k : MsgKind) : k ∈ MsgKind.all := by
  cases k <;> decide

/-- **Parsing inverts printing**, in the direction of the receiver. -/
theorem parse_body {k : MsgKind} {job : SendJob} (h : k.Valid job) :
    parseNetMsg job.body k.forServer = .ok (("type", k.typeName) :: job.fields) := by
  have hmatch (k' : MsgKind) : k'.pattern.rmatch job.body = true ↔
      ∃ job', k'.Valid job' ∧ job'.body = job.body :=
    (rmatch_iff_matches' _ _).trans (spells_pattern k' _)
  have hfind : (MsgKind.all.filter fun k' => k'.forServer == k.forServer).find?
      (fun k' => k'.pattern.rmatch job.body) = some k := by
    cases hres : (MsgKind.all.filter fun k' => k'.forServer == k.forServer).find?
      (fun k' => k'.pattern.rmatch job.body) with
    | none =>
        have hmem : k ∈ MsgKind.all.filter fun k' => k'.forServer == k.forServer :=
          List.mem_filter.mpr ⟨mem_all k, beq_self_eq_true _⟩
        exact absurd ((hmatch k).mpr ⟨job, h, rfl⟩) (List.find?_eq_none.mp hres k hmem)
    | some k' =>
        have hdir := (List.mem_filter.mp (List.mem_of_find?_eq_some hres)).2
        obtain ⟨job', h', heq⟩ := (hmatch k').mp
          (List.find?_some (p := fun k' : MsgKind => k'.pattern.rmatch job.body) hres)
        rw [kind_unique h' h (beq_iff_eq.mp hdir) heq]
  rw [parseNetMsg, hfind]
  exact fields_body h

/-- What the parser can do with a string: refuse it, or take it for a valid message of the direction. -/
theorem parse_cases (m : List Char) (serverSide : Bool) : parseNetMsg m serverSide = .ok [] ∨
    ∃ (k : MsgKind) (job : SendJob), k.forServer = serverSide ∧ k.Valid job ∧ job.body = m := by
  cases hres : (MsgKind.all.filter fun k => k.forServer == serverSide).find?
      (fun k => k.pattern.rmatch m) with
  | none => exact .inl (by rw [parseNetMsg, hres])
  | some k =>
      have hdir := (List.mem_filter.mp (List.mem_of_find?_eq_some hres)).2
      obtain ⟨job, h, heq⟩ := (spells_pattern k m).mp
        ((rmatch_iff_matches' _ _).mp
          (List.find?_some (p := fun k : MsgKind => k.pattern.rmatch m) hres))
      exact .inr ⟨k, job, beq_iff_eq.mp hdir, h, heq⟩

theorem toStringNat_injective : Function.Injective toStringNat := by
  intro n n' h
  rw [← Nat.ofDigitChars_ten_toDigits (n := n), ← Nat.ofDigitChars_ten_toDigits (n := n')]
  exact congrArg (Nat.ofDigitChars 10 · 0) h

theorem Side.char_injective : Function.Injective Side.char := by
  intro s s'
  cases s <;> cases s' <;> decide

theorem RoundType.number_injective : Function.Injective RoundType.number := by
  intro r r'
  cases r <;> cases r' <;> decide

/-- The key of `VALUES` with a given text. -/
def CardValue.ofText (val : List Char) : Option CardValue := CardValue.ranks.find? (·.text = val)

/-- The enumerator with a given character. -/
def Color.ofChar : Char → Option Color
  | 'C' => some .colorC
  | 'D' => some .colorD
  | 'H' => some .colorH
  | 'S' => some .colorS
  | _ => none

/-- `(Side) c`, for the characters of the four sides. -/
def Side.ofChar : Char → Option Side
  | 'N' => some .N
  | 'E' => some .E
  | 'S' => some .S
  | 'W' => some .W
  | _ => none

/-- `static_cast<RoundType>(c - '0')`, for the seven modes. -/
def RoundType.ofDigit : Char → Option RoundType
  | '1' => some .trickPenalty
  | '2' => some .heartPenalty
  | '3' => some .queenPenalty
  | '4' => some .kingJackPenalty
  | '5' => some .heartKingPenalty
  | '6' => some .seventhLastTrickPenalty
  | '7' => some .everything
  | _ => none

theorem digit_toStringNat (r : RoundType) :
    ∃ c, toStringNat r.number = [c] ∧ RoundType.ofDigit c = some r := by
  cases r <;> exact ⟨_, rfl, rfl⟩

/-- `Card::fromString`.  The code throws for an unknown value and takes any character for a colour; a
string that is not the text of a card has no result here. -/
def Card.fromString (s : List Char) : Option Card := do
  let col ← Color.ofChar (← s.getLast?)
  let value ← CardValue.ofText s.dropLast
  return ⟨value, col⟩

theorem Card.fromString_toString (c : Card) : Card.fromString c.toString = some c := by
  obtain ⟨v, col⟩ := c
  cases v <;> cases col <;> rfl

theorem Card.toString_injective : Function.Injective Card.toString := by
  intro c d h
  exact Option.some.inj (by rw [← c.fromString_toString, h, d.fromString_toString])

theorem cardFields_injective : Function.Injective cardFields :=
  List.map_injective_iff.mpr fun _ _ h => Card.toString_injective (Prod.mk.inj h).2

theorem scoreEntries_injective : Function.Injective scoreEntries := by
  intro scores
  induction scores with
  | nil =>
      rintro (_ | ⟨p, scores'⟩) h
      · rfl
      · simp [scoreEntries] at h
  | cons p scores ih =>
      rintro (_ | ⟨p', scores'⟩) h
      · simp [scoreEntries] at h
      · simp only [scoreEntries, List.flatMap_cons, List.cons_append, List.nil_append, List.cons.injEq,
          Prod.mk.injEq, true_and, and_true] at h
        obtain ⟨hside, hnumber, hrest⟩ := h
        rw [ih hrest, Prod.ext (Side.char_injective hside) (toStringNat_injective hnumber)]

/-- The fields determine the message. -/
theorem fields_injective {k : MsgKind} {job job' : SendJob} (h : k.Valid job) (h' : k.Valid job')
    (heq : job.fields = job'.fields) : job = job' := by
  have hchar {s s' : Side} (hs : [s.char] = [s'.char]) : s = s' :=
    Side.char_injective (List.singleton_injective hs)
  have hmode {r r' : RoundType} (hr : toStringNat r.number = toStringNat r'.number) : r = r' :=
    RoundType.number_injective (toStringNat_injective hr)
  cases k <;> cases job <;> (first | exact h.elim | skip) <;> cases job' <;>
    (first | exact h'.elim | skip) <;>
    simp only [SendJob.fields, List.cons.injEq, Prod.mk.injEq, true_and, and_true] at heq
  case iam.intro.intro => rw [Side.char_injective heq]
  case busy.busy.busy =>
      rw [List.map_injective_iff.mpr (fun _ _ hs => hchar (Prod.mk.inj hs).2) heq]
  case deal.deal.deal => rw [hmode heq.1, Side.char_injective heq.2.1, cardFields_injective heq.2.2]
  case trickS.trick.trick => rw [toStringNat_injective heq.1, cardFields_injective heq.2]
  case trickC.trick.trick => rw [toStringNat_injective heq.1, cardFields_injective heq.2]
  case wrong.wrong.wrong => rw [toStringNat_injective heq]
  case taken.taken.taken =>
      obtain ⟨hcards, hside⟩ := List.append_inj' heq.2 rfl
      rw [toStringNat_injective heq.1, cardFields_injective hcards,
        hchar (Prod.mk.inj (List.singleton_injective hside)).2]
  case score.score.score => rw [scoreEntries_injective heq]
  case total.total.total => rw [scoreEntries_injective heq]

/-- **The codec is a bijection.**  Every valid message is parsed into its type and its fields by its
receiver.  The parser never reads outside a string, and what it accepts is the text of one valid
message of the direction: the keyword followed by the extracted fields. -/
theorem codec_bijective :
    (∀ (k : MsgKind) (job : SendJob), k.Valid job →
      parseNetMsg (job.genMsg.take (job.genMsg.length - 2)) k.forServer =
        .ok (("type", k.typeName) :: job.fields)) ∧
    ∀ (m : List Char) (serverSide : Bool), ∃ res, parseNetMsg m serverSide = .ok res ∧
      (res ≠ [] → ∃ k : MsgKind, k.forServer = serverSide ∧
        m = k.keyword ++ res.tail.flatMap Prod.snd ∧
        ∃! job : SendJob, k.Valid job ∧ job.body = m ∧ res = ("type", k.typeName) :: job.fields) := by
  refine ⟨fun k job h => by rw [SendJob.genMsg_strip, parse_body h], fun m serverSide => ?_⟩
  rcases parse_cases m serverSide with hnone | ⟨k, job, rfl, h, rfl⟩
  · exact ⟨[], hnone, fun hne => absurd rfl hne⟩
  · refine ⟨_, parse_body h, fun _ => ⟨k, rfl, body_eq_fields h, job, ⟨h, rfl, rfl⟩, ?_⟩⟩
    rintro job' ⟨h', -, hres⟩
    exact fields_injective h' h (List.cons.inj hres).2.symm

/-- A ten in the first trick towards the server, whose digits run together with the number. -/
theorem codec_bijective_ten :
    parseNetMsg ['T', 'R', 'I', 'C', 'K', '1', '1', '0', 'C'] true =
      .ok [("type", ['T', 'R', 'I', 'C', 'K', '_', 'C']), ("rn", ['1']), ("card", ['1', '0', 'C'])] :=
  codec_bijective.1 .trickC (.trick [⟨.v10, .colorC⟩] 1) ⟨by decide, rfl⟩

end Kierki
