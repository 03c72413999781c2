import Kierki.Library.Fallible

/-!
# Regular expressions and the values they spell

The usual abbreviations of pattern languages on top of `RegularExpression`: literals, character
classes and bounded repetition.  `Spells P p text` says that the words of `P` are exactly the texts of
the values that meet `p`; it is composed along the operations of a pattern, so that a pattern for a
record is spelled by the record once its fields are.

At the end, decimal numerals: `(0|[1-9][0-9]*)` is spelled by the natural numbers.
-/

namespace Patterns

open RegularExpression

variable {α β : Type*}

/-- A literal. -/
def lit (s : List Char) : RegularExpression Char := s.foldr (fun c P => char c * P) 1

/-- A character class. -/
def oneOf (cs : List Char) : RegularExpression Char := cs.foldr (fun c P => char c + P) 0

/-- `P{m,n}`. -/
def between (P : RegularExpression Char) (m n : ℕ) : RegularExpression Char :=
  (List.range' m (n + 1 - m)).foldr (fun k Q => P ^ k + Q) 0

@[simp] theorem mem_lit {s x : List Char} : x ∈ (lit s).matches' ↔ x = s := by
  induction s generalizing x with
  | nil => simp [lit, Language.mem_one]
  | cons c s ih =>
      change x ∈ (char c * lit s).matches' ↔ _
      rw [matches'_mul, Language.mem_mul]
      constructor
      · rintro ⟨a, ha, b, hb, rfl⟩
        rw [ih.mp hb, Set.mem_singleton_iff.mp ha]
        rfl
      · rintro rfl
        exact ⟨[c], rfl, s, ih.mpr rfl, rfl⟩

@[simp] theorem mem_oneOf {cs x : List Char} : x ∈ (oneOf cs).matches' ↔ ∃ c ∈ cs, x = [c] := by
  induction cs with
  | nil => simp [oneOf]
  | cons c cs ih =>
      change x ∈ (char c + oneOf cs).matches' ↔ _
      have hchar : x ∈ (char c).matches' ↔ x = [c] := Set.mem_singleton_iff
      rw [matches'_add, Language.mem_add, ih, hchar]
      simp

theorem mem_between {P : RegularExpression Char} {m n : ℕ} {x : List Char} :
    x ∈ (between P m n).matches' ↔ ∃ k, m ≤ k ∧ k ≤ n ∧ x ∈ (P ^ k).matches' := by
  have hsum (ks : List ℕ) : x ∈ (ks.foldr (fun k Q => P ^ k + Q) 0).matches' ↔
      ∃ k ∈ ks, x ∈ (P ^ k).matches' := by
    induction ks with
    | nil => simp
    | cons k ks ih =>
        rw [List.foldr_cons, matches'_add, Language.mem_add, ih]
        simp
  rw [between, hsum]
  simp only [List.mem_range'_1]
  constructor
  · rintro ⟨k, hk, hx⟩
    exact ⟨k, hk.1, by omega, hx⟩
  · rintro ⟨k, hm, hn, hx⟩
    exact ⟨k, ⟨hm, by omega⟩, hx⟩

/-- The words of `P` are the texts of the values that meet `p`. -/
def Spells (P : RegularExpression Char) (p : α → Prop) (text : α → List Char) : Prop :=
  ∀ x, x ∈ P.matches' ↔ ∃ a, p a ∧ text a = x

theorem spells_lit (s : List Char) : Spells (lit s) (fun _ : Unit => True) fun _ => s := by
  intro x
  simp [eq_comm]

theorem spells_oneOf {cs : List Char} {char : α → Char} (h : ∀ c, c ∈ cs ↔ ∃ a, char a = c) :
    Spells (oneOf cs) (fun _ => True) fun a => [char a] := by
  intro x
  rw [mem_oneOf]
  constructor
  · rintro ⟨c, hc, rfl⟩
    obtain ⟨a, rfl⟩ := (h c).mp hc
    exact ⟨a, trivial, rfl⟩
  · rintro ⟨a, -, rfl⟩
    exact ⟨char a, (h _).mpr ⟨a, rfl⟩, rfl⟩

theorem Spells.mul {P Q : RegularExpression Char} {p : α → Prop} {q : β → Prop}
    {text : α → List Char} {text' : β → List Char} (hP : Spells P p text) (hQ : Spells Q q text') :
    Spells (P * Q) (fun ab : α × β => p ab.1 ∧ q ab.2) fun ab => text ab.1 ++ text' ab.2 := by
  intro x
  rw [matches'_mul, Language.mem_mul]
  constructor
  · rintro ⟨y, hy, z, hz, rfl⟩
    obtain ⟨a, ha, rfl⟩ := (hP y).mp hy
    obtain ⟨b, hb, rfl⟩ := (hQ z).mp hz
    exact ⟨(a, b), ⟨ha, hb⟩, rfl⟩
  · rintro ⟨⟨a, b⟩, ⟨ha, hb⟩, rfl⟩
    exact ⟨_, (hP _).mpr ⟨a, ha, rfl⟩, _, (hQ _).mpr ⟨b, hb, rfl⟩, rfl⟩

/-- A repetition is spelled by the lists of its length. -/
theorem Spells.pow {P : RegularExpression Char} {p : α → Prop} {text : α → List Char}
    (hP : Spells P p text) (n : ℕ) :
    Spells (P ^ n) (fun as : List α => as.length = n ∧ ∀ a ∈ as, p a) (List.flatMap text) := by
  induction n with
  | zero =>
      intro x
      rw [matches'_pow, pow_zero, Language.mem_one]
      constructor
      · rintro rfl
        exact ⟨[], ⟨rfl, by simp⟩, rfl⟩
      · rintro ⟨as, ⟨has, -⟩, rfl⟩
        rw [List.length_eq_zero_iff.mp has]
        rfl
  | succ n ih =>
      intro x
      rw [matches'_pow, pow_succ', ← matches'_pow, Language.mem_mul]
      constructor
      · rintro ⟨y, hy, z, hz, rfl⟩
        obtain ⟨a, ha, rfl⟩ := (hP y).mp hy
        obtain ⟨as, ⟨hlen, has⟩, rfl⟩ := (ih z).mp hz
        exact ⟨a :: as, ⟨by simp [hlen], by simpa using ⟨ha, has⟩⟩, by simp⟩
      · rintro ⟨as, ⟨hlen, has⟩, rfl⟩
        cases as with
        | nil => simp at hlen
        | cons a as =>
            have hrest : ∀ b ∈ as, p b := fun b hb => has b (List.mem_cons_of_mem _ hb)
            exact ⟨_, (hP _).mpr ⟨a, has a List.mem_cons_self, rfl⟩, _,
              (ih _).mpr ⟨as, ⟨by simpa using hlen, hrest⟩, rfl⟩, by simp⟩

/-- A bounded repetition is spelled by the lists of a length between the bounds. -/
theorem Spells.between {P : RegularExpression Char} {p : α → Prop} {text : α → List Char}
    (hP : Spells P p text) (m n : ℕ) :
    Spells (between P m n) (fun as : List α => m ≤ as.length ∧ as.length ≤ n ∧ ∀ a ∈ as, p a)
      (List.flatMap text) := by
  intro x
  rw [mem_between]
  constructor
  · rintro ⟨k, hm, hn, hx⟩
    obtain ⟨as, ⟨rfl, has⟩, rfl⟩ := (hP.pow k x).mp hx
    exact ⟨as, ⟨hm, hn, has⟩, rfl⟩
  · rintro ⟨as, ⟨hm, hn, has⟩, rfl⟩
    exact ⟨as.length, hm, hn, (hP.pow as.length _).mpr ⟨as, ⟨rfl, has⟩, rfl⟩⟩

/-- The values may be renamed. -/
theorem Spells.congr {P : RegularExpression Char} {p : α → Prop} {q : β → Prop}
    {text : α → List Char} {text' : β → List Char} (h : Spells P p text)
    (hto : ∀ a, p a → ∃ b, q b ∧ text' b = text a)
    (hfrom : ∀ b, q b → ∃ a, p a ∧ text a = text' b) : Spells P q text' := by
  intro x
  rw [h x]
  constructor
  · rintro ⟨a, ha, rfl⟩
    exact hto a ha
  · rintro ⟨b, hb, rfl⟩
    exact hfrom b hb

section Numerals

def nonzeroDigits : List Char := ['1', '2', '3', '4', '5', '6', '7', '8', '9']

def digits : List Char := '0' :: nonzeroDigits

/-- `(0|([1-9][0-9]*))`. -/
def numeral : RegularExpression Char := char '0' + oneOf nonzeroDigits * (oneOf digits).star

theorem mem_digits {c : Char} : c ∈ digits ↔ ∃ d < 10, c = Nat.digitChar d := by
  have hall : digits = (List.range 10).map Nat.digitChar := rfl
  simp [hall, eq_comm]

theorem mem_nonzeroDigits {c : Char} :
    c ∈ nonzeroDigits ↔ ∃ d, 0 < d ∧ d < 10 ∧ c = Nat.digitChar d := by
  have hall : nonzeroDigits = (List.range' 1 9).map Nat.digitChar := rfl
  rw [hall, List.mem_map]
  constructor
  · rintro ⟨d, hd, rfl⟩
    rw [List.mem_range'_1] at hd
    exact ⟨d, by omega, by omega, rfl⟩
  · rintro ⟨d, hpos, hd, rfl⟩
    exact ⟨d, List.mem_range'_1.mpr ⟨hpos, by omega⟩, rfl⟩

theorem mem_star_oneOf {cs x : List Char} : x ∈ (oneOf cs).star.matches' ↔ ∀ c ∈ x, c ∈ cs := by
  rw [matches'_star, Language.mem_kstar]
  constructor
  · rintro ⟨L, rfl, hL⟩ c hc
    obtain ⟨y, hy, hcy⟩ := List.mem_flatten.mp hc
    obtain ⟨d, hd, rfl⟩ := mem_oneOf.mp (hL y hy)
    rwa [List.mem_singleton.mp hcy]
  · intro h
    refine ⟨x.map fun c => [c], by simp [← List.flatMap_def], fun y hy => ?_⟩
    obtain ⟨c, hc, rfl⟩ := List.mem_map.mp hy
    exact mem_oneOf.mpr ⟨c, h c hc, rfl⟩

theorem mem_numeral {x : List Char} : x ∈ numeral.matches' ↔
    x = ['0'] ∨ ∃ d ∈ nonzeroDigits, ∃ ds, (∀ c ∈ ds, c ∈ digits) ∧ x = d :: ds := by
  rw [numeral, matches'_add, Language.mem_add, matches'_mul, Language.mem_mul, matches'_char]
  refine or_congr Iff.rfl ?_
  constructor
  · rintro ⟨a, ha, b, hb, rfl⟩
    obtain ⟨d, hd, rfl⟩ := mem_oneOf.mp ha
    exact ⟨d, hd, b, mem_star_oneOf.mp hb, rfl⟩
  · rintro ⟨d, hd, ds, hds, rfl⟩
    exact ⟨[d], mem_oneOf.mpr ⟨d, hd, rfl⟩, ds, mem_star_oneOf.mpr hds, rfl⟩

/-- A positive number starts with a digit other than zero. -/
theorem toDigits_of_pos {n : ℕ} (hn : 0 < n) :
    ∃ d ∈ nonzeroDigits, ∃ ds, (∀ c ∈ ds, c ∈ digits) ∧ Nat.toDigits 10 n = d :: ds := by
  induction n using Nat.strong_induction_on with
  | _ n ih =>
      by_cases hlt : n < 10
      · refine ⟨n.digitChar, mem_nonzeroDigits.mpr ⟨n, hn, hlt, rfl⟩, [], by simp, ?_⟩
        exact Nat.toDigits_of_lt_base hlt
      · obtain ⟨d, hd, ds, hds, heq⟩ := ih (n / 10) (by omega) (by omega)
        refine ⟨d, hd, ds ++ [(n % 10).digitChar], fun c hc => ?_, ?_⟩
        · rcases List.mem_append.mp hc with hc | hc
          · exact hds c hc
          · rw [List.mem_singleton.mp hc]
            exact mem_digits.mpr ⟨n % 10, Nat.mod_lt n (by omega), rfl⟩
        · rw [Nat.toDigits_of_base_le (by omega) (not_lt.mp hlt), heq]
          rfl

/-- A string of digits that starts with none of them zero is a positive number. -/
theorem exists_toDigits {d : Char} (hd : d ∈ nonzeroDigits) (ds : List Char)
    (hds : ∀ c ∈ ds, c ∈ digits) : ∃ n, 0 < n ∧ Nat.toDigits 10 n = d :: ds := by
  induction ds using List.reverseRecOn with
  | nil =>
      obtain ⟨n, hpos, hn, rfl⟩ := mem_nonzeroDigits.mp hd
      exact ⟨n, hpos, Nat.toDigits_of_lt_base hn⟩
  | append_singleton ds c ih =>
      obtain ⟨n, hpos, hn⟩ := ih fun c hc => hds c (List.mem_append_left _ hc)
      obtain ⟨e, he, rfl⟩ := mem_digits.mp (hds c (by simp))
      refine ⟨10 * n + e, by omega, ?_⟩
      rw [← Nat.toDigits_append_toDigits (by omega) hpos he, hn, Nat.toDigits_of_lt_base he]
      rfl

/-- **Decimal numerals** are the natural numbers, each written once. -/
theorem spells_numeral : Spells numeral (fun _ : ℕ => True) (Nat.toDigits 10) := by
  intro x
  rw [mem_numeral]
  constructor
  · rintro (rfl | ⟨d, hd, ds, hds, rfl⟩)
    · exact ⟨0, trivial, rfl⟩
    · obtain ⟨n, -, hn⟩ := exists_toDigits hd ds hds
      exact ⟨n, trivial, hn⟩
  · rintro ⟨n, -, rfl⟩
    rcases Nat.eq_zero_or_pos n with rfl | hpos
    · exact .inl rfl
    · exact .inr (toDigits_of_pos hpos)

end Numerals

end Patterns
