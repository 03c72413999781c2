import Kierki.Library.Fallible

/-!
# Two computations in lockstep

`Lockstep R x y`: whenever `x` succeeds, `y` succeeds as well, with a result that is related by `R`.  The
rules follow the way computations are put together, so that a program is related to a second run of itself
by walking down its text.
-/

namespace Fallible

variable {ε : Type*} {α α' β β' : Type}

/-- Success is passed on from `x` to `y`, with results related by `R`. -/
def Lockstep (R : α → β → Prop) (x : Except ε α) (y : Except ε β) : Prop :=
  ∀ a, x = .ok a → ∃ b, y = .ok b ∧ R a b

namespace Lockstep

variable {R : α → β → Prop} {R' : α' → β' → Prop} {x : Except ε α} {y : Except ε β}

theorem ok {a : α} {b : β} (h : R a b) : Lockstep (ε := ε) R (.ok a) (.ok b) := by
  rintro _ ⟨⟩
  exact ⟨b, rfl, h⟩

theorem bind {f : α → Except ε α'} {g : β → Except ε β'} (h : Lockstep R x y)
    (hf : ∀ a b, x = .ok a → R a b → Lockstep R' (f a) (g b)) : Lockstep R' (x >>= f) (y >>= g) := by
  intro c hc
  obtain ⟨a, ha, hfa⟩ := bind_eq_ok.mp hc
  obtain ⟨b, hb, hR⟩ := h a ha
  obtain ⟨d, hd, hR'⟩ := hf a b ha hR c hfa
  exact ⟨d, bind_eq_ok.mpr ⟨b, hb, hd⟩, hR'⟩

/-- The same computation twice. -/
theorem of_eq {x' : Except ε α} (h : x' = x) : Lockstep (fun a a' => a' = a) x x' := by
  subst h
  exact fun a ha => ⟨a, ha, rfl⟩

/-- Both take the same branch. -/
theorem ite {p q : Prop} [Decidable p] [Decidable q] {x' : Except ε α} {y' : Except ε β} (hiff : q ↔ p)
    (hthen : p → Lockstep R x y) (helse : ¬ p → Lockstep R x' y') :
    Lockstep R (if p then x else x') (if q then y else y') := by
  by_cases hp : p
  · rw [if_pos hp, if_pos (hiff.mpr hp)]
    exact hthen hp
  · rw [if_neg hp, if_neg (mt hiff.mp hp)]
    exact helse hp

/-- Two loops over related lists. -/
theorem foldlM {γ γ' : Type} {Q : γ → γ' → Prop} {f : α → γ → Except ε α} {g : β → γ' → Except ε β}
    {l : List γ} {l' : List γ'} (hl : List.Forall₂ Q l l')
    (hf : ∀ a b c c', R a b → Q c c' → Lockstep R (f a c) (g b c')) {a : α} {b : β} (h : R a b) :
    Lockstep R (l.foldlM f a) (l'.foldlM g b) := by
  induction hl generalizing a b with
  | nil => exact ok h
  | cons hc _ ih =>
      rw [List.foldlM_cons, List.foldlM_cons]
      exact (hf a b _ _ h hc).bind fun a' b' _ h' => ih h'

end Lockstep

end Fallible
