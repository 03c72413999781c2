import Mathlib

/-!
# Computations that can fail

Sequencing in `Except`, and the accesses of a string class that check their index: `charAt` and
`substr` fail with a given error where the class throws, `checkedSub` fails where an unsigned
subtraction would wrap around.
-/

namespace Fallible

variable {ε : Type*} {α β : Type}

/-- A sequence succeeds when both halves do. -/
@[simp] theorem bind_eq_ok {x : Except ε α} {f : α → Except ε β} {b : β} :
    (x >>= f) = .ok b ↔ ∃ a, x = .ok a ∧ f a = .ok b := by
  cases x with
  | error e => simp [bind, Except.bind]
  | ok a => simp [bind, Except.bind]

/-- A sequence fails when its first half fails, or its second half does after it. -/
theorem bind_eq_error {x : Except ε α} {f : α → Except ε β} {e : ε} :
    (x >>= f) = .error e ↔ x = .error e ∨ ∃ a, x = .ok a ∧ f a = .error e := by
  cases x with
  | error e' => simp [bind, Except.bind]
  | ok a => simp [bind, Except.bind]

/-- A sequence avoids an error that both of its halves avoid. -/
theorem bind_ne_error {x : Except ε α} {f : α → Except ε β} {e : ε} (hx : x ≠ .error e)
    (hf : ∀ a, x = .ok a → f a ≠ .error e) : (x >>= f) ≠ .error e := by
  intro h
  rcases bind_eq_error.mp h with h | ⟨a, ha, h⟩
  · exact hx h
  · exact hf a ha h

@[simp] theorem ok_bind (a : α) (f : α → Except ε β) : ((.ok a : Except ε α) >>= f) = f a := rfl

@[simp] theorem pure_eq_ok_iff {a b : α} : (pure a : Except ε α) = .ok b ↔ a = b := by
  simp [pure, Except.pure]

theorem pure_eq (a : α) : (pure a : Except ε α) = .ok a := rfl

theorem ok_of_toOption {x : Except ε α} {a : α} (h : x.toOption = some a) : x = .ok a := by
  cases x with
  | error e => cases h
  | ok a' => exact congrArg Except.ok (Option.some.inj h)

/-- The value of an `Option`, or a given error. -/
def require (e : ε) : Option α → Except ε α
  | some a => .ok a
  | none => .error e

@[simp] theorem require_eq_ok {e : ε} {x : Option α} {a : α} :
    require e x = .ok a ↔ x = some a := by
  cases x <;> simp [require]

@[simp] theorem require_eq_error {e e' : ε} {x : Option α} :
    require e x = .error e' ↔ x = none ∧ e = e' := by
  cases x <;> simp [require]

/-- The element at an index, which must exist. -/
def charAt (e : ε) (m : List α) (i : Nat) : Except ε α := require e m[i]?

/-- At most `n` elements from position `pos`, which must not be beyond the end. -/
def substr (e : ε) (m : List α) (pos n : Nat) : Except ε (List α) :=
  if pos ≤ m.length then .ok ((m.drop pos).take n) else .error e

/-- A difference that must not be negative. -/
def checkedSub (e : ε) (a b : Nat) : Except ε Nat := if b ≤ a then .ok (a - b) else .error e

theorem charAt_eq {e : ε} {m u w : List α} {c : α} {i : Nat} (hm : m = u ++ c :: w)
    (hi : i = u.length) : charAt e m i = .ok c := by
  subst hm hi
  simp [charAt]

theorem substr_eq {e : ε} {m u text w : List α} {pos n : Nat} (hm : m = u ++ (text ++ w))
    (hpos : pos = u.length) (hn : n = text.length) : substr e m pos n = .ok text := by
  subst hm hpos hn
  simp [substr]

/-- With a length beyond the end, the rest is read. -/
theorem substr_rest {e : ε} {m u text : List α} {pos n : Nat} (hm : m = u ++ text)
    (hpos : pos = u.length) (hn : text.length ≤ n) : substr e m pos n = .ok text := by
  subst hm hpos
  simp [substr, List.take_of_length_le hn]

theorem checkedSub_eq {e : ε} {a b : Nat} (h : b ≤ a) : checkedSub e a b = .ok (a - b) := if_pos h

end Fallible
