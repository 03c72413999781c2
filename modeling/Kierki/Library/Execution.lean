import Mathlib

/-!
# Runs of a partial step function

A deterministic system is a function `step : σ → ε → Option σ`: in state `s` the input `e` leads to
`step s e`, or is impossible there (`none`).  The nondeterminism of an environment or of a scheduler
is carried by the list of inputs.

* `exec` runs a list of inputs; `Reachable` is the existence of a run.
* `record` collects what the steps of a run put on record, oldest first.
* `Guarded` says that every input of a run met a condition in the state it arrived in; `restrict` makes
  such runs of it.
* `exec_since` finds the last step of a kind in a run.
* `Guarded.length_le` and `exists_exec_done` are the rules for inputs that bring a rank down.
* `exec_induction` is the induction rule for runs with their history, `Reachable.invariant` and
  `Guarded.invariant` are its two uses for state predicates, and `exec_simulation` carries runs from a
  concrete system to an abstract one when every concrete step is a list of abstract steps.
-/

namespace Execution

variable {σ ε β : Type*}

/-- Run the inputs from left to right. -/
def exec (step : σ → ε → Option σ) : σ → List ε → Option σ
  | s, [] => some s
  | s, e :: es => (step s e).bind fun s' => exec step s' es

/-- Some list of inputs leads from `s₀` to `s`. -/
def Reachable (step : σ → ε → Option σ) (s₀ s : σ) : Prop :=
  ∃ es, exec step s₀ es = some s

/-- Everything the steps of a run put on record, oldest first. -/
def record (step : σ → ε → Option σ) (f : σ → ε → σ → List β) : σ → List ε → List β
  | _, [] => []
  | s, e :: es => (step s e).elim [] fun s' => f s e s' ++ record step f s' es

/-- Every input of the run meets `guard` in the state in which it arrives. -/
def Guarded (step : σ → ε → Option σ) (guard : σ → ε → Prop) : σ → List ε → Prop
  | _, [] => True
  | s, e :: es => guard s e ∧ ∀ s', step s e = some s' → Guarded step guard s' es

instance decidableGuarded (step : σ → ε → Option σ) (guard : σ → ε → Prop)
    [∀ s e, Decidable (guard s e)] : ∀ s es, Decidable (Guarded step guard s es)
  | _, [] => .isTrue trivial
  | s, e :: es =>
      match h : step s e with
      | none => decidable_of_iff (guard s e) (by simp [Guarded, h])
      | some s' =>
          have := decidableGuarded step guard s' es
          decidable_of_iff (guard s e ∧ Guarded step guard s' es) (by simp [Guarded, h])

/-- The system that refuses the inputs that do not meet a condition. -/
def restrict (step : σ → ε → Option σ) (guard : σ → ε → Prop) [∀ s e, Decidable (guard s e)] (s : σ) (e : ε) :
    Option σ :=
  if guard s e then step s e else none

section Runs

variable {step : σ → ε → Option σ}

@[simp] theorem exec_nil (s : σ) : exec step s [] = some s := rfl

theorem exec_append (s : σ) (es es' : List ε) :
    exec step s (es ++ es') = (exec step s es).bind fun s' => exec step s' es' := by
  induction es generalizing s with
  | nil => rfl
  | cons e es ih =>
      cases h : step s e with
      | none => simp [exec, h]
      | some s' => simp [exec, h, ih]

theorem exec_concat (s : σ) (es : List ε) (e : ε) :
    exec step s (es ++ [e]) = (exec step s es).bind fun s' => step s' e := by
  rw [exec_append]
  congr 1
  funext s'
  cases h : step s' e <;> simp [exec, h]

/-- A run that ends with `e` ran up to a state in which `e` is possible. -/
theorem exec_concat_eq_some {s s'' : σ} {es : List ε} {e : ε} :
    exec step s (es ++ [e]) = some s'' ↔
      ∃ s', exec step s es = some s' ∧ step s' e = some s'' := by
  rw [exec_concat, Option.bind_eq_some_iff]

/-- The record of a run is that of its first part, and of the rest from there. -/
theorem record_append (f : σ → ε → σ → List β) {s s' : σ} {es : List ε}
    (h : exec step s es = some s') (es' : List ε) :
    record step f s (es ++ es') = record step f s es ++ record step f s' es' := by
  induction es generalizing s with
  | nil =>
      obtain rfl : s = s' := by simpa using h
      rfl
  | cons d es ih =>
      obtain ⟨t, ht, hrest⟩ := Option.bind_eq_some_iff.mp h
      simp [record, ht, ih hrest]

theorem record_concat (f : σ → ε → σ → List β) {s s' s'' : σ} {es : List ε} {e : ε}
    (h : exec step s es = some s') (he : step s' e = some s'') :
    record step f s (es ++ [e]) = record step f s es ++ f s' e s'' := by
  rw [record_append f h]
  simp [record, he]

/-- A run that meets the condition can be found in one go. -/
theorem exec_restrict {guard : σ → ε → Prop} [∀ s e, Decidable (guard s e)] {s s' : σ} {es : List ε}
    (h : exec (restrict step guard) s es = some s') : exec step s es = some s' ∧ Guarded step guard s es := by
  induction es generalizing s with
  | nil => exact ⟨h, trivial⟩
  | cons e es ih =>
      obtain ⟨t, ht, hrest⟩ := Option.bind_eq_some_iff.mp h
      obtain ⟨hguard, ht⟩ := Option.ite_none_right_eq_some.mp ht
      obtain ⟨hexec, hg⟩ := ih hrest
      refine ⟨?_, hguard, fun u hu => ?_⟩
      · rw [exec, ht, Option.bind_some, hexec]
      · obtain rfl : t = u := Option.some.inj (ht.symm.trans hu)
        exact hg

theorem guarded_concat {guard : σ → ε → Prop} {s s' : σ} {es : List ε} {e : ε}
    (h : exec step s es = some s') (hg : Guarded step guard s (es ++ [e])) :
    Guarded step guard s es ∧ guard s' e := by
  induction es generalizing s with
  | nil =>
      obtain rfl : s = s' := by simpa using h
      exact ⟨trivial, hg.1⟩
  | cons d es ih =>
      obtain ⟨t, ht, hrest⟩ := Option.bind_eq_some_iff.mp h
      obtain ⟨hinit, hlast⟩ := ih hrest (hg.2 t ht)
      refine ⟨⟨hg.1, fun u hu => ?_⟩, hlast⟩
      obtain rfl : t = u := Option.some.inj (ht.symm.trans hu)
      exact hinit

theorem Guarded.concat {guard : σ → ε → Prop} {s s' : σ} {es : List ε} {e : ε}
    (hg : Guarded step guard s es) (h : exec step s es = some s') (he : guard s' e) :
    Guarded step guard s (es ++ [e]) := by
  induction es generalizing s with
  | nil =>
      obtain rfl : s = s' := by simpa using h
      exact ⟨he, fun _ _ => trivial⟩
  | cons d es ih =>
      obtain ⟨t, ht, hrest⟩ := Option.bind_eq_some_iff.mp h
      refine ⟨hg.1, fun u hu => ?_⟩
      obtain rfl : t = u := Option.some.inj (ht.symm.trans hu)
      exact ih (hg.2 t ht) hrest

/-- **Induction over runs.**  A statement about the inputs so far and the state they lead to holds of
every run once it holds of the empty run and every step keeps it. -/
theorem exec_induction {s₀ : σ} {P : List ε → σ → Prop} (hnil : P [] s₀)
    (hstep : ∀ es s e s', exec step s₀ es = some s → P es s → step s e = some s' →
      P (es ++ [e]) s') :
    ∀ es s, exec step s₀ es = some s → P es s := by
  intro es
  induction es using List.reverseRecOn with
  | nil =>
      intro s h
      obtain rfl : s₀ = s := by simpa using h
      exact hnil
  | append_singleton es e ih =>
      intro s h
      obtain ⟨t, ht, hlast⟩ := exec_concat_eq_some.mp h
      exact hstep es t e s ht (ih t ht) hlast

/-- **The last step of a kind.**  In a run either no step is of the kind `R`, or there is a last one. -/
theorem exec_since (R : σ → ε → Prop) {s₀ s : σ} {es : List ε} (h : exec step s₀ es = some s) :
    Guarded step (fun s e => ¬ R s e) s₀ es ∨
      ∃ es₁ e es₂ s₁ s₂, es = es₁ ++ e :: es₂ ∧ exec step s₀ es₁ = some s₁ ∧ R s₁ e ∧
        step s₁ e = some s₂ ∧ exec step s₂ es₂ = some s ∧
        Guarded step (fun s e => ¬ R s e) s₂ es₂ := by
  refine exec_induction (P := fun es s => Guarded step (fun s e => ¬ R s e) s₀ es ∨
    ∃ es₁ e es₂ s₁ s₂, es = es₁ ++ e :: es₂ ∧ exec step s₀ es₁ = some s₁ ∧ R s₁ e ∧
      step s₁ e = some s₂ ∧ exec step s₂ es₂ = some s ∧ Guarded step (fun s e => ¬ R s e) s₂ es₂)
    (.inl trivial) (fun es s e s' hes ih he => ?_) es s h
  by_cases hR : R s e
  · exact .inr ⟨es, e, [], s, s', rfl, hes, hR, he, rfl, trivial⟩
  · rcases ih with hg | ⟨es₁, d, es₂, s₁, s₂, rfl, hes₁, hRd, hd, hes₂, hg⟩
    · exact .inl (hg.concat hes hR)
    · refine .inr ⟨es₁, d, es₂ ++ [e], s₁, s₂, by simp, hes₁, hRd, hd, ?_, hg.concat hes₂ hR⟩
      exact exec_concat_eq_some.mpr ⟨s, hes₂, he⟩

theorem Reachable.refl (s : σ) : Reachable step s s := ⟨[], rfl⟩

theorem Reachable.tail {s₀ s s' : σ} {e : ε} (h : Reachable step s₀ s) (he : step s e = some s') :
    Reachable step s₀ s' := by
  obtain ⟨es, hes⟩ := h
  exact ⟨es ++ [e], exec_concat_eq_some.mpr ⟨s, hes, he⟩⟩

/-- A predicate that holds initially and is kept by every step holds of every reachable state. -/
theorem Reachable.invariant {P : σ → Prop} {s₀ s : σ} (h : Reachable step s₀ s) (h₀ : P s₀)
    (hstep : ∀ s e s', P s → step s e = some s' → P s') : P s := by
  obtain ⟨es, hes⟩ := h
  exact exec_induction (P := fun _ s => P s) h₀
    (fun _ s e s' _ hs he => hstep s e s' hs he) es s hes

/-- The same for the runs whose every input meets a condition. -/
theorem Guarded.invariant {P : σ → Prop} {guard : σ → ε → Prop} {s₀ s : σ} {es : List ε}
    (hg : Guarded step guard s₀ es) (h : exec step s₀ es = some s) (h₀ : P s₀)
    (hstep : ∀ s e s', P s → guard s e → step s e = some s' → P s') : P s := by
  refine exec_induction (P := fun es s => Guarded step guard s₀ es → P s) (fun _ => h₀)
    (fun es s e s' hes ih he hg => ?_) es s h hg
  obtain ⟨hinit, hlast⟩ := guarded_concat hes hg
  exact hstep s e s' (ih hinit) hlast he

/-- **Descent.**  If every allowed input leads to a state of lower rank, a run of such inputs is no longer than the
rank of its first state. -/
theorem Guarded.length_le {P : σ → Prop} {guard : σ → ε → Prop} {rank : σ → ℕ} {s s' : σ} {es : List ε}
    (hg : Guarded step guard s es) (h : exec step s es = some s') (hP : P s)
    (hstep : ∀ s e s', P s → guard s e → step s e = some s' → P s' ∧ rank s' < rank s) :
    P s' ∧ es.length + rank s' ≤ rank s := by
  induction es generalizing s with
  | nil =>
      obtain rfl : s = s' := by simpa using h
      exact ⟨hP, (Nat.zero_add _).le⟩
  | cons e es ih =>
      obtain ⟨t, ht, hrest⟩ := Option.bind_eq_some_iff.mp h
      obtain ⟨hPt, hless⟩ := hstep s e t hP hg.1 ht
      obtain ⟨hP', hle⟩ := ih (hg.2 t ht) hrest hPt
      refine ⟨hP', ?_⟩
      rw [List.length_cons]
      omega

/-- With an allowed input in every state that is not `Done`, some run of such inputs leads to one that is. -/
theorem exists_exec_done {P Done : σ → Prop} {guard : σ → ε → Prop} {rank : σ → ℕ} {s : σ} (hP : P s)
    (hstep : ∀ s e s', P s → guard s e → step s e = some s' → P s' ∧ rank s' < rank s)
    (hgo : ∀ s, P s → ¬ Done s → ∃ e s', guard s e ∧ step s e = some s') :
    ∃ es s', exec step s es = some s' ∧ Guarded step guard s es ∧ Done s' := by
  induction hrank : rank s using Nat.strong_induction_on generalizing s with
  | _ n ih =>
      by_cases hdone : Done s
      · exact ⟨[], s, rfl, trivial, hdone⟩
      obtain ⟨e, t, hguard, ht⟩ := hgo s hP hdone
      obtain ⟨hPt, hless⟩ := hstep s e t hP hguard ht
      obtain ⟨es, s', hes, hg, hdone'⟩ := ih (rank t) (hrank ▸ hless) hPt rfl
      refine ⟨e :: es, s', ?_, ⟨hguard, fun u hu => ?_⟩, hdone'⟩
      · show (step s e).bind _ = some s'
        rw [ht]
        exact hes
      · obtain rfl : t = u := Option.some.inj (ht.symm.trans hu)
        exact hg

end Runs

/-- **Forward simulation.**  When every concrete step is matched by the abstract inputs it puts on
record, a concrete run is matched by the abstract inputs of all its steps. -/
theorem exec_simulation {σ' ε' : Type*} {step : σ → ε → Option σ} {step' : σ' → ε' → Option σ'}
    (abs : σ → σ') (f : σ → ε → σ → List ε')
    (hsim : ∀ s e s', step s e = some s' → exec step' (abs s) (f s e s') = some (abs s'))
    {s₀ s : σ} {es : List ε} (h : exec step s₀ es = some s) :
    exec step' (abs s₀) (record step f s₀ es) = some (abs s) := by
  refine exec_induction
    (P := fun es s => exec step' (abs s₀) (record step f s₀ es) = some (abs s)) rfl
    (fun es s e s' hes ih he => ?_) es s h
  rw [record_concat f hes he, exec_append, ih]
  exact hsim s e s' he

end Execution
