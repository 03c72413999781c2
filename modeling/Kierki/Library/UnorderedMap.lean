import Mathlib

/-!
# Finite maps as a hash table keeps them

`UnorderedMap κ α` is a list of entries with distinct keys.  An update of a present key happens in
place; a new key goes to the front, so that a walk over the map meets the newest key first.  The
order of the walk is the only thing a hash table leaves open, and no lemma below speaks of it.
-/

/-- Entries with pairwise distinct keys. -/
structure UnorderedMap (κ α : Type*) where
  entries : List (κ × α)
  nodup : (entries.map Prod.fst).Nodup

namespace UnorderedMap

variable {κ α : Type*}

def empty : UnorderedMap κ α := ⟨[], List.nodup_nil⟩

/-- The keys in the order of a walk. -/
def keys (m : UnorderedMap κ α) : List κ := m.entries.map Prod.fst

theorem keys_nodup (m : UnorderedMap κ α) : m.keys.Nodup := m.nodup

variable [DecidableEq κ]

/-- The value of the first entry with key `k`. -/
def assoc (k : κ) : List (κ × α) → Option α
  | [] => none
  | (k', v) :: rest => if k' = k then some v else assoc k rest

/-- Replace the value at a present key, where it stands. -/
def replace (k : κ) (v : α) : List (κ × α) → List (κ × α)
  | [] => []
  | (k', v') :: rest => if k' = k then (k, v) :: rest else (k', v') :: replace k v rest

theorem keys_replace (k : κ) (v : α) (l : List (κ × α)) :
    (replace k v l).map Prod.fst = l.map Prod.fst := by
  induction l with
  | nil => rfl
  | cons p rest ih =>
      obtain ⟨k', v'⟩ := p
      by_cases h : k' = k
      · simp [replace, h]
      · simp [replace, h, ih]

/-- `find` of a hash table: the value at `k`, if there is one. -/
def find? (m : UnorderedMap κ α) (k : κ) : Option α := assoc k m.entries

/-- `m[k] = v`. -/
def insert (m : UnorderedMap κ α) (k : κ) (v : α) : UnorderedMap κ α :=
  if h : k ∈ m.entries.map Prod.fst then
    ⟨replace k v m.entries, by rw [keys_replace]; exact m.nodup⟩
  else
    ⟨(k, v) :: m.entries, List.nodup_cons.mpr ⟨h, m.nodup⟩⟩

/-- Remove the entry at `k`, if there is one. -/
def erase (m : UnorderedMap κ α) (k : κ) : UnorderedMap κ α :=
  ⟨m.entries.filter (fun p => p.1 ≠ k), (m.nodup.sublist (List.filter_sublist.map _))⟩

theorem assoc_eq_none_iff (k : κ) (l : List (κ × α)) :
    assoc k l = none ↔ k ∉ l.map Prod.fst := by
  induction l with
  | nil => simp [assoc]
  | cons p rest ih =>
      obtain ⟨k', v'⟩ := p
      by_cases h : k' = k
      · simp [assoc, h]
      · have hne : ¬ k = k' := fun he => h he.symm
        rw [assoc, if_neg h, ih]
        simp [hne]

theorem assoc_replace_self {k : κ} (v : α) {l : List (κ × α)} (h : k ∈ l.map Prod.fst) :
    assoc k (replace k v l) = some v := by
  induction l with
  | nil => simp at h
  | cons p rest ih =>
      obtain ⟨k', v'⟩ := p
      by_cases hk : k' = k
      · simp [replace, assoc, hk]
      · have hrest : k ∈ rest.map Prod.fst := by
          rcases List.mem_cons.mp h with he | he
          · exact absurd he.symm hk
          · exact he
        simp [replace, assoc, hk, ih hrest]

theorem assoc_replace_of_ne {k k₁ : κ} (v : α) (l : List (κ × α)) (h : k₁ ≠ k) :
    assoc k₁ (replace k v l) = assoc k₁ l := by
  induction l with
  | nil => rfl
  | cons p rest ih =>
      obtain ⟨k', v'⟩ := p
      by_cases hk : k' = k
      · subst hk
        simp [replace, assoc, Ne.symm h]
      · simp [replace, assoc, hk, ih]

@[simp] theorem find?_empty (k : κ) : (empty : UnorderedMap κ α).find? k = none := rfl

/-- An update is seen at its own key and nowhere else. -/
@[simp] theorem find?_insert (m : UnorderedMap κ α) (k k₁ : κ) (v : α) :
    (m.insert k v).find? k₁ = if k₁ = k then some v else m.find? k₁ := by
  by_cases hk : k ∈ m.entries.map Prod.fst
  · by_cases h : k₁ = k
    · subst h
      simp only [find?, insert, dif_pos hk, if_pos]
      exact assoc_replace_self v hk
    · simp only [find?, insert, dif_pos hk, if_neg h]
      exact assoc_replace_of_ne v m.entries h
  · simp only [find?, insert, dif_neg hk, assoc, @eq_comm κ k k₁]

@[simp] theorem find?_erase (m : UnorderedMap κ α) (k k₁ : κ) :
    (m.erase k).find? k₁ = if k₁ = k then none else m.find? k₁ := by
  obtain ⟨l, hl⟩ := m
  simp only [find?, erase]
  clear hl
  induction l with
  | nil => simp [assoc]
  | cons p rest ih =>
      obtain ⟨k', v'⟩ := p
      by_cases hk : k' = k
      · subst hk
        by_cases h : k₁ = k'
        · simpa [h] using ih
        · simpa [h, assoc, Ne.symm h] using ih
      · by_cases h : k' = k₁
        · subst h
          simp [hk, assoc]
        · simpa [hk, h, assoc] using ih

/-- Erasing a list of keys, one after the other. -/
theorem find?_foldl_erase (ks : List κ) (m : UnorderedMap κ α) (k : κ) :
    (ks.foldl erase m).find? k = if k ∈ ks then none else m.find? k := by
  induction ks generalizing m with
  | nil => simp
  | cons k' ks ih =>
      rw [List.foldl_cons, ih]
      by_cases h : k ∈ ks <;> by_cases h' : k = k' <;> simp [h, h']

theorem find?_isSome_iff (m : UnorderedMap κ α) (k : κ) : (m.find? k).isSome ↔ k ∈ m.keys := by
  rw [Option.isSome_iff_ne_none, find?, keys, ne_eq, assoc_eq_none_iff, not_not]

/-- The entries are exactly what `find?` answers. -/
theorem mem_entries_iff (m : UnorderedMap κ α) (k : κ) (v : α) :
    (k, v) ∈ m.entries ↔ m.find? k = some v := by
  obtain ⟨l, hl⟩ := m
  simp only [find?]
  induction l with
  | nil => simp [assoc]
  | cons p rest ih =>
      obtain ⟨k', v'⟩ := p
      obtain ⟨hfresh, hrest⟩ := List.nodup_cons.mp hl
      by_cases h : k' = k
      · subst h
        have hnot : (k', v) ∉ rest := by
          intro hmem
          exact hfresh (List.mem_map.mpr ⟨(k', v), hmem, rfl⟩)
        simp [assoc, hnot, eq_comm]
      · have hne : ¬ k = k' := fun he => h he.symm
        rw [assoc, if_neg h, ← ih hrest]
        simp [hne]

end UnorderedMap
