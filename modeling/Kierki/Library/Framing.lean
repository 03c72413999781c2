import Mathlib

/-!
# Texts cut at a two-letter mark

`cut a b text` cuts a text at every occurrence of the letter `a` with the letter `b` behind it, from left
to right: the pieces in front of the marks, and what is left behind the last one.  `cut_concat` computes
the cut from the letters as they come in; it is what a reader does that keeps nothing but the unfinished
piece.
-/

namespace Framing

variable {α : Type*} [DecidableEq α] {a b : α}

/-- The pieces that a mark ends, and the rest. -/
def cut (a b : α) : List α → List (List α) × List α
  | [] => ([], [])
  | [c] => ([], [c])
  | c :: d :: text =>
      if c = a ∧ d = b then ([] :: (cut a b text).1, (cut a b text).2)
      else
        match cut a b (d :: text) with
        | ([], rest) => ([], c :: rest)
        | (piece :: pieces, rest) => ((c :: piece) :: pieces, rest)

/-- The pieces with their marks and the rest make up the text. -/
theorem cut_join (text : List α) :
    ((cut a b text).1.flatMap (· ++ [a, b])) ++ (cut a b text).2 = text := by
  induction text using cut.induct a b with
  | case1 => rfl
  | case2 c => rfl
  | case3 c d text hmark ih =>
      obtain ⟨rfl, rfl⟩ := hmark
      rw [cut, if_pos ⟨rfl, rfl⟩]
      simpa using ih
  | case4 c d text hmark rest hcut ih =>
      rw [hcut] at ih
      rw [cut, if_neg hmark, hcut]
      exact congrArg (c :: ·) ih
  | case5 c d text hmark piece pieces rest hcut ih =>
      rw [hcut] at ih
      rw [cut, if_neg hmark, hcut]
      exact congrArg (c :: ·) ih

/-- A text without a mark is all rest. -/
theorem cut_whole {text rest : List α} (h : cut a b text = ([], rest)) : rest = text := by
  have hjoin := cut_join (a := a) (b := b) text
  rw [h] at hjoin
  exact hjoin

/-- **One more letter**: it ends a piece if it is the second of a mark and the rest ends with the first. -/
theorem cut_concat (text : List α) (c : α) :
    cut a b (text ++ [c]) =
      if c = b ∧ (cut a b text).2.getLast? = some a then
        ((cut a b text).1 ++ [(cut a b text).2.dropLast], [])
      else ((cut a b text).1, (cut a b text).2 ++ [c]) := by
  induction text using cut.induct a b with
  | case1 => simp [cut]
  | case2 d =>
      by_cases hmark : d = a ∧ c = b
      · simp [cut, hmark]
      · simp [cut, hmark, and_comm (a := c = b)]
  | case3 e d text hmark ih =>
      simp only [List.cons_append, cut, if_pos hmark, ih]
      split <;> rfl
  | case4 e d text hmark rest hcut ih =>
      -- the unfinished piece is the whole text, and not empty
      obtain rfl := cut_whole hcut
      rw [hcut, List.cons_append] at ih
      simp only [List.cons_append, cut, if_neg hmark, hcut, List.getLast?_cons_cons]
      by_cases hends : c = b ∧ (d :: text).getLast? = some a
      · rw [if_pos hends] at ih ⊢
        rw [ih]
        rfl
      · rw [if_neg hends] at ih ⊢
        rw [ih]
  | case5 e d text hmark piece pieces rest hcut ih =>
      rw [hcut, List.cons_append] at ih
      simp only [List.cons_append, cut, if_neg hmark, hcut]
      by_cases hends : c = b ∧ rest.getLast? = some a
      · rw [if_pos hends] at ih ⊢
        rw [ih]
        rfl
      · rw [if_neg hends] at ih ⊢
        rw [ih]

/-- With more of a text there are only more pieces. -/
theorem cut_isPrefix {text text' : List α} (h : text <+: text') :
    (cut a b text).1 <+: (cut a b text').1 := by
  obtain ⟨more, rfl⟩ := h
  induction more using List.reverseRecOn with
  | nil => simp
  | append_singleton more c ih =>
      rw [← List.append_assoc, cut_concat]
      split
      · exact ih.trans (List.prefix_append _ _)
      · exact ih

omit [DecidableEq α] in
/-- What is taken from the front of a list is a prefix of what is taken from a longer one. -/
theorem takeWhile_isPrefix {p : α → Bool} {l l' : List α} (h : l <+: l') :
    l.takeWhile p <+: l'.takeWhile p := by
  obtain ⟨more, rfl⟩ := h
  rw [List.takeWhile_append]
  split
  · rename_i hlen
    rw [( List.takeWhile_prefix p).eq_of_length hlen]
    exact List.prefix_append _ _
  · exact List.prefix_rfl

section Stream

variable {β : Type*} {f : β → List α} {part : List α}

omit [DecidableEq α] in
/-- **A part of a stream** is the texts of some messages and a part of the text behind them. -/
theorem stream_isPrefix {msgs : List β} {text : List α} (h : text <+: msgs.flatMap f ++ part) :
    ∃ done rest, text = done.flatMap f ++ rest ∧
      ((done = msgs ∧ rest <+: part) ∨ ∃ msg, done ++ [msg] <+: msgs ∧ rest <+: f msg ∧ rest ≠ f msg) := by
  induction msgs generalizing text with
  | nil => exact ⟨[], text, rfl, .inl ⟨rfl, h⟩⟩
  | cons msg msgs ih =>
      rw [List.flatMap_cons, List.append_assoc] at h
      by_cases hwhole : f msg <+: text
      · -- the first message is there, and the others are in what follows
        obtain ⟨more, rfl⟩ := hwhole
        obtain ⟨done, rest, rfl, hrest⟩ := ih ((List.prefix_append_right_inj (f msg)).mp h)
        refine ⟨msg :: done, rest, by simp, ?_⟩
        rcases hrest with ⟨rfl, hpart⟩ | ⟨next, hnext, hpart⟩
        · exact .inl ⟨rfl, hpart⟩
        · exact .inr ⟨next, by simpa using hnext, hpart⟩
      · have hpart : text <+: f msg :=
          (List.prefix_or_prefix_of_prefix h (List.prefix_append _ _)).resolve_right hwhole
        refine ⟨[], text, rfl, .inr ⟨msg, by simp, hpart, ?_⟩⟩
        rintro rfl
        exact hwhole List.prefix_rfl

/-- A piece that does not hold the first letter of the mark is found as it was put in. -/
theorem cut_piece {piece text : List α} (h : a ∉ piece) :
    cut a b (piece ++ a :: b :: text) = (piece :: (cut a b text).1, (cut a b text).2) := by
  induction piece with
  | nil => simp [cut]
  | cons c piece ih =>
      obtain ⟨hc, hpiece⟩ := not_or.mp (mt List.mem_cons.mpr h)
      have hrest := ih hpiece
      -- the letter is no mark, whatever comes behind it
      cases hmore : piece ++ a :: b :: text with
      | nil => simp at hmore
      | cons d more =>
          rw [List.cons_append, hmore, cut, if_neg fun hmark => hc hmark.1.symm]
          rw [hmore] at hrest
          rw [hrest]

/-- **What a stream of marked pieces is cut into.** -/
theorem cut_stream {pieces : List (List α)} (h : ∀ piece ∈ pieces, a ∉ piece) (rest : List α) :
    cut a b (pieces.flatMap (· ++ [a, b]) ++ rest) = (pieces ++ (cut a b rest).1, (cut a b rest).2) := by
  induction pieces with
  | nil => rfl
  | cons piece pieces ih =>
      have hstream : (piece :: pieces).flatMap (· ++ [a, b]) ++ rest =
          piece ++ a :: b :: (pieces.flatMap (· ++ [a, b]) ++ rest) := by simp
      rw [hstream, cut_piece (h piece List.mem_cons_self), ih fun q hq => h q (List.mem_cons_of_mem _ hq)]
      rfl

end Stream

end Framing
