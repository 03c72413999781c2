import Kierki.Server.Reference

/-!
# Who takes a trick, and what for

`GameRules::whoTakes` against the rules of the game: the taker is the player of the highest card of the
colour led, wherever it lies on the table, and the price does not ask where the cards lie.
-/

namespace Kierki

namespace GameRules

/-- The card at position `i` has the colour led, and no card of this colour is higher. -/
def Takes (table : Table) (i : Nat) : Prop :=
  ∃ led c, table.head? = some led ∧ table[i]? = some c ∧ c.col = led.col ∧
    ∀ d ∈ table, d.col = led.col → d.trueVal ≤ c.trueVal

/-- The loop keeps the highest card of the colour led that it has seen. -/
theorem takerLoop_spec {wanted : Color} {table : Table} (rest seen : Table) (best : Card) (ix : Nat)
    (htable : table = seen ++ rest) (hbest : table[ix]? = some best) (hcol : best.col = wanted)
    (hseen : ∀ d ∈ seen, d.col = wanted → d.trueVal ≤ best.trueVal) :
    ∃ c, table[takerLoop wanted best ix seen.length rest]? = some c ∧ c.col = wanted ∧
      ∀ d ∈ table, d.col = wanted → d.trueVal ≤ c.trueVal := by
  induction rest generalizing seen best ix with
  | nil =>
      obtain rfl : table = seen := by simpa using htable
      exact ⟨best, hbest, hcol, hseen⟩
  | cons c rest ih =>
      have hsplit : table = (seen ++ [c]) ++ rest := by simpa using htable
      have hlen : (seen ++ [c]).length = seen.length + 1 := by simp
      rw [takerLoop]
      by_cases hbetter : c.col = wanted ∧ c.gt best = true
      · rw [if_pos hbetter, ← hlen]
        have hlt : best.trueVal < c.trueVal := (Card.gt_iff c best).mp hbetter.2
        refine ih (seen ++ [c]) c seen.length hsplit (by simp [htable]) hbetter.1 fun d hd hdcol => ?_
        rcases List.mem_append.mp hd with hd | hd
        · exact (hseen d hd hdcol).trans hlt.le
        · rw [List.mem_singleton.mp hd]
      · rw [if_neg hbetter, ← hlen]
        refine ih (seen ++ [c]) best ix hsplit hbest hcol fun d hd hdcol => ?_
        rcases List.mem_append.mp hd with hd | hd
        · exact hseen d hd hdcol
        · obtain rfl := List.mem_singleton.mp hd
          exact not_lt.mp fun hlt => hbetter ⟨hdcol, (Card.gt_iff _ _).mpr hlt⟩

theorem takes_takerIx {table : Table} (hne : table ≠ []) : Takes table (takerIx table) := by
  cases table with
  | nil => exact absurd rfl hne
  | cons front rest =>
      have htable : front :: rest = [front] ++ rest := rfl
      obtain ⟨c, hc, hcol, hbest⟩ := takerLoop_spec rest [front] front 0 htable rfl rfl (by simp)
      exact ⟨front, c, rfl, hc, hcol, hbest⟩

/-- In a table of different cards only one position takes the trick. -/
theorem Takes.unique {table : Table} (hnodup : table.Nodup) {i j : Nat} (hi : Takes table i)
    (hj : Takes table j) : i = j := by
  obtain ⟨led, c, hled, hc, hcol, hbest⟩ := hi
  obtain ⟨led', d, hled', hd, hcol', hbest'⟩ := hj
  obtain rfl := Option.some.inj (hled.symm.trans hled')
  have hval : c.trueVal = d.trueVal :=
    le_antisymm (hbest' c (List.mem_of_getElem? hc) hcol) (hbest d (List.mem_of_getElem? hd) hcol')
  obtain rfl : c = d := Card.eq_of_trueVal (hcol.trans hcol'.symm) hval
  obtain ⟨hlt, hget⟩ := List.getElem?_eq_some_iff.mp hc
  obtain ⟨hlt', hget'⟩ := List.getElem?_eq_some_iff.mp hd
  exact (List.Nodup.getElem_inj_iff hnodup).mp (hget.trans hget'.symm)

/-- The price of the cards does not depend on their order. -/
theorem price_perm (mode : RoundType) (n : Nat) {cards cards' : List Card} (h : cards.Perm cards') :
    price mode n cards = price mode n cards' := by
  cases mode <;> simp only [price, costOfHearts, costOfQueens, costOfKingsAndJacks, costOfKingOfHearts, h.countP_eq, h.count_eq]

/-- **`whoTakes` agrees with the rules.**  On four different cards there is one position with the highest
card of the colour led, and the taker sits as many places behind the leader, in every mode and every
trick; the penalty depends on the cards as a set, the number and the mode alone; and the penalty of
`EVERYTHING` is the sum of the six others. -/
theorem whoTakes_rules (leader : Side) (table : Table) (n : Nat) (mode : RoundType)
    (hlen : table.length = 4) (hnodup : table.Nodup) :
    (∃! i, Takes table i) ∧
    (∀ i, Takes table i → i < 4 ∧ (whoTakes leader table mode n).1 = nxtSide^[i] leader) ∧
    (∀ mode', (whoTakes leader table mode' n).1 = (whoTakes leader table mode n).1) ∧
    (∀ leader' table', table'.Perm table →
      (whoTakes leader' table' mode n).2 = (whoTakes leader table mode n).2) ∧
    (whoTakes leader table .everything n).2 =
      (whoTakes leader table .trickPenalty n).2 + (whoTakes leader table .heartPenalty n).2 +
      (whoTakes leader table .queenPenalty n).2 + (whoTakes leader table .kingJackPenalty n).2 +
      (whoTakes leader table .heartKingPenalty n).2 +
      (whoTakes leader table .seventhLastTrickPenalty n).2 := by
  have hne : table ≠ [] := by
    rintro rfl
    cases hlen
  have htakes := takes_takerIx hne
  refine ⟨⟨_, htakes, fun j hj => hj.unique hnodup htakes⟩, fun i hi => ⟨?_, ?_⟩, fun _ => rfl, ?_, ?_⟩
  · obtain ⟨_, _, _, hget, _⟩ := hi
    rw [← hlen]
    exact (List.getElem?_eq_some_iff.mp hget).1
  · obtain rfl := hi.unique hnodup htakes
    rfl
  · intro leader' table' hperm
    show penalty table' mode n = penalty table mode n
    rw [penalty_eq_price, penalty_eq_price, price_perm mode n hperm]
  · show penalty table .everything n = penalty table .trickPenalty n + penalty table .heartPenalty n +
      penalty table .queenPenalty n + penalty table .kingJackPenalty n + penalty table .heartKingPenalty n +
      penalty table .seventhLastTrickPenalty n
    simp only [penalty_eq_price]
    rw [price_everything]
    ring

/-- Diamonds are led; an ace of another colour does not take the trick. -/
theorem whoTakes_rules_diamonds :
    (∃! i, Takes [⟨.v10, .colorD⟩, ⟨.A, .colorS⟩, ⟨.J, .colorD⟩, ⟨.K, .colorH⟩] i) ∧
    (∀ i, Takes [⟨.v10, .colorD⟩, ⟨.A, .colorS⟩, ⟨.J, .colorD⟩, ⟨.K, .colorH⟩] i → i < 4 ∧
      (whoTakes .E [⟨.v10, .colorD⟩, ⟨.A, .colorS⟩, ⟨.J, .colorD⟩, ⟨.K, .colorH⟩] .everything 7).1 =
        nxtSide^[i] .E) ∧
    whoTakes .E [⟨.v10, .colorD⟩, ⟨.A, .colorS⟩, ⟨.J, .colorD⟩, ⟨.K, .colorH⟩] .everything 7 = (.W, 34) := by
  obtain ⟨hunique, hside, -⟩ := whoTakes_rules .E
    [⟨.v10, .colorD⟩, ⟨.A, .colorS⟩, ⟨.J, .colorD⟩, ⟨.K, .colorH⟩] 7 .everything rfl (by decide)
  exact ⟨hunique, hside, by decide⟩

end GameRules

end Kierki
