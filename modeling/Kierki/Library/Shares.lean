import Kierki.Library.TrickGame

/-!
# Whose cards have gone where

The cards of a trick-taking game by player: `laid` are those in the trick that is played, `spent` those
in the tricks that were taken.  In a game played from a deal, what a player was dealt is what it holds,
has laid and has spent (`Shares`).  Where the hands of the deal have no card in common, a player who takes
away from its deal all cards of the tricks taken is left with what it holds and has laid
(`Shares.deal_sub_done`), and who then takes away the cards of the full trick is left with what it holds
(`Shares.sub_plays`).
-/

namespace TrickGame

variable {P C K M : Type*} [DecidableEq P]

/-- The cards of player `p` among some plays. -/
def cardsOf (p : P) (plays : List (Play P C)) : List C :=
  (plays.filter fun q => q.seat = p).map Play.card

@[simp] theorem cardsOf_nil (p : P) : cardsOf p ([] : List (Play P C)) = [] := rfl

@[simp] theorem cardsOf_append (p : P) (plays plays' : List (Play P C)) :
    cardsOf p (plays ++ plays') = cardsOf p plays ++ cardsOf p plays' := by
  simp [cardsOf]

theorem cardsOf_singleton (p : P) (q : Play P C) :
    cardsOf p [q] = if q.seat = p then [q.card] else [] := by
  unfold cardsOf
  by_cases h : q.seat = p <;> simp [h]

theorem mem_cardsOf {p : P} {plays : List (Play P C)} {c : C} :
    c ∈ cardsOf p plays ↔ ∃ q ∈ plays, q.seat = p ∧ q.card = c := by
  simp [cardsOf, and_assoc]

theorem length_cardsOf (p : P) (plays : List (Play P C)) :
    (cardsOf p plays).length = (plays.map Play.seat).count p := by
  rw [cardsOf, List.length_map, List.count, List.countP_map, List.countP_eq_length_filter]
  congr 1

/-- Taking away the cards of some plays leaves what is not among them, if the other players' cards are
not there. -/
theorem add_cardsOf_sub [DecidableEq C] {p : P} {a : Multiset C} {plays : List (Play P C)}
    (h : ∀ q ∈ plays, q.seat ≠ p → q.card ∉ a + (cardsOf p plays : Multiset C)) :
    a + (cardsOf p plays : Multiset C) - (plays.map Play.card : Multiset C) = a := by
  induction plays with
  | nil => simp
  | cons q plays ih =>
      by_cases hq : q.seat = p
      · have hown : cardsOf p (q :: plays) = q.card :: cardsOf p plays := by simp [cardsOf, hq]
        rw [List.map_cons, hown, ← Multiset.cons_coe, ← Multiset.cons_coe, Multiset.add_cons,
          Multiset.sub_cons, Multiset.erase_cons_head]
        refine ih fun q' hq' hne hmem => h q' (List.mem_cons_of_mem _ hq') hne ?_
        rw [hown, ← Multiset.cons_coe, Multiset.add_cons]
        exact Multiset.mem_cons_of_mem hmem
      · have hown : cardsOf p (q :: plays) = cardsOf p plays := by simp [cardsOf, hq]
        have hnot := h q List.mem_cons_self hq
        rw [hown] at hnot h ⊢
        rw [List.map_cons, ← Multiset.cons_coe, Multiset.sub_cons, Multiset.erase_of_notMem hnot]
        exact ih fun q' hq' => h q' (List.mem_cons_of_mem _ hq')

/-- A player who takes away all cards of some plays takes away its own at least. -/
theorem add_cardsOf_sub_le [DecidableEq C] (p : P) (plays : List (Play P C)) (m : Multiset C) :
    m + (cardsOf p plays : Multiset C) - (plays.map Play.card : Multiset C) ≤ m := by
  have hmine : (cardsOf p plays : Multiset C) ≤ (plays.map Play.card : Multiset C) := by
    rw [Multiset.coe_le]
    exact (List.filter_sublist.map Play.card).subperm
  calc m + (cardsOf p plays : Multiset C) - (plays.map Play.card : Multiset C)
      ≤ m + (cardsOf p plays : Multiset C) - (cardsOf p plays : Multiset C) := tsub_le_tsub_left hmine _
    _ = m := add_tsub_cancel_right _ _

/-- No card is dealt to two players. -/
def Deal.Apart (d : Deal P C M) : Prop := ∀ p q c, c ∈ d.hands p → c ∈ d.hands q → p = q

namespace State

/-- The cards of a player in the trick that is played. -/
def laid (S : State P C M) (p : P) : List C := cardsOf p S.plays

/-- The cards of a player in the tricks of the round. -/
def spent (S : State P C M) (p : P) : List C := cardsOf p (S.done.flatMap Trick.plays)

/-- What a player was dealt is what it holds, has laid and has spent. -/
def Shares (S : State P C M) : Prop := ∀ p,
  (S.hands p : Multiset C) + (S.laid p : Multiset C) + (S.spent p : Multiset C) = (S.deal.hands p : Multiset C)

theorem shares_start (d : Deal P C M) : Shares (start d) := by
  intro p
  simp [start, laid, spent]

section Moves

variable {R : Rules P C K M} {deals : List (Deal P C M)} {S : State P C M} {p : P} {c : C}
variable [DecidableEq C]

theorem laid_put (p p' : P) (c : C) :
    (S.put p c).laid p' = S.laid p' ++ if p = p' then [c] else [] := by
  rw [laid, put_plays, cardsOf_append, cardsOf_singleton]
  rfl

theorem Shares.put (h : Shares S) (hheld : c ∈ S.hands p) : Shares (S.put p c) := by
  intro p'
  rw [laid_put, put_deal, ← h p']
  show ((S.put p c).hands p' : Multiset C) + _ + (S.spent p' : Multiset C) = _
  by_cases hp : p = p'
  · subst hp
    have hself : ((S.put p c).hands p : Multiset C) + {c} = (S.hands p : Multiset C) := by
      simp only [State.put, Function.update_self]
      rw [add_comm, Multiset.singleton_add, ← Multiset.coe_erase,
        Multiset.cons_erase (Multiset.mem_coe.mpr hheld)]
    rw [if_pos rfl, ← hself, ← Multiset.coe_add, Multiset.coe_singleton]
    abel
  · rw [if_neg hp, List.append_nil]
    simp [State.put, Function.update_of_ne (Ne.symm hp)]

omit [DecidableEq C] in
theorem Shares.mem_deal (h : Shares S) {q : Play P C}
    (hq : q ∈ S.plays ∨ q ∈ S.done.flatMap Trick.plays) : q.card ∈ S.deal.hands q.seat := by
  have hmem : q.card ∈ (S.hands q.seat : Multiset C) + (S.laid q.seat : Multiset C) +
      (S.spent q.seat : Multiset C) := by
    rw [Multiset.mem_add, Multiset.mem_add, Multiset.mem_coe, Multiset.mem_coe, Multiset.mem_coe]
    rcases hq with hq | hq
    · exact .inl (.inr (mem_cardsOf.mpr ⟨q, hq, rfl, rfl⟩))
    · exact .inr (mem_cardsOf.mpr ⟨q, hq, rfl, rfl⟩)
  rw [h q.seat] at hmem
  exact Multiset.mem_coe.mp hmem

omit [DecidableEq P] [DecidableEq C] in
theorem done_cards (S : State P C M) :
    S.done.flatMap Trick.cards = (S.done.flatMap Trick.plays).map Play.card := by
  rw [List.map_flatMap]
  rfl

/-- The deal of a player without the tricks taken is at most what the player still has. -/
theorem Shares.deal_sub_done_le (h : Shares S) (p : P) :
    (S.deal.hands p : Multiset C) - (S.done.flatMap Trick.cards : Multiset C) ≤
      (S.hands p : Multiset C) + (S.laid p : Multiset C) := by
  rw [← h p, done_cards S]
  exact add_cardsOf_sub_le p _ _

/-- If no card is dealt twice, it is just that. -/
theorem Shares.deal_sub_done (h : Shares S) (hapart : S.deal.Apart) (p : P) :
    (S.deal.hands p : Multiset C) - (S.done.flatMap Trick.cards : Multiset C) =
      (S.hands p : Multiset C) + (S.laid p : Multiset C) := by
  rw [← h p, done_cards]
  refine add_cardsOf_sub fun q hq hne hmem => hne ?_
  have hmine : q.card ∈ S.deal.hands p := by
    have hall : q.card ∈ (S.hands p : Multiset C) + (S.laid p : Multiset C) +
        (S.spent p : Multiset C) := hmem
    rw [h p] at hall
    exact Multiset.mem_coe.mp hall
  exact hapart _ _ _ (h.mem_deal (.inr hq)) hmine

/-- What a player holds and has laid without the trick that is played. -/
theorem Shares.sub_plays (h : Shares S) (hapart : S.deal.Apart) (p : P) :
    (S.hands p : Multiset C) + (S.laid p : Multiset C) - (S.plays.map Play.card : Multiset C) =
      (S.hands p : Multiset C) := by
  refine add_cardsOf_sub fun q hq hne hmem => hne ?_
  have hmine : q.card ∈ S.deal.hands p := by
    rw [← Multiset.mem_coe, ← h p]
    exact Multiset.mem_add.mpr (.inl hmem)
  exact hapart _ _ _ (h.mem_deal (.inl hq)) hmine

variable [DecidableEq K]

omit [DecidableEq C] in
theorem Shares.collect (h : Shares S) : Shares (S.collect R) := by
  intro p
  have hspent : (S.collect R).spent p = S.spent p ++ S.laid p := by
    simp [spent, State.collect, laid]
  show (S.hands p : Multiset C) + ((S.collect R).laid p : Multiset C) + _ = (S.deal.hands p : Multiset C)
  rw [hspent, ← h p, ← Multiset.coe_add]
  simp only [laid, State.collect, cardsOf_nil, Multiset.coe_nil, add_zero]
  abel

/-- **One move keeps the shares.** -/
theorem Shares.play {S' : State P C M} {m : P × C} (h : Shares S)
    (hplay : S.play R deals m = some S') : Shares S' := by
  obtain ⟨⟨-, -, hheld, -⟩, hcases⟩ := play_eq_some hplay
  rcases hcases with ⟨-, rfl⟩ | ⟨-, -, rfl⟩ | ⟨-, -, rfl⟩
  · exact h.put hheld
  · exact (h.put hheld).collect
  · unfold State.close
    split
    · exact shares_start _
    · exact (h.put hheld).collect

/-- Every card of a finished round was dealt to the player who put it. -/
def PastDealt (S : State P C M) : Prop :=
  ∀ f ∈ S.past, ∀ t ∈ f.tricks, ∀ q ∈ t.plays, q.card ∈ f.deal.hands q.seat

/-- The present round joins the finished ones when it ends. -/
theorem PastDealt.play {S' : State P C M} {m : P × C} (h : PastDealt S) (hshares : Shares S)
    (hplay : S.play R deals m = some S') : PastDealt S' := by
  obtain ⟨⟨-, -, hheld, -⟩, hcases⟩ := play_eq_some hplay
  rcases hcases with ⟨-, rfl⟩ | ⟨-, -, rfl⟩ | ⟨-, -, rfl⟩
  · exact h
  · exact h
  · intro f hf t ht q hq
    rw [close_past] at hf
    rcases List.mem_append.mp hf with hold | hnew
    · exact h f hold t ht q hq
    · obtain rfl := List.mem_singleton.mp hnew
      have hround := (hshares.put hheld).collect (R := R)
      exact hround.mem_deal (.inr (List.mem_flatMap.mpr ⟨t, ht, hq⟩))

omit [DecidableEq K] in
theorem put_hands_sublist (S : State P C M) (p : P) (c : C) (p' : P) : ((S.put p c).hands p').Sublist (S.hands p') := by
  by_cases hp : p' = p
  · subst hp
    simpa [State.put] using List.erase_sublist
  · simp [State.put, Function.update_of_ne hp]

/-- **One move keeps the order of the cards**: a hand is what is left of the deal. -/
theorem play_hands_sublist {S' : State P C M} {m : P × C} (h : (S.hands p).Sublist (S.deal.hands p))
    (hplay : S.play R deals m = some S') : (S'.hands p).Sublist (S'.deal.hands p) := by
  have hput : ((S.put m.1 m.2).hands p).Sublist (S.deal.hands p) := (put_hands_sublist S m.1 m.2 p).trans h
  obtain ⟨-, ⟨-, rfl⟩ | ⟨-, -, rfl⟩ | ⟨-, -, rfl⟩⟩ := play_eq_some hplay
  · exact hput
  · exact hput
  · unfold State.close
    split
    · exact List.Sublist.refl _
    · exact hput

end Moves

section Circle

variable {R : Rules P C K M} {deals : List (Deal P C M)} {S : State P C M} {p : P} {c : C}

/-- Who is to move has laid nothing yet. -/
theorem Sound.laid_turn (h : Sound R deals S) : S.laid (S.turn R) = [] := by
  rw [← List.length_eq_zero_iff, laid, length_cardsOf, h.order, List.count_eq_zero]
  intro hmem
  obtain ⟨j, hj, heq⟩ := List.mem_iterate.mp hmem
  have hj' : j < R.seats := hj.trans h.short
  exact absurd (R.next_iterate_injOn S.leader h.short hj' heq) (by omega)

variable [DecidableEq C]

/-- In a full trick every player has laid one card. -/
theorem Sound.laid_full (h : Sound R deals S) (hlegal : S.Legal R p c)
    (hfull : (S.put p c).plays.length = R.seats) (p' : P) : ∃ c', (S.put p c).laid p' = [c'] := by
  rw [← List.length_eq_one_iff, laid, length_cardsOf, h.put_order hlegal, hfull, R.count_circle]

end Circle

end State

end TrickGame
