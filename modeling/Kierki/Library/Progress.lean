import Kierki.Library.TrickGame

/-!
# A trick-taking game comes to its end

The player whose turn it is can always put a card (`State.exists_legal`), and the number of cards put so
far says how far the game is: it is over when all cards of all deals have been put, and not before
(`State.Sound.history_length`, `State.Sound.closed_iff`).
-/

namespace TrickGame

variable {P C K M : Type*}

/-- Every trick of fair play has a card of each player. -/
theorem Trick.Fair.length {R : Rules P C K M} {leader : P} {t : Trick P C} (h : t.Fair R leader) :
    t.plays.length = R.seats := by
  rw [← List.length_map (f := Play.seat), h.order, List.length_iterate]

/-- The cards of fair tricks. -/
theorem Course.length_plays {R : Rules P C K M} {n : ℕ} {leader : P} {ts : List (Trick P C)}
    (h : Course R n leader ts) : (ts.flatMap Trick.plays).length = ts.length * R.seats := by
  induction ts generalizing n leader with
  | nil => simp
  | cons t ts ih =>
      rw [List.flatMap_cons, List.length_append, h.2.1.length, ih h.2.2, List.length_cons]
      ring

namespace State

variable {R : Rules P C K M} {deals : List (Deal P C M)} {S : State P C M} [DecidableEq P]

/-- How many tricks have been taken in the whole game. -/
def taken (R : Rules P C K M) (S : State P C M) : ℕ :=
  S.past.length * R.size + if S.closed then 0 else S.done.length

/-- **The cards put so far**: all of the tricks taken, and those of the trick that is played. -/
theorem Sound.history_length (h : Sound R deals S) :
    S.history.length = S.taken R * R.seats + S.plays.length := by
  have hpast : ∀ past : List (Finished P C M),
      (∀ (i : ℕ) (r : Finished P C M), past[i]? = some r →
        r.tricks.length = R.size ∧ Course R 1 r.deal.leader r.tricks) →
      ((past.flatMap Finished.tricks).flatMap Trick.plays).length = past.length * R.size * R.seats := by
    intro past hall
    induction past with
    | nil => simp
    | cons r past ih =>
        obtain ⟨hsize, hcourse⟩ := hall 0 r rfl
        have hrest := ih fun i r' hr' => hall (i + 1) r' hr'
        rw [List.flatMap_cons, List.flatMap_append, List.length_append, hcourse.length_plays, hsize,
          hrest, List.length_cons]
        ring
  have hdone : ((if S.closed then [] else S.done).flatMap Trick.plays).length =
      (if S.closed then 0 else S.done.length) * R.seats := by
    split
    · simp
    · exact h.course.length_plays
  rw [history, tricks, List.flatMap_append, List.length_append, List.length_append, hdone,
    hpast S.past fun i r hr => (h.past i r hr).2, taken]
  ring

/-- Nobody has put two cards to a trick. -/
theorem Sound.turn_free (h : Sound R deals S) : S.turn R ∉ S.plays.map Play.seat := by
  rw [h.order, List.mem_iterate]
  rintro ⟨i, hi, heq⟩
  exact absurd (R.next_iterate_injOn S.leader (hi.trans h.short) h.short heq.symm) hi.ne

/-- **The player whose turn it is can put a card.** -/
theorem Sound.exists_legal (h : Sound R deals S) (hgo : S.Unfinished R) (hopen : S.closed = false)
    (hdeal : (S.deal.hands (S.turn R)).length = R.size) : ∃ c, S.Legal R (S.turn R) c := by
  have hsize := h.sizes (S.turn R)
  rw [List.count_eq_zero.mpr h.turn_free, hdeal] at hsize
  have hlt := hgo hopen
  obtain ⟨c, hc⟩ : ∃ c, c ∈ S.hands (S.turn R) := List.exists_mem_of_length_pos (by omega)
  by_cases hsuit : ∃ d ∈ S.hands (S.turn R), ∀ k ∈ R.led S.plays, R.suit d = k
  · obtain ⟨d, hd, hled⟩ := hsuit
    exact ⟨d, hopen, rfl, hd, fun k hk => .inl (hled k hk)⟩
  · -- no card of the suit led is left, so any card will do
    refine ⟨c, hopen, rfl, hc, fun k hk => .inr fun d hd heq => hsuit ⟨d, hd, fun k' hk' => ?_⟩⟩
    rw [heq]
    exact Option.some.inj (hk.symm.trans hk')

/-- The rounds that are over are the first ones. -/
theorem Sound.past_le (h : Sound R deals S) : S.past.length ≤ deals.length := by
  by_contra hle
  have hlt : deals.length < S.past.length := not_le.mp hle
  obtain ⟨hdeal, -⟩ := h.past deals.length S.past[deals.length] (List.getElem?_eq_getElem hlt)
  simp at hdeal

/-- The game is over exactly when the rounds are. -/
theorem Sound.closed_iff (h : Sound R deals S) : S.closed = true ↔ S.past.length = deals.length := by
  refine ⟨fun hclosed => ?_, fun heq => ?_⟩
  · have hnone := List.getElem?_eq_none_iff.mp (h.ended hclosed).2.2.1
    exact h.past_le.antisymm hnone
  · by_contra hopen
    have hlive := h.live (by simpa using hopen)
    rw [heq] at hlive
    simp at hlive

/-- **The last card**: no game is longer than its deals, and it is over when all their cards are put. -/
theorem Sound.history_le (h : Sound R deals S) (hgo : S.Unfinished R) :
    S.history.length ≤ deals.length * R.size * R.seats ∧
      (S.history.length = deals.length * R.size * R.seats ↔ S.closed = true) := by
  rw [h.history_length, taken]
  cases hclosed : S.closed with
  | true =>
      obtain ⟨hplays, -⟩ := h.ended hclosed
      simp [h.closed_iff.mp hclosed, hplays]
  | false =>
      have hlt : S.past.length < deals.length :=
        lt_of_le_of_ne h.past_le fun heq => by simp [h.closed_iff.mpr heq] at hclosed
      have hround : (S.past.length + 1) * R.size ≤ deals.length * R.size := Nat.mul_le_mul_right _ hlt
      have htricks : S.past.length * R.size + S.done.length + 1 ≤ deals.length * R.size := by
        have := hgo hclosed
        rw [Nat.succ_mul] at hround
        omega
      have hcards := Nat.mul_le_mul_right R.seats htricks
      have hshort := h.short
      rw [Nat.succ_mul] at hcards
      have hstrict : (S.past.length * R.size + S.done.length) * R.seats + S.plays.length <
          deals.length * R.size * R.seats := by omega
      simp only [Bool.false_eq_true, if_false, iff_false]
      exact ⟨hstrict.le, hstrict.ne⟩

end State

end TrickGame
