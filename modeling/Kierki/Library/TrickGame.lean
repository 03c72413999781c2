import Kierki.Library.Execution

/-!
# Trick-taking games

A game for players who sit in a circle: in each trick every player puts one card, following the suit
that was led if possible; the highest card of that suit takes the trick and its player leads the next
one; after a fixed number of tricks the round is over and the next deal is played.

The game keeps its whole history.  `play` is one move and is partial: it exists exactly for the legal
moves.  `Sound` collects what holds of every game that was played from its first deal:

* a trick is put in the order of the circle, by players who followed suit, and goes to the highest card
  of the suit led (`Trick.Fair`);
* the first trick of a round is led by the leader of the deal, every other one by the taker of the one
  before (`Course`);
* the cards of the deal are in the hands, in the trick or in the tricks taken, and a hand has lost one
  card for each trick its player has put a card to.
-/

namespace TrickGame

open Execution

/-- The circle of players, the order of the cards and the price of a trick. -/
structure Rules (P C K M : Type*) where
  seats : ℕ
  next : P → P
  next_reach : ∀ p q, ∃ j < seats, next^[j] p = q
  next_apart : ∀ p j, 0 < j → j < seats → next^[j] p ≠ p
  suit : C → K
  rank : C → ℕ
  size : ℕ
  penalty : M → ℕ → List C → ℕ

/-- One deal. -/
structure Deal (P C M : Type*) where
  mode : M
  hands : P → List C
  leader : P

/-- A card put by a player, with the hand from which it was taken. -/
structure Play (P C : Type*) where
  seat : P
  card : C
  hand : List C

/-- A trick with its number in the round and its taker. -/
structure Trick (P C : Type*) where
  number : ℕ
  plays : List (Play P C)
  taker : P

/-- A round that was played to its end. -/
structure Finished (P C M : Type*) where
  deal : Deal P C M
  tricks : List (Trick P C)

/-- A game with its history. -/
structure State (P C M : Type*) where
  deal : Deal P C M
  hands : P → List C
  leader : P
  plays : List (Play P C)
  done : List (Trick P C)
  past : List (Finished P C M)
  closed : Bool

variable {P C K M : Type*}

def Trick.cards (t : Trick P C) : List C := t.plays.map Play.card

/-- The game before the first card of `d`. -/
def State.start (d : Deal P C M) : State P C M := ⟨d, d.hands, d.leader, [], [], [], false⟩

namespace Rules

variable (R : Rules P C K M)

/-- The suit led. -/
def led (plays : List (Play P C)) : Option K := plays.head?.map fun q => R.suit q.card

/-- A card may be put from `hand`: it follows the suit led, or the hand cannot. -/
def Follows (plays : List (Play P C)) (hand : List C) (c : C) : Prop :=
  ∀ k ∈ R.led plays, R.suit c = k ∨ ∀ d ∈ hand, R.suit d ≠ k

instance [DecidableEq K] (plays : List (Play P C)) (hand : List C) (c : C) :
    Decidable (R.Follows plays hand c) := by
  unfold Follows
  infer_instance

/-- The better of the best play so far and the plays after it. -/
def best [DecidableEq K] (k : K) : Play P C → List (Play P C) → Play P C
  | b, [] => b
  | b, q :: qs => if R.suit q.card = k ∧ R.rank b.card < R.rank q.card then best k q qs else best k b qs

/-- Who takes a trick. -/
def taker [DecidableEq K] (nobody : P) : List (Play P C) → P
  | [] => nobody
  | first :: rest => (R.best (R.suit first.card) first rest).seat

/-- What a player pays for the tricks it took. -/
def points [DecidableEq P] (mode : M) (tricks : List (Trick P C)) (p : P) : ℕ :=
  ((tricks.filter fun t => t.taker = p).map fun t => R.penalty mode t.number t.cards).sum

theorem points_concat [DecidableEq P] (mode : M) (ts : List (Trick P C)) (t : Trick P C) (p : P) :
    R.points mode (ts ++ [t]) p =
      R.points mode ts p + if t.taker = p then R.penalty mode t.number t.cards else 0 := by
  by_cases h : t.taker = p <;> simp [points, List.filter_append, h]

/-- What all players pay together is the price of all tricks. -/
theorem sum_points [DecidableEq P] [Fintype P] (mode : M) (tricks : List (Trick P C)) :
    ∑ p, R.points mode tricks p = (tricks.map fun t => R.penalty mode t.number t.cards).sum := by
  induction tricks using List.reverseRecOn with
  | nil => simp [points]
  | append_singleton tricks t ih =>
      simp only [points_concat, Finset.sum_add_distrib, ih]
      simp

/-- A player pays at most for all tricks. -/
theorem points_le [DecidableEq P] {mode : M} {tricks : List (Trick P C)} {cost : ℕ}
    (h : ∀ t ∈ tricks, R.penalty mode t.number t.cards ≤ cost) (p : P) :
    R.points mode tricks p ≤ tricks.length * cost := by
  have htaken : R.points mode tricks p ≤ (tricks.filter fun t => t.taker = p).length * cost := by
    have hsum := List.sum_le_card_nsmul ((tricks.filter fun t => t.taker = p).map fun t =>
      R.penalty mode t.number t.cards) cost fun x hx => by
        obtain ⟨t, ht, rfl⟩ := List.mem_map.mp hx
        exact h t (List.mem_of_mem_filter ht)
    simpa [points] using hsum
  exact htaken.trans (Nat.mul_le_mul_right cost (List.length_filter_le _ _))

end Rules

namespace State

variable (R : Rules P C K M)

/-- Whose turn it is. -/
def turn (S : State P C M) : P := R.next^[S.plays.length] S.leader

def Legal (S : State P C M) (p : P) (c : C) : Prop :=
  S.closed = false ∧ p = S.turn R ∧ c ∈ S.hands p ∧ R.Follows S.plays (S.hands p) c

instance [DecidableEq P] [DecidableEq C] [DecidableEq K] (S : State P C M) (p : P) (c : C) :
    Decidable (S.Legal R p c) := by
  unfold Legal
  infer_instance

/-- The card goes to the table. -/
def put [DecidableEq P] [DecidableEq C] (S : State P C M) (p : P) (c : C) : State P C M :=
  { S with
    hands := Function.update S.hands p ((S.hands p).erase c)
    plays := S.plays ++ [⟨p, c, S.hands p⟩] }

section PutFields

variable [DecidableEq P] [DecidableEq C] (S : State P C M) (p : P) (c : C)

@[simp] theorem put_deal : (S.put p c).deal = S.deal := rfl
@[simp] theorem put_leader : (S.put p c).leader = S.leader := rfl
@[simp] theorem put_done : (S.put p c).done = S.done := rfl
@[simp] theorem put_past : (S.put p c).past = S.past := rfl
@[simp] theorem put_closed : (S.put p c).closed = S.closed := rfl

@[simp] theorem put_plays : (S.put p c).plays = S.plays ++ [⟨p, c, S.hands p⟩] := rfl

end PutFields

/-- The trick goes to its taker, who leads the next one. -/
def collect [DecidableEq K] (S : State P C M) : State P C M :=
  { S with
    leader := R.taker S.leader S.plays
    plays := []
    done := S.done ++ [⟨S.done.length + 1, S.plays, R.taker S.leader S.plays⟩] }

/-- The round is over; the next deal is played, if there is one. -/
def close (deals : List (Deal P C M)) (S : State P C M) : State P C M :=
  match deals[S.past.length + 1]? with
  | some d => { start d with past := S.past ++ [⟨S.deal, S.done⟩] }
  | none => { S with past := S.past ++ [⟨S.deal, S.done⟩], closed := true }

/-- One move. -/
def play [DecidableEq P] [DecidableEq C] [DecidableEq K] (deals : List (Deal P C M))
    (S : State P C M) (m : P × C) : Option (State P C M) :=
  if S.Legal R m.1 m.2 then
    if (S.put m.1 m.2).plays.length < R.seats then some (S.put m.1 m.2)
    else if ((S.put m.1 m.2).collect R).done.length < R.size then some ((S.put m.1 m.2).collect R)
    else some (((S.put m.1 m.2).collect R).close deals)
  else none

/-- There is another deal. -/
theorem close_next {deals : List (Deal P C M)} {S : State P C M} {d : Deal P C M}
    (h : deals[S.past.length + 1]? = some d) :
    S.close deals = { start d with past := S.past ++ [⟨S.deal, S.done⟩] } := by
  rw [close, h]

/-- It was the last one. -/
theorem close_last {deals : List (Deal P C M)} {S : State P C M} (h : deals[S.past.length + 1]? = none) :
    S.close deals = { S with past := S.past ++ [⟨S.deal, S.done⟩], closed := true } := by
  rw [close, h]

theorem close_past (deals : List (Deal P C M)) (S : State P C M) :
    (S.close deals).past = S.past ++ [⟨S.deal, S.done⟩] := by
  unfold close
  split <;> rfl

/-- The tricks of the whole game. -/
def tricks (S : State P C M) : List (Trick P C) :=
  S.past.flatMap Finished.tricks ++ if S.closed then [] else S.done

/-- The cards put in the whole game. -/
def history (S : State P C M) : List (Play P C) := S.tricks.flatMap Trick.plays ++ S.plays

/-- What a player has to pay in the present round. -/
def roundPoints [DecidableEq P] (S : State P C M) (p : P) : ℕ :=
  if S.closed then 0 else R.points S.deal.mode S.done p

/-- What a player has to pay for the finished rounds. -/
def total [DecidableEq P] (S : State P C M) (p : P) : ℕ :=
  (S.past.map fun r => R.points r.deal.mode r.tricks p).sum

end State

section Tricks

variable (R : Rules P C K M)

/-- A trick that was led by `leader` and played by the rules. -/
structure Trick.Fair (leader : P) (t : Trick P C) : Prop where
  order : t.plays.map Play.seat = List.iterate R.next leader R.seats
  follows : ∀ q ∈ t.plays, q.card ∈ q.hand ∧ R.Follows t.plays q.hand q.card
  highest : ∃ q ∈ t.plays, q.seat = t.taker ∧ R.suit q.card ∈ R.led t.plays ∧
    ∀ q' ∈ t.plays, R.suit q'.card ∈ R.led t.plays → R.rank q'.card ≤ R.rank q.card

/-- Tricks one after the other, the first with number `n` and led by `leader`. -/
def Course : ℕ → P → List (Trick P C) → Prop
  | _, _, [] => True
  | n, leader, t :: ts => t.number = n ∧ t.Fair R leader ∧ Course (n + 1) t.taker ts

/-- Who leads the trick after `ts`. -/
def leaderAfter (leader : P) (ts : List (Trick P C)) : P := (ts.getLast?.map Trick.taker).getD leader

@[simp] theorem leaderAfter_nil (leader : P) :
    leaderAfter leader ([] : List (Trick P C)) = leader := rfl

@[simp] theorem leaderAfter_concat (leader : P) (ts : List (Trick P C)) (t : Trick P C) :
    leaderAfter leader (ts ++ [t]) = t.taker := by
  simp [leaderAfter]

theorem leaderAfter_cons (leader : P) (t : Trick P C) (ts : List (Trick P C)) :
    leaderAfter leader (t :: ts) = leaderAfter t.taker ts := by
  cases ts using List.reverseRecOn with
  | nil => rfl
  | append_singleton ts u => rw [← List.cons_append, leaderAfter_concat, leaderAfter_concat]

theorem course_concat {n : ℕ} {leader : P} {ts : List (Trick P C)} {t : Trick P C} :
    Course R n leader (ts ++ [t]) ↔
      Course R n leader ts ∧ t.number = n + ts.length ∧ t.Fair R (leaderAfter leader ts) := by
  induction ts generalizing n leader with
  | nil => simp [Course]
  | cons u ts ih =>
      simp only [List.cons_append, Course, ih, leaderAfter_cons, List.length_cons, and_assoc]
      rw [show n + 1 + ts.length = n + (ts.length + 1) by omega]

/-- The tricks of a course are numbered one after the other. -/
theorem Course.numbers {n : ℕ} {leader : P} {ts : List (Trick P C)} (h : Course R n leader ts) :
    ts.map Trick.number = List.range' n ts.length := by
  induction ts generalizing n leader with
  | nil => rfl
  | cons t ts ih => simp [List.range'_succ, h.1, ih h.2.2]

/-- Every trick of a course was played by the rules. -/
theorem Course.fair {n : ℕ} {leader : P} {ts : List (Trick P C)} (h : Course R n leader ts)
    {t : Trick P C} (ht : t ∈ ts) : ∃ leader, t.Fair R leader := by
  induction ts generalizing n leader with
  | nil => simp at ht
  | cons u ts ih =>
      rcases List.mem_cons.mp ht with rfl | ht
      · exact ⟨leader, h.2.1⟩
      · exact ih h.2.2 ht

variable [DecidableEq K]

/-- `best` finds a highest card of the suit among the plays it looks at. -/
theorem Rules.best_spec {k : K} {b : Play P C} (qs : List (Play P C)) (hb : R.suit b.card = k) :
    R.best k b qs ∈ b :: qs ∧ R.suit (R.best k b qs).card = k ∧
      ∀ q ∈ b :: qs, R.suit q.card = k → R.rank q.card ≤ R.rank (R.best k b qs).card := by
  induction qs generalizing b with
  | nil => simp [best, hb]
  | cons q qs ih =>
      rw [best]
      by_cases hq : R.suit q.card = k ∧ R.rank b.card < R.rank q.card
      · rw [if_pos hq]
        obtain ⟨hmem, hsuit, hmax⟩ := ih hq.1
        refine ⟨List.mem_cons_of_mem _ hmem, hsuit, fun q' hq' hk => ?_⟩
        rcases List.mem_cons.mp hq' with rfl | hq'
        · exact hq.2.le.trans (hmax q List.mem_cons_self hq.1)
        · exact hmax q' hq' hk
      · rw [if_neg hq]
        obtain ⟨hmem, hsuit, hmax⟩ := ih hb
        refine ⟨?_, hsuit, fun q' hq' hk => ?_⟩
        · rcases List.mem_cons.mp hmem with he | hmem
          · rw [he]
            exact List.mem_cons_self
          · exact List.mem_cons_of_mem _ (List.mem_cons_of_mem _ hmem)
        · rcases List.mem_cons.mp hq' with rfl | hq'
          · exact hmax _ List.mem_cons_self hk
          · rcases List.mem_cons.mp hq' with rfl | hq'
            · have hle : R.rank q'.card ≤ R.rank b.card := not_lt.mp fun hlt => hq ⟨hk, hlt⟩
              exact hle.trans (hmax b List.mem_cons_self hb)
            · exact hmax q' (List.mem_cons_of_mem _ hq') hk

theorem Rules.taker_spec (nobody : P) {plays : List (Play P C)} (hne : plays ≠ []) :
    ∃ q ∈ plays, q.seat = R.taker nobody plays ∧ R.suit q.card ∈ R.led plays ∧
      ∀ q' ∈ plays, R.suit q'.card ∈ R.led plays → R.rank q'.card ≤ R.rank q.card := by
  cases plays with
  | nil => exact absurd rfl hne
  | cons first rest =>
      obtain ⟨hmem, hsuit, hmax⟩ := R.best_spec rest (rfl : R.suit first.card = R.suit first.card)
      refine ⟨_, hmem, rfl, by simp [led, hsuit], fun q' hq' hk => hmax q' hq' ?_⟩
      simpa [led, eq_comm] using hk

end Tricks

section Circle

variable (R : Rules P C K M)

theorem Rules.next_iterate_injOn (leader : P) {i j : ℕ} (hi : i < R.seats) (hj : j < R.seats)
    (h : R.next^[i] leader = R.next^[j] leader) : i = j := by
  have hapart {i j : ℕ} (hj : j < R.seats) (hlt : i < j)
      (h : R.next^[i] leader = R.next^[j] leader) : False := by
    refine R.next_apart (R.next^[i] leader) (j - i) (by omega) (by omega) ?_
    rw [← Function.iterate_add_apply, Nat.sub_add_cancel hlt.le, h]
  rcases lt_trichotomy i j with hlt | heq | hlt
  · exact absurd h fun h => hapart hj hlt h
  · exact heq
  · exact absurd h fun h => hapart hi hlt h.symm

/-- Once round the circle meets every player exactly once. -/
theorem Rules.count_circle [DecidableEq P] (leader p : P) :
    (List.iterate R.next leader R.seats).count p = 1 := by
  rw [← List.range_map_iterate]
  refine List.count_eq_one_of_mem ?_ ?_
  · refine (List.nodup_range).map_on fun i hi j hj h => ?_
    exact R.next_iterate_injOn leader (List.mem_range.mp hi) (List.mem_range.mp hj) h
  · obtain ⟨j, hj, hp⟩ := R.next_reach leader p
    exact List.mem_map.mpr ⟨j, List.mem_range.mpr hj, hp⟩

/-- One more card on the table. -/
theorem Rules.led_append {plays : List (Play P C)} {q : Play P C} (hq : q ∈ plays)
    (rest : List (Play P C)) : R.led (plays ++ rest) = R.led plays := by
  cases plays with
  | nil => simp at hq
  | cons first plays => rfl

theorem Rules.follows_concat {plays : List (Play P C)} {q : Play P C}
    (h : R.Follows plays q.hand q.card) : R.Follows (plays ++ [q]) q.hand q.card := by
  cases plays with
  | nil =>
      intro k hk
      exact .inl (by simpa [led] using hk)
  | cons first rest => exact h

end Circle

section Moves

namespace State

variable {R : Rules P C K M} {deals : List (Deal P C M)} {S : State P C M} {p : P} {c : C}

variable [DecidableEq P]

/-- What holds of every game that was played from its first deal, but for the end of a round. -/
structure Sound (R : Rules P C K M) (deals : List (Deal P C M)) (S : State P C M) : Prop where
  order : S.plays.map Play.seat = List.iterate R.next S.leader S.plays.length
  short : S.plays.length < R.seats
  follows : ∀ q ∈ S.plays, q.card ∈ q.hand ∧ R.Follows S.plays q.hand q.card
  course : Course R 1 S.deal.leader S.done
  leads : S.leader = leaderAfter S.deal.leader S.done
  live : S.closed = false → deals[S.past.length]? = some S.deal
  ended : S.closed = true → S.plays = [] ∧ S.done.length = R.size ∧ deals[S.past.length]? = none ∧
    ∃ before, S.past = before ++ [⟨S.deal, S.done⟩]
  past : ∀ (i : ℕ) (r : Finished P C M), S.past[i]? = some r →
    deals[i]? = some r.deal ∧ r.tricks.length = R.size ∧ Course R 1 r.deal.leader r.tricks
  sizes : ∀ p, (S.hands p).length + S.done.length + (S.plays.map Play.seat).count p =
    (S.deal.hands p).length

/-- The tricks of the present round are tricks of the game. -/
theorem Sound.done_subset (h : Sound R deals S) {t : Trick P C} (ht : t ∈ S.done) :
    t ∈ S.tricks := by
  cases hclosed : S.closed with
  | false => simp [tricks, hclosed, ht]
  | true =>
      obtain ⟨-, -, -, before, hpast⟩ := h.ended hclosed
      simp [tricks, hclosed, hpast, ht]

/-- A round that is still played has a trick to go. -/
def Unfinished (R : Rules P C K M) (S : State P C M) : Prop :=
  S.closed = false → S.done.length < R.size

theorem sound_start {d : Deal P C M} (hseats : 0 < R.seats) (hd : deals[0]? = some d) :
    Sound R deals (start d) where
  order := rfl
  short := hseats
  follows := by simp [start]
  course := trivial
  leads := rfl
  live := fun _ => hd
  ended := fun h => by simp [start] at h
  past := by simp [start]
  sizes := by simp [start]

/-- The end of a round. -/
theorem Sound.close (h : Sound R deals S) (hopen : S.closed = false) (hplays : S.plays = [])
    (hdone : S.done.length = R.size) : Sound R deals (S.close deals) := by
  have hpast : ∀ (i : ℕ) (r : Finished P C M), (S.past ++ [⟨S.deal, S.done⟩])[i]? = some r →
      deals[i]? = some r.deal ∧ r.tricks.length = R.size ∧ Course R 1 r.deal.leader r.tricks := by
    intro i r hr
    rcases lt_trichotomy i S.past.length with hlt | rfl | hgt
    · exact h.past i r (by rwa [List.getElem?_append_left hlt] at hr)
    · obtain rfl : _ = r := Option.some.inj (List.getElem?_concat_length.symm.trans hr)
      exact ⟨h.live hopen, hdone, h.course⟩
    · rw [List.getElem?_eq_none (by simp; omega)] at hr
      cases hr
  unfold State.close
  cases hd : deals[S.past.length + 1]? with
  | some d =>
      exact ⟨rfl, (Nat.zero_le _).trans_lt h.short, by simp [start], trivial, rfl,
        fun _ => by simpa [start] using hd, fun hclosed => by simp [start] at hclosed, hpast,
        by simp [start]⟩
  | none =>
      exact ⟨h.order, h.short, h.follows, h.course, h.leads, fun hlive => by simp at hlive,
        fun _ => ⟨hplays, hdone, by simpa using hd, S.past, rfl⟩, hpast, h.sizes⟩

variable [DecidableEq C]

/-- The trick with one more card. -/
theorem Sound.put_order (h : Sound R deals S) (hlegal : S.Legal R p c) :
    (S.put p c).plays.map Play.seat =
      List.iterate R.next S.leader (S.put p c).plays.length := by
  have hlen : (S.put p c).plays.length = S.plays.length + 1 := by simp
  rw [hlen, List.iterate_add, ← h.order]
  simp [hlegal.2.1, turn]

theorem Sound.put_follows (h : Sound R deals S) (hlegal : S.Legal R p c) :
    ∀ q ∈ (S.put p c).plays, q.card ∈ q.hand ∧ R.Follows (S.put p c).plays q.hand q.card := by
  obtain ⟨-, -, hheld, hfollow⟩ := hlegal
  intro q hq
  rcases List.mem_append.mp hq with hq | hq
  · obtain ⟨hmem, hf⟩ := h.follows q hq
    refine ⟨hmem, ?_⟩
    rw [Rules.Follows, put_plays, R.led_append hq]
    exact hf
  · obtain rfl := List.mem_singleton.mp hq
    exact ⟨hheld, R.follows_concat hfollow⟩

theorem Sound.put_sizes (h : Sound R deals S) (hlegal : S.Legal R p c) (p' : P) :
    ((S.put p c).hands p').length + S.done.length + ((S.put p c).plays.map Play.seat).count p' =
      (S.deal.hands p').length := by
  have hsize := h.sizes p'
  obtain ⟨-, -, hheld, -⟩ := hlegal
  by_cases hp : p' = p
  · subst hp
    have hlen := List.length_erase_of_mem hheld
    have hpos := List.length_pos_of_mem hheld
    simp only [put, Function.update_self, List.map_append, List.map_cons, List.map_nil,
      List.count_append, List.count_singleton_self, hlen]
    omega
  · simpa [put, Function.update_of_ne hp, List.count_singleton, Ne.symm hp] using hsize

/-- A legal card that does not fill the trick. -/
theorem Sound.put (h : Sound R deals S) (hlegal : S.Legal R p c)
    (hshort : (S.put p c).plays.length < R.seats) : Sound R deals (S.put p c) where
  order := h.put_order hlegal
  short := hshort
  follows := h.put_follows hlegal
  course := h.course
  leads := h.leads
  live := h.live
  ended := fun hclosed => absurd (hlegal.1.symm.trans hclosed) (by simp)
  past := h.past
  sizes := h.put_sizes hlegal

variable [DecidableEq K]

/-- A full trick is a fair one. -/
theorem Sound.put_fair (h : Sound R deals S) (hlegal : S.Legal R p c)
    (hfull : R.seats ≤ (S.put p c).plays.length) :
    Trick.Fair R S.leader
      ⟨S.done.length + 1, (S.put p c).plays, R.taker S.leader (S.put p c).plays⟩ := by
  have hlen : (S.put p c).plays.length = R.seats := by
    have hshort := h.short
    simp only [put_plays, List.length_append, List.length_singleton] at hfull ⊢
    omega
  refine ⟨?_, h.put_follows hlegal, R.taker_spec S.leader (by simp)⟩
  rw [← hlen]
  exact h.put_order hlegal

/-- A legal card that fills the trick. -/
theorem Sound.collect (h : Sound R deals S) (hlegal : S.Legal R p c)
    (hfull : R.seats ≤ (S.put p c).plays.length) : Sound R deals ((S.put p c).collect R) where
  order := rfl
  short := (Nat.zero_le _).trans_lt h.short
  follows := by simp [State.collect]
  course := by
    refine (course_concat R).mpr ⟨h.course, by simp [add_comm], ?_⟩
    change Trick.Fair R (leaderAfter S.deal.leader S.done) _
    rw [← h.leads]
    exact h.put_fair hlegal hfull
  leads := by simp [State.collect]
  live := h.live
  ended := fun hclosed => absurd (hlegal.1.symm.trans hclosed) (by simp)
  past := h.past
  sizes := by
    intro p'
    have hput := h.put_sizes hlegal p'
    rw [(h.put_fair hlegal hfull).order, R.count_circle] at hput
    simp only [State.collect, put_done, put_deal, List.length_append, List.length_singleton,
      List.map_nil, List.count_nil]
    omega

/-- The three outcomes of a move: the trick goes on, the trick is over, the round is over. -/
theorem play_eq_some {S' : State P C M} {m : P × C} (h : S.play R deals m = some S') :
    S.Legal R m.1 m.2 ∧
      (((S.put m.1 m.2).plays.length < R.seats ∧ S' = S.put m.1 m.2) ∨
        (R.seats ≤ (S.put m.1 m.2).plays.length ∧ S.done.length + 1 < R.size ∧
          S' = (S.put m.1 m.2).collect R) ∨
        (R.seats ≤ (S.put m.1 m.2).plays.length ∧ R.size ≤ S.done.length + 1 ∧
          S' = ((S.put m.1 m.2).collect R).close deals)) := by
  unfold play at h
  by_cases hlegal : S.Legal R m.1 m.2
  · rw [if_pos hlegal] at h
    refine ⟨hlegal, ?_⟩
    have hdone : ((S.put m.1 m.2).collect R).done.length = S.done.length + 1 := by
      simp [collect, put]
    rw [hdone] at h
    by_cases hshort : (S.put m.1 m.2).plays.length < R.seats
    · rw [if_pos hshort] at h
      exact .inl ⟨hshort, (Option.some.inj h).symm⟩
    · rw [if_neg hshort] at h
      by_cases hsize : S.done.length + 1 < R.size
      · rw [if_pos hsize] at h
        exact .inr (.inl ⟨not_lt.mp hshort, hsize, (Option.some.inj h).symm⟩)
      · rw [if_neg hsize] at h
        exact .inr (.inr ⟨not_lt.mp hshort, not_lt.mp hsize, (Option.some.inj h).symm⟩)
  · rw [if_neg hlegal] at h
    cases h

/-- A move is legal or impossible. -/
theorem play_isSome_iff (S : State P C M) (m : P × C) :
    (S.play R deals m).isSome ↔ S.Legal R m.1 m.2 := by
  unfold play
  split
  · simp only [*, iff_true]
    split
    · rfl
    · split <;> rfl
  · simp only [*, Option.isSome_none, Bool.false_eq_true]

/-- A move that fills the trick puts it on record, any other move leaves the tricks alone. -/
theorem play_tricks {S' : State P C M} {m : P × C} (h : S.play R deals m = some S') :
    S'.tricks = S.tricks ++ if R.seats ≤ (S.put m.1 m.2).plays.length then
      [⟨S.done.length + 1, (S.put m.1 m.2).plays, R.taker S.leader (S.put m.1 m.2).plays⟩] else [] := by
  obtain ⟨⟨hopen, -⟩, hcases⟩ := play_eq_some h
  rcases hcases with ⟨hshort, rfl⟩ | ⟨hfull, -, rfl⟩ | ⟨hfull, -, rfl⟩
  · rw [if_neg (not_le.mpr hshort), List.append_nil]
    rfl
  · rw [if_pos hfull]
    simp [tricks, State.collect, hopen]
  · rw [if_pos hfull]
    unfold State.close
    split <;> simp [tricks, State.collect, start, hopen]

/-- A move puts one card on record, with the hand it was taken from. -/
theorem play_history {S' : State P C M} {m : P × C} (h : S.play R deals m = some S') :
    S'.history = S.history ++ [⟨m.1, m.2, S.hands m.1⟩] := by
  obtain ⟨⟨hopen, -⟩, hcases⟩ := play_eq_some h
  rcases hcases with ⟨-, rfl⟩ | ⟨-, -, rfl⟩ | ⟨-, -, rfl⟩
  · simp [history, tricks, put, hopen]
  · simp [history, tricks, collect, put, hopen]
  · unfold close
    split <;> simp [history, tricks, collect, put, start, hopen]

/-- **One move keeps the game sound.** -/
theorem Sound.play {S' : State P C M} {m : P × C} (h : Sound R deals S) (hgo : S.Unfinished R)
    (hplay : S.play R deals m = some S') : Sound R deals S' ∧ S'.Unfinished R := by
  obtain ⟨hlegal, hcases⟩ := play_eq_some hplay
  rcases hcases with ⟨hshort, rfl⟩ | ⟨hfull, hsize, rfl⟩ | ⟨hfull, hsize, rfl⟩
  · exact ⟨h.put hlegal hshort, hgo⟩
  · exact ⟨h.collect hlegal hfull, fun _ => by simpa [State.collect] using hsize⟩
  · have hlast := hgo hlegal.1
    have hdone : ((S.put m.1 m.2).collect R).done.length = R.size := by
      simp only [State.collect, put_done, List.length_append, List.length_singleton]
      omega
    refine ⟨(h.collect hlegal hfull).close hlegal.1 rfl hdone, ?_⟩
    unfold State.close
    split
    · exact fun _ => by simp [start]; omega
    · exact fun hopen => by simp at hopen

section Conservation

variable [Fintype P]

/-- Every card of the deal that is played: in a hand, in the trick or in a trick taken. -/
def Conserves (S : State P C M) : Prop :=
  (∑ p, (S.hands p : Multiset C)) +
      ((S.plays.map Play.card ++ S.done.flatMap Trick.cards : List C) : Multiset C) =
    ∑ p, (S.deal.hands p : Multiset C)

omit [DecidableEq P] [DecidableEq C] [DecidableEq K] in
theorem conserves_start (d : Deal P C M) : Conserves (start d) := by
  simp [Conserves, start]

omit [DecidableEq K] in
/-- A card that is put leaves one hand. -/
theorem sum_put_hands (hheld : c ∈ S.hands p) :
    (∑ q, ((S.put p c).hands q : Multiset C)) + {c} = ∑ q, (S.hands q : Multiset C) := by
  have hrest : ∑ q ∈ Finset.univ.erase p, ((S.put p c).hands q : Multiset C) =
      ∑ q ∈ Finset.univ.erase p, (S.hands q : Multiset C) :=
    Finset.sum_congr rfl fun q hq => by simp [State.put, Finset.ne_of_mem_erase hq]
  have hself : ((S.put p c).hands p : Multiset C) + {c} = (S.hands p : Multiset C) := by
    simp only [State.put, Function.update_self]
    rw [add_comm, Multiset.singleton_add, ← Multiset.coe_erase,
      Multiset.cons_erase (Multiset.mem_coe.mpr hheld)]
  rw [← Finset.add_sum_erase _ _ (Finset.mem_univ p), hrest, add_right_comm, hself,
    Finset.add_sum_erase _ (fun q => (S.hands q : Multiset C)) (Finset.mem_univ p)]

omit [DecidableEq K] in
theorem Conserves.put (h : Conserves S) (hheld : c ∈ S.hands p) : Conserves (S.put p c) := by
  unfold Conserves at h ⊢
  rw [put_deal, ← h, ← sum_put_hands hheld]
  simp only [put_plays, put_done, List.map_append, List.map_cons, List.map_nil,
    ← Multiset.coe_add, Multiset.coe_singleton]
  abel

omit [DecidableEq P] [DecidableEq C] in
theorem Conserves.collect (h : Conserves S) : Conserves (S.collect R) := by
  unfold Conserves at h ⊢
  rw [show (S.collect R).deal = S.deal from rfl, ← h]
  simp only [State.collect, List.map_nil, List.nil_append, List.flatMap_append, Trick.cards,
    List.flatMap_cons, List.flatMap_nil, List.append_nil, ← Multiset.coe_add]
  abel

/-- One move neither makes nor loses a card. -/
theorem Conserves.play {S' : State P C M} {m : P × C} (h : Conserves S)
    (hplay : S.play R deals m = some S') : Conserves S' := by
  obtain ⟨⟨-, -, hheld, -⟩, hcases⟩ := play_eq_some hplay
  rcases hcases with ⟨-, rfl⟩ | ⟨-, -, rfl⟩ | ⟨-, -, rfl⟩
  · exact h.put hheld
  · exact (h.put hheld).collect
  · unfold State.close
    split
    · exact conserves_start _
    · exact (h.put hheld).collect

omit [DecidableEq P] [DecidableEq C] [DecidableEq K] in
/-- When nobody holds a card and none is on the table, the tricks are the deal. -/
theorem Conserves.tricks_eq_deal (h : Conserves S) (hhands : ∀ p, S.hands p = [])
    (hplays : S.plays = []) :
    ((S.done.flatMap Trick.cards : List C) : Multiset C) = ∑ p, (S.deal.hands p : Multiset C) := by
  unfold Conserves at h
  simpa [hhands, hplays] using h

end Conservation

end State

end Moves

end TrickGame
