import Mathlib

/-!
# Sending without blocking

`sendNoBlockN` of `common/utils.cpp`.  The kernel is a sequence of answers, one for each call of `send`, that
never accepts more than the buffer holds.  Every call is kept with the place in the buffer it starts from,
the bytes it offers and the bytes the kernel takes of them.

* `sendNoBlockN_eq` says for every sequence of answers after how many calls the loop ends, and with what.
* `sendNoBlockN_reports_iff`: the value that is returned tells what was sent, but for a loop that ends on a
  full socket.
* `ret_eq_iff`: the test that all callers make of the value is right nevertheless, and `sent_eq_take`: what
  gets through is the beginning of the buffer.
-/

namespace Kierki

/-- How a call of `send` comes out. -/
inductive SendResult
  /-- the number of bytes that the kernel takes -/
  | accepted (t : Nat)
  /-- `-1` with `EAGAIN` or `EWOULDBLOCK` -/
  | wouldBlock
  /-- `-1` with another `errno` -/
  | failed
  deriving DecidableEq, Repr

namespace SendResult

/-- What `send` returns. -/
def ret : SendResult → Int
  | accepted t => t
  | wouldBlock | failed => -1

/-- The bytes that the kernel takes. -/
def count : SendResult → Nat
  | accepted t => t
  | wouldBlock | failed => 0

/-- The test of `errno`, which a call that succeeds leaves at zero. -/
def Full (r : SendResult) : Prop := r = wouldBlock

instance (r : SendResult) : Decidable r.Full := by
  unfold Full
  infer_instance

/-- Some bytes get through. -/
def Progress (r : SendResult) : Prop := 0 < r.count

instance (r : SendResult) : Decidable r.Progress := by
  unfold Progress
  infer_instance

end SendResult

open SendResult

/-- The answers to the calls of `send` for a buffer of `n` bytes. -/
structure Answers (n : Nat) where
  answer : Nat → SendResult
  within : ∀ k, ∑ i ∈ Finset.range k, (answer i).count ≤ n

namespace Answers

variable {n : Nat} (s : Answers n)

/-- The bytes that the first `k` calls get through. -/
def taken (k : Nat) : Nat := ∑ i ∈ Finset.range k, (s.answer i).count

@[simp] theorem taken_zero : s.taken 0 = 0 := rfl

theorem taken_succ (k : Nat) : s.taken (k + 1) = s.taken k + (s.answer k).count :=
  Finset.sum_range_succ _ k

theorem taken_le (k : Nat) : s.taken k ≤ n := s.within k

/-- The socket is full while bytes are left, and every call before got some through. -/
def Stalls : Prop := ∃ k, (∀ i < k, (s.answer i).Progress) ∧ s.taken k < n ∧ (s.answer k).Full

end Answers

/-- A call of `send`: the place in the buffer, the bytes offered, and how it comes out. -/
structure Chunk where
  offset : Nat
  offered : Nat
  result : SendResult
  deriving DecidableEq, Repr

/-- What `sendNoBlockN` returns, and its calls of `send`. -/
structure Sent where
  ret : Int
  chunks : List Chunk
  deriving DecidableEq, Repr

/-- The body of the loop behind the call of `send`: the value to return, or `_written`. -/
def sendTurn (n : Nat) (r : SendResult) (written : Nat) : Int ⊕ Nat :=
  if r.ret ≠ (n : Int) - written ∧ r.Full then .inl (written + r.ret)
  else if r.ret ≤ 0 then .inl (-1)
  else .inr (written + r.count)

/-- The loop, with the calls it has made. -/
def sendLoop {n : Nat} (s : Answers n) : Nat → Nat → List Chunk → Option Sent
  | 0, _, _ => none
  | fuel + 1, written, chunks =>
      if written < n then
        let r := s.answer chunks.length
        let chunks := chunks ++ [⟨written, n - written, r⟩]
        match sendTurn n r written with
        | .inl ret => some ⟨ret, chunks⟩
        | .inr written => sendLoop s fuel written chunks
      else some ⟨written, chunks⟩

/-- `sendNoBlockN`, for a loop of at most `fuel` turns. -/
def sendNoBlockN {n : Nat} (s : Answers n) (fuel : Nat) : Option Sent := sendLoop s fuel 0 []

namespace Sent

/-- The bytes that the kernel has taken. -/
def accepted (out : Sent) : Nat := (out.chunks.map fun c => c.result.count).sum

/-- How the last call came out. -/
def last? (out : Sent) : Option SendResult := out.chunks.getLast?.map Chunk.result

end Sent

/-- Every chunk starts where the one before it ends. -/
def Consecutive : Nat → List Chunk → Prop
  | _, [] => True
  | start, c :: rest => c.offset = start ∧ Consecutive (start + c.result.count) rest

/-- The value that `sendNoBlockN` returns for a buffer of `n` bytes tells what was sent. -/
structure Sent.Reports (n : Nat) (out : Sent) : Prop where
  consecutive : Consecutive 0 out.chunks
  inside : ∀ c ∈ out.chunks, c.offset + c.offered = n
  whole : out.ret = n ↔ out.accepted = n
  full : out.last? = some .wouldBlock → out.ret = out.accepted
  failed : out.ret = -1 → out.last? = some (.accepted 0) ∨ out.last? = some .failed

section Turn

variable {n written : Nat} {r : SendResult}

theorem sendTurn_progress (h : r.Progress) : sendTurn n r written = .inr (written + r.count) := by
  cases r with
  | accepted t =>
      have ht : 0 < t := h
      simp [sendTurn, Full, ret, count, ht.ne']
  | wouldBlock | failed => exact absurd h (Nat.lt_irrefl 0)

/-- A full socket: the value is one less than the bytes that were sent. -/
theorem sendTurn_full (hleft : written < n) :
    sendTurn n .wouldBlock written = .inl (written - 1) := by
  have hne : (-1 : Int) ≠ (n : Int) - written := by omega
  rw [sendTurn, if_pos ⟨hne, rfl⟩]
  rfl

theorem sendTurn_failed (hfull : ¬ r.Full) (hnone : ¬ r.Progress) :
    sendTurn n r written = .inl (-1) := by
  cases r with
  | accepted t =>
      have ht : t = 0 := Nat.eq_zero_of_not_pos hnone
      subst ht
      simp [sendTurn, Full, ret]
  | wouldBlock => exact absurd rfl hfull
  | failed => simp [sendTurn, Full, ret]

end Turn

namespace Answers

variable {n : Nat} (s : Answers n)

/-- The first `k` calls. -/
def calls (k : Nat) : List Chunk :=
  (List.range k).map fun i => ⟨s.taken i, n - s.taken i, s.answer i⟩

@[simp] theorem calls_length (k : Nat) : (s.calls k).length = k := by simp [calls]

theorem calls_succ (k : Nat) :
    s.calls (k + 1) = s.calls k ++ [⟨s.taken k, n - s.taken k, s.answer k⟩] := by
  simp [calls, List.range_succ]

/-- The loop ends after `k` calls: all bytes are through, or the next call gets nothing through. -/
inductive Ends (k : Nat) : Prop
  | whole (h : s.taken k = n)
  | stuck (hleft : s.taken k < n) (hnone : ¬ (s.answer k).Progress)

/-- What the loop has made of it. -/
def outcome (k : Nat) : Sent :=
  if s.taken k = n then ⟨n, s.calls k⟩
  else ⟨if (s.answer k).Full then s.taken k - 1 else -1, s.calls (k + 1)⟩

/-- While every call gets something through, `k` calls send `k` bytes at least. -/
theorem le_taken {k : Nat} (h : ∀ i < k, (s.answer i).Progress) : k ≤ s.taken k := by
  induction k with
  | zero => exact Nat.zero_le _
  | succ k ih =>
      have hk := ih fun i hi => h i (Nat.lt_succ_of_lt hi)
      have hpos : 0 < (s.answer k).count := h k (Nat.lt_succ_self k)
      rw [taken_succ]
      omega

/-- **The loop ends**, after `n` calls at most that get something through. -/
theorem exists_ends : ∃ k ≤ n, (∀ i < k, s.taken i < n ∧ (s.answer i).Progress) ∧ s.Ends k := by
  -- otherwise the first `n + 1` calls would send more than there is
  by_contra hnot
  push Not at hnot
  have hall : ∀ k ≤ n + 1, ∀ i < k, s.taken i < n ∧ (s.answer i).Progress := by
    intro k
    induction k with
    | zero => exact fun _ i hi => absurd hi (Nat.not_lt_zero i)
    | succ k ih =>
        intro hk i hi
        have hbefore := ih (by omega)
        rcases Nat.lt_succ_iff_lt_or_eq.mp hi with hlt | rfl
        · exact hbefore i hlt
        · have hends := hnot i (by omega) hbefore
          have hleft : s.taken i < n := (s.taken_le i).lt_of_ne fun h => hends (.whole h)
          exact ⟨hleft, by_contra fun h => hends (.stuck hleft h)⟩
  have hle := s.le_taken fun i hi => (hall (n + 1) le_rfl i hi).2
  have := s.taken_le (n + 1)
  omega

/-- The turn of the loop behind `k` calls. -/
theorem sendLoop_ends {k : Nat} (h : s.Ends k) (fuel : Nat) :
    sendLoop s (fuel + 1) (s.taken k) (s.calls k) = some (s.outcome k) := by
  cases h with
  | whole h => simp [sendLoop, outcome, h]
  | stuck hleft hnone =>
      simp only [sendLoop, if_pos hleft, outcome, if_neg hleft.ne, calls_length, ← calls_succ]
      by_cases hfull : (s.answer k).Full
      · have hwould : s.answer k = .wouldBlock := hfull
        rw [hwould, sendTurn_full hleft]
        simp [Full]
      · rw [sendTurn_failed hfull hnone, if_neg hfull]

theorem sendLoop_reaches {k : Nat} (hends : s.Ends k)
    (h : ∀ i < k, s.taken i < n ∧ (s.answer i).Progress) {j : Nat} (hj : j ≤ k) (fuel : Nat) :
    sendLoop s (fuel + j + 1) (s.taken (k - j)) (s.calls (k - j)) = some (s.outcome k) := by
  induction j with
  | zero => exact s.sendLoop_ends hends fuel
  | succ j ih =>
      obtain ⟨hleft, hprogress⟩ := h (k - (j + 1)) (by omega)
      have hnext : k - (j + 1) + 1 = k - j := by omega
      rw [← Nat.add_assoc, sendLoop, if_pos hleft]
      simp only [calls_length, ← calls_succ, sendTurn_progress hprogress, ← taken_succ, hnext]
      exact ih (by omega)

end Answers

variable {n : Nat} (s : Answers n)

/-- **What the loop does**, however many turns it is given beyond `n`. -/
theorem sendNoBlockN_eq : ∃ k ≤ n, (∀ i < k, s.taken i < n ∧ (s.answer i).Progress) ∧ s.Ends k ∧
    ∀ fuel, n < fuel → sendNoBlockN s fuel = some (s.outcome k) := by
  obtain ⟨k, hk, hbefore, hends⟩ := s.exists_ends
  refine ⟨k, hk, hbefore, hends, fun fuel hfuel => ?_⟩
  have hrun := s.sendLoop_reaches hends hbefore le_rfl (fuel - (k + 1))
  rw [Nat.sub_self, show fuel - (k + 1) + k + 1 = fuel by omega] at hrun
  exact hrun

namespace Answers

theorem accepted_calls (k : Nat) (ret : Int) : Sent.accepted ⟨ret, s.calls k⟩ = s.taken k := by
  induction k with
  | zero => rfl
  | succ k ih =>
      rw [taken_succ, ← ih, calls_succ]
      simp [Sent.accepted]

theorem consecutive_calls (k : Nat) : Consecutive 0 (s.calls k) := by
  have hfrom : ∀ j i, Consecutive (s.taken i)
      ((List.range' i j).map fun i => ⟨s.taken i, n - s.taken i, s.answer i⟩) := by
    intro j
    induction j with
    | zero => exact fun _ => trivial
    | succ j ih =>
        intro i
        refine ⟨rfl, ?_⟩
        show Consecutive (s.taken i + (s.answer i).count) _
        rw [← taken_succ]
        exact ih (i + 1)
  rw [calls, List.range_eq_range']
  exact hfrom k 0

theorem inside_calls {k : Nat} {c : Chunk} (h : c ∈ s.calls k) : c.offset + c.offered = n := by
  obtain ⟨i, -, rfl⟩ := List.mem_map.mp h
  have := s.taken_le i
  show s.taken i + (n - s.taken i) = n
  omega

theorem last?_calls (k : Nat) (ret : Int) : Sent.last? ⟨ret, s.calls (k + 1)⟩ = some (s.answer k) := by
  simp [Sent.last?, calls_succ]

end Answers

namespace Answers

theorem count_of_stuck {r : SendResult} (hnone : ¬ r.Progress) : r.count = 0 := Nat.eq_zero_of_not_pos hnone

/-- A loop that sends everything does not stall. -/
theorem not_stalls_of_whole {k : Nat} (hbefore : ∀ i < k, s.taken i < n ∧ (s.answer i).Progress)
    (h : s.taken k = n) : ¬ s.Stalls := by
  rintro ⟨j, -, hleft, hfull⟩
  have hwould : s.answer j = .wouldBlock := hfull
  rcases Nat.lt_or_ge j k with hjk | hkj
  · have hprogress := (hbefore j hjk).2
    rw [hwould] at hprogress
    exact Nat.lt_irrefl 0 hprogress
  · have hmono : s.taken k ≤ s.taken j :=
      Finset.sum_le_sum_of_subset (Finset.range_subset_range.mpr hkj)
    omega

/-- A loop that ends with bytes left stalls if its last call found the socket full. -/
theorem stalls_iff_of_stuck {k : Nat} (hbefore : ∀ i < k, s.taken i < n ∧ (s.answer i).Progress)
    (hleft : s.taken k < n) (hnone : ¬ (s.answer k).Progress) : s.Stalls ↔ (s.answer k).Full := by
  refine ⟨fun ⟨j, hj, _, hfull⟩ => ?_, fun h => ⟨k, fun i hi => (hbefore i hi).2, hleft, h⟩⟩
  rcases Nat.lt_trichotomy j k with hjk | rfl | hkj
  · have hprogress := (hbefore j hjk).2
    rw [show s.answer j = .wouldBlock from hfull] at hprogress
    exact absurd hprogress (Nat.lt_irrefl 0)
  · exact hfull
  · exact absurd (hj k hkj) hnone

/-- The calls of a loop that ends with bytes left. -/
theorem accepted_stuck {k : Nat} (hnone : ¬ (s.answer k).Progress) (ret : Int) :
    Sent.accepted ⟨ret, s.calls (k + 1)⟩ = s.taken k := by
  rw [accepted_calls, taken_succ, count_of_stuck hnone, Nat.add_zero]

theorem reports_whole {k : Nat} (h : s.taken k = n) : (s.outcome k).Reports n := by
  rw [outcome, if_pos h]
  have haccepted : Sent.accepted ⟨n, s.calls k⟩ = n := by rw [accepted_calls, h]
  refine ⟨s.consecutive_calls k, fun c => s.inside_calls, iff_of_true rfl haccepted, fun _ => ?_, ?_⟩
  · rw [haccepted]
  · intro hret
    exact absurd hret (show ¬ ((n : Int) = -1) by omega)

/-- A loop that ends with bytes left reports what was sent unless the socket was full. -/
theorem reports_stuck {k : Nat} (hleft : s.taken k < n) (hnone : ¬ (s.answer k).Progress) :
    (s.outcome k).Reports n ↔ ¬ (s.answer k).Full := by
  rw [outcome, if_neg hleft.ne]
  by_cases hfull : (s.answer k).Full
  · rw [if_pos hfull]
    refine iff_of_false (fun h => ?_) (not_not_intro hfull)
    -- the value is one less than the number of bytes sent
    have hret := h.full (by rw [last?_calls, show s.answer k = .wouldBlock from hfull])
    rw [s.accepted_stuck hnone] at hret
    simp only at hret
    omega
  · rw [if_neg hfull]
    refine iff_of_true ⟨s.consecutive_calls _, fun c => s.inside_calls, ?_, ?_, ?_⟩ hfull
    · rw [s.accepted_stuck hnone]
      refine iff_of_false ?_ hleft.ne
      show ¬ ((-1 : Int) = n)
      omega
    · intro hlast
      rw [last?_calls] at hlast
      exact absurd (Option.some.inj hlast) hfull
    · intro _
      rw [last?_calls]
      cases hr : s.answer k with
      | accepted t =>
          have ht : (s.answer k).count = 0 := count_of_stuck hnone
          rw [hr] at ht
          left
          rw [show t = 0 from ht]
      | wouldBlock => exact absurd hr hfull
      | failed => exact .inr rfl

end Answers

/-- **`sendNoBlockN` reports what was sent, unless it stalls**: for every buffer length and every sequence of
answers the loop ends, and then the report is right exactly if the socket was not full while bytes were
left. -/
theorem sendNoBlockN_reports_iff (n : Nat) (s : Answers n) :
    ∃ out, (∀ fuel, n < fuel → sendNoBlockN s fuel = some out) ∧ (out.Reports n ↔ ¬ s.Stalls) := by
  obtain ⟨k, -, hbefore, hends, hrun⟩ := sendNoBlockN_eq s
  refine ⟨s.outcome k, hrun, ?_⟩
  cases hends with
  | whole h => exact iff_of_true (s.reports_whole h) (s.not_stalls_of_whole hbefore h)
  | stuck hleft hnone => rw [s.reports_stuck hleft hnone, s.stalls_iff_of_stuck hbefore hleft hnone]

/-- A kernel that takes three bytes and is full then. -/
def fullAfterThree : Answers 5 where
  answer k := if k = 0 then .accepted 3 else .wouldBlock
  within k := by
    cases k with
    | zero => exact Nat.zero_le _
    | succ k =>
        rw [Finset.sum_range_succ']
        simp [SendResult.count]

/-- Three of five bytes are sent, and two are reported. -/
theorem not_reports_full :
    ∃ out, (∀ fuel, 5 < fuel → sendNoBlockN fullAfterThree fuel = some out) ∧
      out.ret = 2 ∧ out.accepted = 3 ∧ out.last? = some .wouldBlock ∧ ¬ out.Reports 5 := by
  refine ⟨⟨2, [⟨0, 5, .accepted 3⟩, ⟨3, 2, .wouldBlock⟩]⟩, fun fuel hfuel => ?_, rfl, rfl, rfl, fun h => ?_⟩
  · obtain ⟨more, rfl⟩ : ∃ more, fuel = more + 2 := ⟨fuel - 2, by omega⟩
    rfl
  · exact absurd (h.full rfl) (show ¬ ((2 : Int) = (3 : Nat)) by decide)

/-- The calls that were made, with all that was sent. -/
theorem exists_calls {out : Sent} {fuel : Nat} (hfuel : n < fuel) (h : sendNoBlockN s fuel = some out) :
    ∃ k, out.chunks = s.calls k ∧ out.accepted = s.taken k ∧
      (s.taken k = n ∧ out.ret = n ∨ s.taken k < n ∧ out.ret < n) := by
  obtain ⟨k, -, -, hends, hrun⟩ := sendNoBlockN_eq s
  obtain rfl : s.outcome k = out := Option.some.inj ((hrun fuel hfuel).symm.trans h)
  cases hends with
  | whole hall =>
      rw [Answers.outcome, if_pos hall]
      exact ⟨k, rfl, s.accepted_calls k n, .inl ⟨hall, rfl⟩⟩
  | stuck hleft hnone =>
      have hsame : s.taken (k + 1) = s.taken k := by
        rw [s.taken_succ, Answers.count_of_stuck hnone, Nat.add_zero]
      rw [Answers.outcome, if_neg hleft.ne]
      refine ⟨k + 1, rfl, s.accepted_calls (k + 1) _, .inr ⟨hsame ▸ hleft, ?_⟩⟩
      show (if (s.answer k).Full then (s.taken k : Int) - 1 else -1) < n
      split <;> omega

/-- **The test that all callers make of the value is right**: it is the length of the buffer if the whole
buffer was sent, and less than that otherwise. -/
theorem ret_eq_iff {out : Sent} {fuel : Nat} (hfuel : n < fuel) (h : sendNoBlockN s fuel = some out) :
    (out.ret = n ↔ out.accepted = n) ∧ (out.ret < n ↔ out.accepted < n) := by
  obtain ⟨k, -, haccepted, ⟨hall, hret⟩ | ⟨hleft, hret⟩⟩ := exists_calls s hfuel h <;>
    rw [haccepted] <;> omega

/-- The peer gets the beginning of the buffer. -/
theorem sent_eq_take {β : Type*} (buff : List β) {out : Sent} {fuel : Nat} (hfuel : n < fuel)
    (h : sendNoBlockN s fuel = some out) :
    (out.chunks.flatMap fun c => (buff.drop c.offset).take c.result.count) = buff.take out.accepted := by
  obtain ⟨k, hchunks, haccepted, -⟩ := exists_calls s hfuel h
  rw [hchunks, haccepted]
  clear haccepted hchunks
  induction k with
  | zero => simp [Answers.calls]
  | succ k ih =>
      rw [s.calls_succ, List.flatMap_append, ih, s.taken_succ, List.take_add]
      simp

end Kierki
