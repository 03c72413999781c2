import Mathlib

/-!
# Programs that take mutexes and make system calls

A program `Prog σ μ ε α` works on a state `σ`, takes mutexes of a type `μ`, asks the system for
answers (a call succeeds or fails) and ends with a value or stops.  It stops with a fault `ε`, or because
it would have to wait for a mutex that its own thread holds.

`Follows H s c r` compares a program with a plain result: started in state `s` with the mutexes `H` held,
`c` comes to the result `r` and takes its mutexes in the order of their ranks, as long as every answer it
asks for is a success; and as soon as one is not, it takes a mutex out of order and stops for good.  The
rules below prove it along the structure of a program.
-/

namespace Locks

variable {σ μ ε α β : Type}

/-- A thread in a program: `held` are its mutexes, innermost first, and `answers` are the answers of the
system that are still to come (after them every call succeeds).  `takings` and `made` are history
variables: every mutex taken, with those held at that moment, and the number of system calls. -/
structure Frame (σ μ : Type) where
  state : σ
  held : List μ
  answers : List Bool
  takings : List (μ × List μ)
  made : Nat

/-- Why a program stops. -/
inductive Stop (ε : Type)
  | fault (e : ε)
  /-- it waits for a mutex that its own thread holds -/
  | blocked
  /-- a callback calls back deeper than the program says -/
  | tooDeep
  deriving DecidableEq

/-- Programs. -/
abbrev Prog (σ μ ε : Type) := ExceptT (Stop ε) (StateM (Frame σ μ))

namespace Prog

/-- What becomes of a thread. -/
def exec (c : Prog σ μ ε α) (F : Frame σ μ) : Except (Stop ε) α × Frame σ μ := c F

def getState : Prog σ μ ε σ := fun F => (.ok F.state, F)

def setState (s : σ) : Prog σ μ ε Unit := fun F => (.ok (), { F with state := s })

def stop (why : Stop ε) : Prog σ μ ε α := fun F => (.error why, F)

/-- A plain step of the state, which may fail. -/
def lift (f : σ → Except ε (α × σ)) : Prog σ μ ε α := fun F =>
  match f F.state with
  | .ok (a, s) => (.ok a, { F with state := s })
  | .error e => (.error (.fault e), F)

/-- `lock` of a mutex that is not recursive. -/
def lock [DecidableEq μ] (m : μ) : Prog σ μ ε Unit := fun F =>
  let F' := { F with takings := F.takings ++ [(m, F.held)] }
  if m ∈ F.held then (.error .blocked, F') else (.ok (), { F' with held := m :: F.held })

/-- `unlock` of the mutex that was taken last. -/
def unlock : Prog σ μ ε Unit := fun F => (.ok (), { F with held := F.held.tail })

/-- A system call: does it succeed? -/
def sysCall : Prog σ μ ε Bool := fun F =>
  (.ok (F.answers.headD true), { F with answers := F.answers.tail, made := F.made + 1 })

/-- A scope with a lock guard. -/
def guarded [DecidableEq μ] (m : μ) (body : Prog σ μ ε α) : Prog σ μ ε α := do
  lock m
  let a ← body
  unlock
  return a

end Prog

open Prog

/-- A mutex is taken when all mutexes held rank below it. -/
def Orderly (rank : μ → Nat) (p : μ × List μ) : Prop := ∀ m ∈ p.2, rank m < rank p.1

/-- The program came to the plain result `r` after `n` system calls, all of them successes. -/
structure Clean (rank : μ → Nat) (n : Nat) (F : Frame σ μ) (r : Except ε (α × σ))
    (out : Except (Stop ε) α × Frame σ μ) : Prop where
  made : out.2.made = F.made + n
  answers : out.2.answers = F.answers.drop n
  held : out.2.held = F.held ∨ ∃ e, r = .error e
  takings : ∃ l, out.2.takings = F.takings ++ l ∧ ∀ p ∈ l, Orderly rank p
  ok : ∀ a s, r = .ok (a, s) → out.1 = .ok a ∧ out.2.state = s
  error : ∀ e, r = .error e → out.1 = .error (.fault e)

/-- The program took a mutex out of order and waits for one that it holds. -/
structure Broken (rank : μ → Nat) (F : Frame σ μ) (out : Except (Stop ε) α × Frame σ μ) : Prop where
  blocked : out.1 = .error .blocked
  takings : ∃ l, out.2.takings = F.takings ++ l ∧ ∃ p ∈ l, ¬ Orderly rank p

/-- The program does what the plain result says until a system call fails, and nothing afterwards. -/
def Follows (rank : μ → Nat) (H : List μ) (s : σ) (c : Prog σ μ ε α) (r : Except ε (α × σ)) : Prop :=
  ∃ n, ∀ F : Frame σ μ, F.held = H → F.state = s →
    (false ∉ F.answers.take n → Clean rank n F r (c.exec F)) ∧
      (false ∈ F.answers.take n → Broken rank F (c.exec F))

/-- The program stops in this state whatever the answers. -/
def Stuck (rank : μ → Nat) (H : List μ) (s : σ) (c : Prog σ μ ε α) : Prop :=
  ∀ F : Frame σ μ, F.held = H → F.state = s → Broken rank F (c.exec F)

section Rules

variable {rank : μ → Nat} {H : List μ} {s : σ}

theorem exec_bind (c : Prog σ μ ε α) (k : α → Prog σ μ ε β) (F : Frame σ μ) :
    (c >>= k).exec F = match c.exec F with
      | (.ok a, F') => (k a).exec F'
      | (.error e, F') => (.error e, F') := by
  show (ExceptT.bindCont k (c F).1) (c F).2 = _
  unfold exec
  rcases c F with ⟨e | a, F'⟩ <;> rfl

theorem exec_getState (F : Frame σ μ) : (getState : Prog σ μ ε σ).exec F = (.ok F.state, F) := rfl

theorem exec_sysCall (F : Frame σ μ) : (sysCall : Prog σ μ ε Bool).exec F =
    (.ok (F.answers.headD true), { F with answers := F.answers.tail, made := F.made + 1 }) := rfl

theorem Follows.pure (a : α) : Follows rank H s (pure a : Prog σ μ ε α) (.ok (a, s)) := by
  refine ⟨0, fun F hheld hstate => ⟨fun _ => ?_, fun hfail => by simp at hfail⟩⟩
  exact
    { made := rfl
      answers := rfl
      held := .inl rfl
      takings := ⟨[], (List.append_nil _).symm, by simp⟩
      ok := fun b t heq => by
        obtain ⟨rfl, rfl⟩ := Prod.mk.inj (Except.ok.inj heq)
        exact ⟨rfl, hstate⟩
      error := fun e heq => by cases heq }

/-- What a frame has on record only grows by what comes after it. -/
theorem Broken.after {F F' : Frame σ μ} {out : Except (Stop ε) α × Frame σ μ}
    (h : Broken rank F' out) (hbefore : ∃ l, F'.takings = F.takings ++ l) : Broken rank F out := by
  obtain ⟨l, hl⟩ := hbefore
  obtain ⟨l', hl', p, hp, hbad⟩ := h.takings
  exact ⟨h.blocked, l ++ l', by rw [hl', hl, List.append_assoc], p, List.mem_append_right _ hp, hbad⟩

theorem Broken.bind {c : Prog σ μ ε α} {F : Frame σ μ} (h : Broken rank F (c.exec F))
    (k : α → Prog σ μ ε β) : Broken rank F ((c >>= k).exec F) := by
  rw [exec_bind]
  rcases hout : c.exec F with ⟨e | a, F'⟩ <;> rw [hout] at h
  · obtain rfl : e = .blocked := Except.error.inj h.blocked
    exact ⟨rfl, h.takings⟩
  · cases h.blocked

theorem Stuck.bind {c : Prog σ μ ε α} (h : Stuck rank H s c) (k : α → Prog σ μ ε β) :
    Stuck rank H s (c >>= k) :=
  fun F hheld hstate => (h F hheld hstate).bind k

/-- **Two programs, one after the other.** -/
theorem Follows.bind {c : Prog σ μ ε α} {k : α → Prog σ μ ε β} {r : Except ε (α × σ)}
    {q : α → σ → Except ε (β × σ)} (hc : Follows rank H s c r)
    (hk : ∀ a t, r = .ok (a, t) → Follows rank H t (k a) (q a t)) :
    Follows rank H s (c >>= k) (r >>= fun p => q p.1 p.2) := by
  obtain ⟨n, hn⟩ := hc
  cases r with
  -- the first program faults, and the second does not run
  | error e =>
      refine ⟨n, fun F hheld hstate => ⟨fun hgood => ?_, fun hbad => ((hn F hheld hstate).2 hbad).bind k⟩⟩
      have hclean := (hn F hheld hstate).1 hgood
      have hout : (c >>= k).exec F = (.error (.fault e), (c.exec F).2) := by
        rw [exec_bind, ← Prod.mk.eta (p := c.exec F), hclean.error e rfl]
      rw [hout]
      exact
        { made := hclean.made
          answers := hclean.answers
          held := .inr ⟨e, rfl⟩
          takings := hclean.takings
          ok := fun a t heq => by cases heq
          error := fun e' heq => by rw [Except.error.inj heq] }
  | ok p =>
      obtain ⟨n', hn'⟩ := hk p.1 p.2 rfl
      refine ⟨n + n', fun F hheld hstate => ?_⟩
      obtain ⟨hgood, hbad⟩ := hn F hheld hstate
      rw [List.take_add, List.mem_append]
      -- a failure among the first answers stops the whole, whatever comes behind
      by_cases hfirst : false ∈ F.answers.take n
      · exact ⟨fun hnot => absurd (.inl hfirst) hnot, fun _ => (hbad hfirst).bind k⟩
      have hclean := hgood hfirst
      obtain ⟨hvalue, hstate'⟩ := hclean.ok p.1 p.2 rfl
      have hheld' : (c.exec F).2.held = H := by
        rcases hclean.held with hsame | ⟨e, heq⟩
        · rw [hsame, hheld]
        · cases heq
      have hout : (c >>= k).exec F = (k p.1).exec (c.exec F).2 := by
        rw [exec_bind, ← Prod.mk.eta (p := c.exec F), hvalue]
      obtain ⟨hgood', hbad'⟩ := hn' (c.exec F).2 hheld' hstate'
      rw [hclean.answers] at hgood' hbad'
      rw [hout]
      constructor
      · intro hnot
        -- the second program starts with the mutexes that were held at first
        have hrest := hgood' fun hmem => hnot (.inr hmem)
        obtain ⟨l, hl, horderly⟩ := hclean.takings
        obtain ⟨l', hl', horderly'⟩ := hrest.takings
        exact
          { made := by rw [hrest.made, hclean.made, Nat.add_assoc]
            answers := by rw [hrest.answers, hclean.answers, List.drop_drop]
            held := hrest.held.imp_left fun hsame => by rw [hsame, hheld', hheld]
            takings := ⟨l ++ l', by rw [hl', hl, List.append_assoc], fun x hx =>
              (List.mem_append.mp hx).elim (horderly x) (horderly' x)⟩
            ok := hrest.ok
            error := hrest.error }
      · intro hmem
        obtain ⟨l, hl, -⟩ := hclean.takings
        exact (hbad' (hmem.resolve_left hfirst)).after ⟨l, hl⟩

/-- The same, for a program that goes on with what comes out. -/
theorem Follows.bind_next {c : Prog σ μ ε α} {k : α → Prog σ μ ε β} {r : Except ε (α × σ)}
    {f : α × σ → Except ε (β × σ)} (hc : Follows rank H s c r)
    (hk : ∀ a t, r = .ok (a, t) → Follows rank H t (k a) (f (a, t))) :
    Follows rank H s (c >>= k) (r >>= f) :=
  hc.bind (q := fun a t => f (a, t)) hk

/-- A plain call in between, which may fail. -/
theorem Follows.bind_call {γ : Type} {c : Prog σ μ ε α} {k : α → Prog σ μ ε β} {x : Except ε γ}
    {v : γ → α} {t : γ → σ} {y : γ → Except ε (β × σ)}
    (hc : Follows rank H s c (x >>= fun m => .ok (v m, t m)))
    (hk : ∀ m, x = .ok m → Follows rank H (t m) (k (v m)) (y m)) :
    Follows rank H s (c >>= k) (x >>= y) := by
  cases x with
  | error e => exact hc.bind (q := fun _ _ => .error e) fun a u heq => by cases heq
  | ok m =>
      refine hc.bind (q := fun _ _ => y m) fun a u heq => ?_
      obtain ⟨rfl, rfl⟩ := Prod.mk.inj (Except.ok.inj heq)
      exact hk m rfl

/-- A program in between that cannot fail. -/
theorem Follows.bind_ok {c : Prog σ μ ε α} {k : α → Prog σ μ ε β} {a : α} {t : σ} {r : Except ε (β × σ)}
    (hc : Follows rank H s c (.ok (a, t))) (hk : Follows rank H t (k a) r) :
    Follows rank H s (c >>= k) r := by
  refine hc.bind (q := fun _ _ => r) fun b u heq => ?_
  obtain ⟨rfl, rfl⟩ := Prod.mk.inj (Except.ok.inj heq)
  exact hk

theorem Follows.getState {k : σ → Prog σ μ ε β} {r : Except ε (β × σ)} (h : Follows rank H s (k s) r) :
    Follows rank H s (getState >>= k) r := by
  obtain ⟨n, hn⟩ := h
  refine ⟨n, fun F hheld hstate => ?_⟩
  have hout : (Prog.getState >>= k).exec F = (k s).exec F := by
    rw [exec_bind, exec_getState, hstate]
  rw [hout]
  exact hn F hheld hstate

theorem Follows.setState {t : σ} {k : Unit → Prog σ μ ε β} {r : Except ε (β × σ)}
    (h : Follows rank H t (k ()) r) : Follows rank H s (Prog.setState t >>= k) r := by
  obtain ⟨n, hn⟩ := h
  refine ⟨n, fun F hheld _ => ?_⟩
  have hout : (Prog.setState t >>= k).exec F = (k ()).exec { F with state := t } := by
    rw [exec_bind]
    rfl
  rw [hout]
  obtain ⟨hgood, hbad⟩ := hn { F with state := t } hheld rfl
  refine ⟨fun hnot => ?_, fun hmem => (hbad hmem).after ⟨[], (List.append_nil _).symm⟩⟩
  have hclean := hgood hnot
  exact ⟨hclean.made, hclean.answers, hclean.held, hclean.takings, hclean.ok, hclean.error⟩

theorem Stuck.setState {t : σ} {k : Unit → Prog σ μ ε β} (h : Stuck rank H t (k ())) :
    Stuck rank H s (Prog.setState t >>= k) := by
  intro F hheld _
  have hout : (Prog.setState t >>= k).exec F = (k ()).exec { F with state := t } := by
    rw [exec_bind]
    rfl
  rw [hout]
  exact (h { F with state := t } hheld rfl).after ⟨[], (List.append_nil _).symm⟩

theorem Stuck.getState {k : σ → Prog σ μ ε β} (h : Stuck rank H s (k s)) :
    Stuck rank H s (Prog.getState >>= k) := by
  intro F hheld hstate
  have hout : (Prog.getState >>= k).exec F = (k s).exec F := by
    rw [exec_bind, exec_getState, hstate]
  rw [hout]
  exact h F hheld hstate

theorem Follows.lift (f : σ → Except ε (α × σ)) : Follows rank H s (Prog.lift f : Prog σ μ ε α) (f s) := by
  refine ⟨0, fun F hheld hstate => ⟨fun _ => ?_, fun hfail => by simp at hfail⟩⟩
  subst hstate
  cases hr : f F.state with
  | error e =>
      have hout : (Prog.lift f : Prog σ μ ε α).exec F = (.error (.fault e), F) := by
        simp [exec, Prog.lift, hr]
      rw [hout]
      exact
        { made := rfl
          answers := rfl
          held := .inl rfl
          takings := ⟨[], (List.append_nil _).symm, by simp⟩
          ok := fun a t heq => by cases heq
          error := fun e' heq => by rw [Except.error.inj heq] }
  | ok p =>
      have hout : (Prog.lift f : Prog σ μ ε α).exec F = (.ok p.1, { F with state := p.2 }) := by
        simp [exec, Prog.lift, hr]
      rw [hout]
      exact
        { made := rfl
          answers := rfl
          held := .inl rfl
          takings := ⟨[], (List.append_nil _).symm, by simp⟩
          ok := fun a t heq => by
            obtain ⟨rfl, rfl⟩ := Prod.mk.inj (Except.ok.inj heq)
            exact ⟨rfl, rfl⟩
          error := fun e heq => by cases heq }

/-- A system call whose failure makes the program stop for good. -/
theorem Follows.sysCall {k : Bool → Prog σ μ ε β} {r : Except ε (β × σ)}
    (hok : Follows rank H s (k true) r) (hfail : Stuck rank H s (k false)) :
    Follows rank H s (Prog.sysCall >>= k) r := by
  obtain ⟨n, hn⟩ := hok
  refine ⟨n + 1, fun F hheld hstate => ?_⟩
  have hout : (Prog.sysCall >>= k).exec F = (k (F.answers.headD true)).exec
      { F with answers := F.answers.tail, made := F.made + 1 } := by
    rw [exec_bind, exec_sysCall]
  rw [hout]
  -- past the first answer, the call itself has taken no mutex
  have hgoes : ∀ rest, F.answers.headD true = true → F.answers.tail = rest →
      (false ∉ rest.take n → Clean rank (n + 1) F r ((k true).exec
        { F with answers := F.answers.tail, made := F.made + 1 })) ∧
      (false ∈ rest.take n → Broken rank F ((k true).exec
        { F with answers := F.answers.tail, made := F.made + 1 })) := by
    intro rest hhead htail
    obtain ⟨hgood, hbad⟩ := hn { F with answers := F.answers.tail, made := F.made + 1 } hheld hstate
    constructor
    · intro hnot
      have hclean := hgood (by rwa [htail])
      exact
        { made := by rw [hclean.made, Nat.add_assoc, Nat.add_comm 1 n]
          answers := by rw [hclean.answers, List.drop_tail]
          held := hclean.held
          takings := hclean.takings
          ok := hclean.ok
          error := hclean.error }
    · intro hmem
      exact (hbad (by rwa [htail])).after ⟨[], (List.append_nil _).symm⟩
  cases hanswers : F.answers with
  | nil =>
      rw [hanswers] at hgoes
      simpa using hgoes [] rfl rfl
  | cons b rest =>
      rw [hanswers] at hgoes
      cases b with
      | true => simpa using hgoes rest rfl rfl
      | false =>
          refine ⟨fun hnot => absurd (by simp) hnot, fun _ => ?_⟩
          exact (hfail { F with answers := rest, made := F.made + 1 } hheld hstate).after
            ⟨[], (List.append_nil _).symm⟩

section Mutexes

variable [DecidableEq μ]

theorem exec_lock (m : μ) (F : Frame σ μ) : (lock m : Prog σ μ ε Unit).exec F =
    if m ∈ F.held then (.error .blocked, { F with takings := F.takings ++ [(m, F.held)] })
    else (.ok (), { F with takings := F.takings ++ [(m, F.held)], held := m :: F.held }) := rfl

/-- The frame in which the body of a scope starts. -/
def Frame.entered (F : Frame σ μ) (m : μ) : Frame σ μ :=
  { F with takings := F.takings ++ [(m, F.held)], held := m :: F.held }

theorem exec_guarded {m : μ} (c : Prog σ μ ε α) {F : Frame σ μ} (hfree : m ∉ F.held) :
    (Prog.guarded m c).exec F = (c >>= fun a => unlock >>= fun _ => pure a).exec (F.entered m) := by
  rw [Prog.guarded, exec_bind, exec_lock, if_neg hfree]
  rfl

/-- **A scope with a lock guard**, for a mutex above all mutexes held. -/
theorem Follows.guarded {m : μ} {c : Prog σ μ ε α} {r : Except ε (α × σ)}
    (hrank : ∀ m' ∈ H, rank m' < rank m) (hc : Follows rank (m :: H) s c r) :
    Follows rank H s (Prog.guarded m c) r := by
  obtain ⟨n, hn⟩ := hc
  refine ⟨n, fun F hheld hstate => ?_⟩
  -- a mutex above all those held is not held itself
  have hfree : m ∉ F.held := fun hmem => Nat.lt_irrefl _ (hrank m (hheld ▸ hmem))
  obtain ⟨hgood, hbad⟩ := hn (F.entered m) (by rw [Frame.entered, hheld]) hstate
  rw [exec_guarded c hfree]
  constructor
  · intro hnot
    have hclean := hgood hnot
    obtain ⟨l, hl, horderly⟩ := hclean.takings
    have htakings : ∃ l, (c.exec (F.entered m)).2.takings = F.takings ++ l ∧ ∀ p ∈ l, Orderly rank p := by
      refine ⟨(m, F.held) :: l, by rw [hl, Frame.entered, List.append_assoc, List.singleton_append], ?_⟩
      rintro p (_ | ⟨_, hp⟩)
      · exact fun m' hm' => hrank m' (hheld ▸ hm')
      · exact horderly p hp
    rw [exec_bind]
    rcases hout : c.exec (F.entered m) with ⟨e | a, F'⟩ <;> rw [hout] at hclean htakings
    · -- on a fault the guard is not released: the process ends with the mutex held
      have hfault : ∃ e', r = .error e' := by
        cases r with
        | error e' => exact ⟨e', rfl⟩
        | ok p => cases (hclean.ok p.1 p.2 rfl).1
      exact
        { made := hclean.made
          answers := hclean.answers
          held := .inr hfault
          takings := htakings
          ok := fun b t heq => by cases (hclean.ok b t heq).1
          error := hclean.error }
    · exact
        { made := hclean.made
          answers := hclean.answers
          held := hclean.held.imp_left fun hsame => by
            show F'.held.tail = F.held
            rw [show F'.held = m :: F.held from hsame, List.tail_cons]
          takings := htakings
          ok := hclean.ok
          error := fun e heq => by cases hclean.error e heq }
  · exact fun hmem => ((hbad hmem).bind _).after ⟨_, rfl⟩

/-- A scope for a mutex that the thread holds already. -/
theorem Stuck.guarded_held {m : μ} (c : Prog σ μ ε α) (hmem : m ∈ H) :
    Stuck rank H s (Prog.guarded m c) := by
  refine Stuck.bind (fun F hheld _ => ?_) _
  rw [exec_lock, if_pos (by rwa [hheld])]
  exact ⟨rfl, [(m, F.held)], rfl, (m, F.held), by simp, fun horderly =>
    Nat.lt_irrefl _ (horderly m (by rwa [hheld]))⟩

/-- A scope whose body is stuck. -/
theorem Stuck.guarded {m : μ} {c : Prog σ μ ε α} (hc : Stuck rank (m :: H) s c) :
    Stuck rank H s (Prog.guarded m c) := by
  by_cases hmem : m ∈ H
  · exact Stuck.guarded_held c hmem
  intro F hheld hstate
  rw [exec_guarded c (by rwa [hheld])]
  have hbody := hc (F.entered m) (by rw [Frame.entered, hheld]) hstate
  exact (hbody.bind _).after ⟨_, rfl⟩

end Mutexes

section Loops

variable {γ τ : Type} {f : γ → Prog σ μ ε Unit} {g : τ → γ → Except ε τ} {e : τ → σ}

/-- A loop over a list, against a fold over the part of the state that the loop changes. -/
theorem Follows.forM (hf : ∀ a t, Follows rank H (e t) (f a) (g t a >>= fun t' => .ok ((), e t')))
    (l : List γ) (t : τ) :
    Follows rank H (e t) (l.forM f) (l.foldlM g t >>= fun t' => .ok ((), e t')) := by
  induction l generalizing t with
  | nil => exact Follows.pure ()
  | cons a l ih =>
      rw [List.foldlM_cons, bind_assoc]
      show Follows rank H (e t) (f a >>= fun _ => l.forM f) _
      exact (hf a t).bind_call fun t' _ => ih t'

end Loops

end Rules

section Whole

/-- A thread that holds nothing yet. -/
def Frame.start (s : σ) (answers : List Bool) : Frame σ μ := ⟨s, [], answers, [], 0⟩

/-- Run from the state `s` with the answers `answers`, the program never waits for a mutex its own thread
holds, and takes every mutex in order. -/
def WellLocked (rank : μ → Nat) (c : Prog σ μ ε α) (s : σ) (answers : List Bool) : Prop :=
  (∀ e, (c.exec (.start s answers)).1 = .error e → e ≠ .blocked) ∧
    ∀ p ∈ (c.exec (.start s answers)).2.takings, Orderly rank p

/-- The number of system calls of a run in which all of them succeed. -/
def systemCalls (c : Prog σ μ ε α) (s : σ) : Nat := (c.exec (.start s [])).2.made

/-- **A program that follows a plain result is well locked just when no system call fails.** -/
theorem Follows.wellLocked_iff {rank : μ → Nat} {s : σ} {c : Prog σ μ ε α} {r : Except ε (α × σ)}
    (h : Follows rank [] s c r) (answers : List Bool) :
    WellLocked rank c s answers ↔ false ∉ answers.take (systemCalls c s) := by
  obtain ⟨n, hn⟩ := h
  have hcalls : systemCalls c s = n := by
    have hclean := (hn (.start s []) rfl rfl).1 (by simp [Frame.start])
    rw [systemCalls, hclean.made]
    exact Nat.zero_add n
  obtain ⟨hgood, hbad⟩ := hn (.start s answers) rfl rfl
  rw [hcalls]
  constructor
  · intro hwell hfail
    obtain ⟨l, hl, p, hp, hnot⟩ := (hbad hfail).takings
    exact hnot (hwell.2 p (by rw [hl]; exact List.mem_append_right _ hp))
  · intro hnot
    have hclean := hgood hnot
    obtain ⟨l, hl, horderly⟩ := hclean.takings
    refine ⟨fun e he hblocked => ?_, fun p hp => ?_⟩
    · subst hblocked
      cases r with
      | ok p => cases he.symm.trans (hclean.ok p.1 p.2 rfl).1
      | error e => cases he.symm.trans (hclean.error e rfl)
    · rw [hl] at hp
      exact horderly p hp

end Whole

end Locks
