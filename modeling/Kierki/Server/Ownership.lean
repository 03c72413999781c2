import Kierki.Server.Faultless
import Kierki.Server.Histories
import Kierki.Server.Requests

/-!
# Whose cards are played

A connection gets one seat at most, for the side its own `IAM` names, and loses it for good.  `taken` puts on
record who sits down, `played` whose cards come to the table.  The cards that are played for a side come
from the connection that has the seat, and this connection has sent them: they are some of those that the
lines in its stream of bytes name, in this order (`owned_run`).  That a worker may still speak for a side it has lost
(the branch of `playerTricked` for `CLEANUP`) is never used.
-/

namespace Kierki

open Execution

namespace Server

open IOWorkerMgr

/-- What a call does to the seats. -/
inductive Seating (σ : Server) : Call → Server → Prop
  | same (e : Call) (σ' : Server) (hsides : σ'.activeSides = σ.activeSides) : Seating σ e σ'
  | taken (side : Side) (ix : Nat) (σ' : Server) (hrole : σ.workerMgr.roles.find? ix = some .servingUnknown)
      (hfree : σ.activeSides side = none)
      (hsides : σ'.activeSides = Function.update σ.activeSides side (some ix)) :
      Seating σ (.playerIntro side ix) σ'
  | left (errs : List IOErrClass) (ix : Nat) (hasWork : Bool) (s : Side) (σ' : Server)
      (hsides : σ'.activeSides = Function.update σ.activeSides s none) :
      Seating σ (.grandExitCallback errs ix hasWork) σ'

/-- **A seat is taken by an `IAM` and left by an exit.** -/
theorem Effect.seating {σ σ' : Server} {e : Call} {b : Bool} (h : Effect σ e b σ') : Seating σ e σ' := by
  cases h with
  | introLobby side ix hrole hseat | introFirstDeal side ix _ _ hrole hseat
  | introRejoin side ix _ _ _ hrole hseat | introResume side ix _ _ _ hrole hseat =>
      exact .taken side ix _ hrole hseat rfl
  | exitLeave errs ix hasWork s | exitLeaveErased errs ix hasWork s => exact .left errs ix hasWork s _ rfl
  | trickProxy n card ix σ' _ _ hfin | exitInternal errs ix hasWork σ' _ hfin
  | exitProxy errs ix hasWork σ' _ _ hfin => exact .same _ _ hfin.sameSeats.activeSides
  | trickAccepted n card ix side σ' _ _ _ hacc => exact .same _ _ hacc.sameSeats.activeSides
  | _ => exact .same _ _ rfl

/-- The first `IAM` of a worker is never put off. -/
theorem Effect.intro_granted {σ σ' : Server} {side : Side} {ix : Nat} {b : Bool}
    (h : Effect σ (.playerIntro side ix) b σ') (hrole : σ.workerMgr.roles.find? ix = some .servingUnknown) :
    b = true := by
  cases h with
  | introParked _ _ role hknown hne => exact absurd (Option.some.inj (hknown.symm.trans hrole)) hne
  | _ => rfl

/-- A card is only put off while somebody is missing. -/
theorem Effect.put_granted {σ σ' : Server} {n : Nat} {card : Card} {ix : Nat} {b : Bool}
    (h : Effect σ (.playerTricked n card ix) b σ') (hfour : 4 ≤ σ.playersConnected) : b = true := by
  cases h with
  | trickParked _ _ _ hpc => omega
  | _ => rfl

/-- A worker that has said something, and is known for more than its connection. -/
def Introduced (m : IOWorkerMgr) (ix : Nat) : Prop := ∃ role, m.roles.find? ix = some role ∧ role ≠ .servingUnknown

end Server

namespace System

open Server

/-- Who sits down in a turn, and on which side. -/
def sitsDown (S : System) (_ : Event) (S' : System) : List (Nat × Side) :=
  Side.sides_.filterMap fun s =>
    if S.server.activeSides s = none then (S'.server.activeSides s).map fun ix => (ix, s) else none

/-- The card of worker `ix` that comes to the table in a turn: the side it counts for, the number of the trick
that came with it, and the card. -/
def puts (ix : Nat) (S : System) (ev : Event) (_ : System) : List (Side × Nat × Card) :=
  match S.callOf ev with
  | some (.playerTricked n card jx) =>
      if jx = ix then (S.server.accepts (.playerTricked n card jx)).toList.map fun p => (p.1, n, p.2) else []
  | _ => []

/-- The lines in the bytes that have come in for worker `ix`, up to the first that is too long. -/
def lines (ix : Nat) (S₀ : System) (evs : List Event) : List (List Char) :=
  (Framing.cut '\r' '\n' (Heard.received (record step (heardBy ix) S₀ evs))).1.takeWhile (Intake.Short ·)

theorem sitsDown_same {S S' : System} {ev : Event} (h : S'.server.activeSides = S.server.activeSides) :
    sitsDown S ev S' = [] := by
  refine List.filterMap_eq_nil_iff.mpr fun s _ => ?_
  by_cases hfree : S.server.activeSides s = none
  · rw [if_pos hfree, h, hfree]
    rfl
  · rw [if_neg hfree]

/-- **One sits down at a time**, and who does was unknown before and is seated in answer to its own `IAM`. -/
theorem sitsDown_step {S S' : System} {ev : Event} (h : step S ev = some S') :
    sitsDown S ev S' = [] ∧ (∀ s ix, S'.server.activeSides s = some ix → S.server.activeSides s = some ix) ∨
    ∃ side ix, sitsDown S ev S' = [(ix, side)] ∧ ¬ Introduced S.server.workerMgr ix ∧
      .playerIntro side ix ∈ grantedTo ix S ev S' ∧
      S'.server.activeSides = Function.update S.server.activeSides side (some ix) := by
  rcases (step_turn h).server with ⟨-, hsame⟩ | ⟨e, b, hcall, hhandle⟩
  · rw [hsame]
    exact .inl ⟨sitsDown_same (by rw [hsame]), fun _ _ hseat => hseat⟩
  · have heff := handle_effect hhandle
    cases heff.seating with
    | same e σ' hsides => exact .inl ⟨sitsDown_same hsides, fun s ix hseat => hsides ▸ hseat⟩
    | taken side ix σ' hrole hfree hsides =>
        refine .inr ⟨side, ix, ?_, ?_, ?_, hsides⟩
        · -- of the four sides only the one that is taken has changed from free to occupied
          have hone : ∀ s, (if S.server.activeSides s = none then
              (S'.server.activeSides s).map (fun jx => (jx, s)) else none) =
                if s = side then some (ix, s) else none := by
            intro s
            rw [hsides]
            by_cases hs : s = side
            · subst hs
              simp [hfree]
            · rw [Function.update_of_ne hs, if_neg hs]
              split
              · rename_i hnone
                rw [hnone]
                rfl
              · rfl
          rw [sitsDown, List.filterMap_congr fun s _ => hone s]
          cases side <;> rfl
        · rintro ⟨role, hknown, hne⟩
          exact hne (Option.some.inj (hknown.symm.trans hrole))
        · simp [grantedTo, hcall, reply, hhandle, heff.intro_granted hrole, Call.asks, Call.owner]
    | left errs ix hasWork s σ' hsides =>
        -- who leaves frees a side and seats nobody
        have hold : ∀ t jx, S'.server.activeSides t = some jx → S.server.activeSides t = some jx := by
          intro t jx hseat
          rw [hsides] at hseat
          by_cases ht : t = s
          · subst ht
            simp at hseat
          · rwa [Function.update_of_ne ht] at hseat
        refine .inl ⟨List.filterMap_eq_nil_iff.mpr fun t _ => ?_, hold⟩
        by_cases hfree : S.server.activeSides t = none
        · rw [if_pos hfree]
          cases hseat : S'.server.activeSides t with
          | none => rfl
          | some jx =>
              rw [hold t jx hseat] at hfree
              cases hfree
        · rw [if_neg hfree]

/-- A card comes to the table by a granted request of the thread that has the seat. -/
theorem puts_step {S S' : System} {ev : Event} (ix : Nat)
    (hvoice : ∀ n card side, S.callOf ev = some (.playerTricked n card ix) → S.server.sideOf ix = some side →
      S.server.activeSides side = some ix)
    (h : step S ev = some S') :
    (∀ c ∈ puts ix S ev S', S.server.activeSides c.1 = some ix) ∧
      ((puts ix S ev S').map fun c => .playerTricked c.2.1 c.2.2 ix).Sublist (grantedTo ix S ev S') := by
  have hnothing : puts ix S ev S' = [] → (∀ c ∈ puts ix S ev S', S.server.activeSides c.1 = some ix) ∧
      ((puts ix S ev S').map fun c => .playerTricked c.2.1 c.2.2 ix).Sublist (grantedTo ix S ev S') := by
    intro hnone
    rw [hnone]
    exact ⟨by simp, List.nil_sublist _⟩
  rcases (step_turn h).server with ⟨hnone, -⟩ | ⟨e, b, hcall, hhandle⟩
  · exact hnothing (by rw [puts, hnone])
  · have heff := handle_effect hhandle
    rcases heff.accepts_cases with ⟨hno, -⟩ | ⟨n, card, jx, side, rfl, hput, hfour, hside, -⟩
    · refine hnothing ?_
      rw [puts, hcall]
      cases e with
      | playerTricked n card jx => simp [hno]
      | _ => rfl
    · by_cases hix : jx = ix
      · subst hix
        have hone : puts jx S ev S' = [(side, n, card)] := by simp [puts, hcall, hput]
        have hgranted : grantedTo jx S ev S' = [.playerTricked n card jx] := by
          simp [grantedTo, hcall, reply, hhandle, heff.put_granted hfour, Call.asks, Call.owner]
        rw [hone, hgranted]
        exact ⟨by simpa using hvoice n card side hcall hside, List.Sublist.refl _⟩
      · exact hnothing (by simp [puts, hcall, hix])

/-- What every run keeps of those who have sat down. -/
structure Owned (S₀ : System) (evs : List Event) (S : System) : Prop where
  once : ((record step sitsDown S₀ evs).map Prod.fst).Nodup
  introduced : ∀ p ∈ record step sitsDown S₀ evs, Introduced S.server.workerMgr p.1
  seats : ∀ s ix, S.server.activeSides s = some ix → (ix, s) ∈ record step sitsDown S₀ evs
  asked : ∀ p ∈ record step sitsDown S₀ evs, .playerIntro p.2 p.1 ∈ record step (grantedTo p.1) S₀ evs
  plays : ∀ ix, ∀ c ∈ record step (puts ix) S₀ evs, (ix, c.1) ∈ record step sitsDown S₀ evs
  puts : ∀ ix, ((record step (puts ix) S₀ evs).map fun c => .playerTricked c.2.1 c.2.2 ix).Sublist
    (record step (grantedTo ix) S₀ evs)

theorem Owned.step {scenario : GameScenario} {timeout tcpListenSock : Int} {S₀ S S' : System} {evs : List Event}
    {ev : Event} (h : Owned S₀ evs S) (h₀ : start scenario timeout tcpListenSock = .ok S₀)
    (hevs : exec step S₀ evs = some S) (hstep : step S ev = some S') : Owned S₀ (evs ++ [ev]) S' := by
  have hrun : run scenario timeout tcpListenSock evs = some S := run_eq_some.mpr ⟨S₀, h₀, hevs⟩
  have hbook := seatBook_run hrun
  have hputs := fun ix => puts_step ix
    (fun n card side hcall hside => silent_zombie hrun hcall hside) hstep
  have hknown : ∀ ix, Introduced S.server.workerMgr ix → Introduced S'.server.workerMgr ix := by
    rintro ix ⟨role, hrole, hne⟩
    rcases (step_turn hstep).effect with hsame | ⟨e, b, -, heff⟩
    · rw [hsame]
      exact ⟨role, hrole, hne⟩
    · exact heff.spoken hbook ⟨role, hrole, hne⟩
  have hseated : ∀ p ∈ record System.step sitsDown S₀ evs, Introduced S'.server.workerMgr p.1 := fun p hp =>
    hknown p.1 (h.introduced p hp)
  have hasked : ∀ p ∈ record System.step sitsDown S₀ evs,
      .playerIntro p.2 p.1 ∈ record System.step (grantedTo p.1) S₀ (evs ++ [ev]) := by
    intro p hp
    rw [record_concat _ hevs hstep]
    exact List.mem_append_left _ (h.asked p hp)
  have hplays : ∀ ix, ∀ c ∈ record System.step (System.puts ix) S₀ (evs ++ [ev]),
      (ix, c.1) ∈ record System.step sitsDown S₀ evs := by
    intro ix c hc
    rw [record_concat _ hevs hstep] at hc
    rcases List.mem_append.mp hc with hc | hc
    · exact h.plays ix c hc
    · exact h.seats c.1 ix ((hputs ix).1 c hc)
  have hsublist : ∀ ix, ((record System.step (System.puts ix) S₀ (evs ++ [ev])).map fun c =>
      .playerTricked c.2.1 c.2.2 ix).Sublist (record System.step (grantedTo ix) S₀ (evs ++ [ev])) := by
    intro ix
    rw [record_concat _ hevs hstep, record_concat _ hevs hstep, List.map_append]
    exact (h.puts ix).append (hputs ix).2
  rcases sitsDown_step hstep with ⟨hnobody, hsides⟩ | ⟨side, ix, hone, hunknown, hintro, hsides⟩
  · have hsame : record System.step sitsDown S₀ (evs ++ [ev]) = record System.step sitsDown S₀ evs := by
      rw [record_concat _ hevs hstep, hnobody, List.append_nil]
    constructor
    case once => rw [hsame]; exact h.once
    case introduced => rw [hsame]; exact hseated
    case seats => rw [hsame]; exact fun s jx hs => h.seats s jx (hsides s jx hs)
    case asked => rw [hsame]; exact hasked
    case plays => rw [hsame]; exact hplays
    case puts => exact hsublist
  · have hmore : record System.step sitsDown S₀ (evs ++ [ev]) = record System.step sitsDown S₀ evs ++ [(ix, side)] := by
      rw [record_concat _ hevs hstep, hone]
    have hself : S'.server.activeSides side = some ix := by rw [hsides, Function.update_self]
    obtain ⟨-, role, hrole, hne⟩ := (seatBook_run (run_eq_some.mpr
      ⟨S₀, h₀, exec_concat_eq_some.mpr ⟨S, hevs, hstep⟩⟩)).seat side ix hself
    constructor
    case once =>
      -- who was unknown has not been seated before
      rw [hmore, List.map_append]
      refine List.nodup_append.mpr ⟨h.once, List.nodup_singleton ix, fun jx hjx kx hkx heq => ?_⟩
      obtain ⟨p, hp, rfl⟩ := List.mem_map.mp hjx
      obtain rfl := List.mem_singleton.mp hkx
      exact hunknown (heq ▸ h.introduced p hp)
    case introduced =>
      rw [hmore]
      refine List.forall_mem_append.mpr ⟨hseated, fun p hp => ?_⟩
      obtain rfl := List.mem_singleton.mp hp
      exact ⟨role, hrole, hne⟩
    case seats =>
      intro s jx hs
      rw [hmore]
      by_cases hside : s = side
      · subst hside
        obtain rfl := Option.some.inj (hself.symm.trans hs)
        simp
      · rw [hsides, Function.update_of_ne hside] at hs
        exact List.mem_append_left _ (h.seats s jx hs)
    case asked =>
      rw [hmore]
      refine List.forall_mem_append.mpr ⟨hasked, fun p hp => ?_⟩
      obtain rfl := List.mem_singleton.mp hp
      rw [record_concat _ hevs hstep]
      exact List.mem_append_right _ hintro
    case plays =>
      intro jx c hc
      rw [hmore]
      exact List.mem_append_left _ (hplays jx c hc)
    case puts => exact hsublist

theorem owned_start {S₀ : System} {scenario : GameScenario} {timeout tcpListenSock : Int}
    (h : start scenario timeout tcpListenSock = .ok S₀) : Owned S₀ [] S₀ := by
  obtain ⟨r, -, hstarted⟩ := Server.start_eq_ok (start_eq_ok h).1
  have hempty : ∀ s, S₀.server.activeSides s = none := by
    intro s
    rw [hstarted]
    rfl
  constructor
  case once => exact List.nodup_nil
  case introduced => simp [record]
  case seats =>
    intro s ix hs
    rw [hempty s] at hs
    cases hs
  case asked => simp [record]
  case plays => simp [record]
  case puts => exact fun ix => List.Sublist.refl _

/-- **A card comes from its side's player, who has sent it.**  In every run nobody sits down twice; a card is
put on the table by the thread of the worker that has the seat at that moment; and the cards of a worker all
count for the side its own `IAM` names, and are some of those that the lines of its connection name, in the
order of these lines. -/
theorem owned_run {scenario : GameScenario} {timeout tcpListenSock : Int} {evs : List Event} {S₀ S : System}
    (h₀ : start scenario timeout tcpListenSock = .ok S₀) (hevs : exec step S₀ evs = some S) :
    ((record step sitsDown S₀ evs).map Prod.fst).Nodup ∧
      (∀ ev n card ix side, S.callOf ev = some (.playerTricked n card ix) →
        S.server.accepts (.playerTricked n card ix) = some (side, card) → S.server.activeSides side = some ix) ∧
      ∀ ix w, S.threads ix = some w → w.kind = .handler →
        (∀ c ∈ record step (puts ix) S₀ evs, (ix, c.1) ∈ record step sitsDown S₀ evs) ∧
        (∀ side, (ix, side) ∈ record step sitsDown S₀ evs → .playerIntro side ix ∈ callsFor ix (lines ix S₀ evs)) ∧
        ((record step (puts ix) S₀ evs).map fun c => .playerTricked c.2.1 c.2.2 ix).Sublist
          (callsFor ix (lines ix S₀ evs)) := by
  have howned : Owned S₀ evs S :=
    exec_induction (P := Owned S₀) (owned_start h₀) (fun evs S ev S' hes ih hS' => ih.step h₀ hes hS') evs S hevs
  refine ⟨howned.once, fun ev n card ix side hcall hput => ?_, fun ix w hw hkind => ?_⟩
  · exact silent_zombie (run_eq_some.mpr ⟨S₀, h₀, hevs⟩) hcall (accepts_eq_some hput).2.1
  · -- what is granted to the worker is read off its lines
    have hgranted : (record step (grantedTo ix) S₀ evs).Sublist (callsFor ix (lines ix S₀ evs)) := by
      rw [lines, ← requests_run h₀ hevs hw hkind]
      exact List.sublist_append_left _ _
    refine ⟨howned.plays ix, fun side hseat => ?_, (howned.puts ix).trans hgranted⟩
    exact hgranted.subset (howned.asked (ix, side) hseat)

/-- `N` sits down, hears its `DEAL` and its `TRICK`, and puts a card of it; the worker is not back in `poll`
yet. -/
def putsCard : List Event :=
  accepts [11, 12, 13, 14] ++ speaks 1 "IAMN" ++ speaks 2 "IAME" ++ speaks 3 "IAMS" ++ speaks 4 "IAMW" ++
    settles 1 [35, 8] ++ hears 1 "TRICK1AC" ++ goes 1 1

/-- And `W` sends a card before its turn. -/
def twoCards : List Event := putsCard ++ settles 4 [35] ++ hears 4 "TRICK1AS" ++ goes 4 1

theorem owned_run_twoCards :
    ∃ S w, exec step (started [suitRound] 5 3 suitRound) twoCards = some S ∧ S.threads 1 = some w ∧
      record step (puts 1) (started [suitRound] 5 3 suitRound) twoCards = [(.N, 1, ⟨.A, .colorC⟩)] ∧
      record step (puts 4) (started [suitRound] 5 3 suitRound) twoCards = [] ∧
      (callsFor 4 (lines 4 (started [suitRound] 5 3 suitRound) twoCards)).length = 2 ∧
      .playerIntro .N 1 ∈ callsFor 1 (lines 1 (started [suitRound] 5 3 suitRound) twoCards) := by
  have hfacts : (exec step (started [suitRound] 5 3 suitRound) twoCards).bind (fun S => (S.threads 1).map fun w =>
      w.kind) = some .handler := by
    decide +kernel
  have hone : record step (puts 1) (started [suitRound] 5 3 suitRound) twoCards = [(.N, 1, ⟨.A, .colorC⟩)] := by
    decide +kernel
  obtain ⟨S, hS, hthread⟩ := Option.bind_eq_some_iff.mp hfacts
  obtain ⟨w, hw, hkind⟩ := Option.map_eq_some_iff.mp hthread
  obtain ⟨hplays, hasked, -⟩ := (owned_run (start_cons suitRound [] 5 3) hS).2.2 1 w hw hkind
  refine ⟨S, w, hS, hw, hone, by decide +kernel, by decide +kernel, hasked .N ?_⟩
  exact hplays (.N, 1, ⟨.A, .colorC⟩) (by rw [hone]; simp)

end System

end Kierki
