import Kierki.Server.Alike
import Kierki.Server.Frame
import Kierki.Server.Seats

/-!
# Connections without a seat

A run is compared with the run in which the connections that never get a seat do not come.  Every call of
one of them leaves the second run where it is, every other call is made there too and answered in the same
way (`Alike.kept`, `Alike.dropped`).  Game, seats and the messages to the seated workers stay the same all
along.
-/

namespace Kierki

open Fallible

namespace Server

/-- The server `τ` is `σ` without the workers that are not in `keep`. -/
structure Alike (keep : Nat → Bool) (σ τ : Server) : Prop where
  gameScenario : τ.gameScenario = σ.gameScenario
  game : τ.game = σ.game
  exitCode : τ.exitCode = σ.exitCode
  playersConnected : τ.playersConnected = σ.playersConnected
  lastDeal : τ.lastDeal = σ.lastDeal
  exiting : τ.exiting = σ.exiting
  timeout : τ.timeout = σ.timeout
  seats : ∀ s, τ.activeSides s = (σ.activeSides s).map (rank keep)
  seated : ∀ s, ∀ ix ∈ σ.activeSides s, keep ix = true
  workerToSide : ∀ ix, keep ix = true →
    τ.workerToSide.find? (rank keep ix) = σ.workerToSide.find? ix
  zombieWorkerToSide : ∀ ix, keep ix = true →
    τ.zombieWorkerToSide.find? (rank keep ix) = σ.zombieWorkerToSide.find? ix
  ghosts : ∀ ix, ∀ s ∈ σ.zombieWorkerToSide.find? ix, keep ix = true
  workerMgr : IOWorkerMgr.Alike keep σ.exiting σ.workerMgr τ.workerMgr

/-- The same for a call with its answer. -/
def AlikeAnswer (keep : Nat → Bool) (p q : Bool × Server) : Prop := q.1 = p.1 ∧ Alike keep p.2 q.2

section Handlers

variable {keep : Nat → Bool} {σ τ : Server} {ix : Nat}

theorem Alike.answer (h : Alike keep σ τ) (b : Bool) :
    Lockstep (ε := Fault) (AlikeAnswer keep) (pure (b, σ)) (pure (b, τ)) :=
  .ok ⟨rfl, h⟩

/-- A computation on servers, with a fixed answer. -/
theorem Alike.andAnswer {x y : Except Fault Server} (h : Lockstep (Alike keep) x y) (b : Bool) :
    Lockstep (AlikeAnswer keep) (do return (b, ← x)) (do return (b, ← y)) :=
  h.bind fun _ _ _ h' => h'.answer b

theorem Alike.withMgr (h : Alike keep σ τ) {m m' : IOWorkerMgr}
    (hm : IOWorkerMgr.Alike keep σ.exiting m m') :
    Alike keep { σ with workerMgr := m } { τ with workerMgr := m' } :=
  { h with workerMgr := hm }

theorem Alike.mapGame (h : Alike keep σ τ) (f : Game → Game) :
    Alike keep { σ with game := f σ.game } { τ with game := f τ.game } :=
  { h with game := congrArg f h.game }

/-- The jobs for the kept addressees, under their new indices. -/
theorem Alike.sendJobs (h : Alike keep σ τ) {jobs jobs' : List (Option Nat × SendJob)}
    (hjobs : List.Forall₂ (fun p p' => p' = (p.1.map (rank keep), p.2) ∧ ∀ jx ∈ p.1, keep jx = true)
      jobs jobs') :
    Lockstep (Alike keep) (σ.sendJobs jobs) (τ.sendJobs jobs') := by
  have hloop : Lockstep (IOWorkerMgr.Alike keep σ.exiting)
      (jobs.foldlM (fun m p => m.sendJob p.2 p.1) σ.workerMgr)
      (jobs'.foldlM (fun m p => m.sendJob p.2 p.1) τ.workerMgr) := by
    refine Lockstep.foldlM hjobs (fun m m' p p' hm hp => ?_) h.workerMgr
    obtain ⟨rfl, hk⟩ := hp
    exact hm.sendJob hk p.2
  exact hloop.bind fun m m' _ hm => .ok (h.withMgr hm)

/-- One message for each of some sides. -/
theorem Alike.sidesJobs (h : Alike keep σ τ) {α : Type} (l : List α) (side : α → Side)
    (msg : α → SendJob) :
    List.Forall₂ (fun p p' => p' = (p.1.map (rank keep), p.2) ∧ ∀ jx ∈ p.1, keep jx = true)
      (l.map fun a => (σ.activeSides (side a), msg a)) (l.map fun a => (τ.activeSides (side a), msg a)) := by
  rw [List.forall₂_map_left_iff, List.forall₂_map_right_iff, List.forall₂_same]
  intro a _
  exact ⟨by rw [h.seats], h.seated (side a)⟩

theorem Alike.sideJob (h : Alike keep σ τ) (side : Side) (msg : SendJob) :
    Lockstep (Alike keep) (σ.sendJobs [(σ.activeSides side, msg)])
      (τ.sendJobs [(τ.activeSides side, msg)]) :=
  h.sendJobs (h.sidesJobs [side] id fun _ => msg)

/-- The prompt for the player whose turn it is. -/
theorem Alike.prompt (h : Alike keep σ τ) :
    Lockstep (Alike keep) (σ.sendJobs [(σ.activeSides σ.game.nextMove, σ.game.msgTrick)])
      (τ.sendJobs [(τ.activeSides τ.game.nextMove, τ.game.msgTrick)]) := by
  rw [h.game]
  exact h.sideJob _ _

/-- Messages to one kept worker. -/
theorem Alike.workerJobs (h : Alike keep σ τ) (hk : keep ix = true) (msgs : List SendJob) :
    Lockstep (Alike keep) (σ.sendJobs (msgs.map fun msg => (some ix, msg)))
      (τ.sendJobs (msgs.map fun msg => (some (rank keep ix), msg))) := by
  refine h.sendJobs ?_
  rw [List.forall₂_map_left_iff, List.forall₂_map_right_iff, List.forall₂_same]
  intro msg _
  refine ⟨rfl, fun jx hjx => ?_⟩
  obtain rfl : ix = jx := Option.some.inj hjx
  exact hk

theorem Alike.finalize (h : Alike keep σ τ)
    (halive : ∃ ix, keep ix = true ∧ σ.workerMgr.Registered ix) :
    Lockstep (Alike keep) σ.finalize τ.finalize := by
  unfold Server.finalize
  rw [h.exiting]
  cases hexit : σ.exiting with
  | true => exact .ok h
  | false =>
      have hmgr := h.workerMgr
      rw [hexit] at hmgr
      exact (hmgr.finish halive).bind fun m m' _ hm => .ok { h with exiting := rfl, workerMgr := hm }

/-- Who was sent a message is registered. -/
theorem registered_of_sendJobs {σ' : Server} {jobs : List (Option Nat × SendJob)}
    (h : σ.sendJobs jobs = .ok σ') {p : Option Nat × SendJob} (hp : p ∈ jobs) :
    σ'.activeSides = σ.activeSides ∧ ∃ ix ∈ p.1, σ'.workerMgr.Registered ix := by
  obtain ⟨mgr, out, rfl, hpost, haddr⟩ := sendJobs_eq_ok h
  obtain ⟨q, hq, haddressee, -⟩ := haddr.exists_mem hp
  exact ⟨rfl, q.1, haddressee.symm, (hpost.registered q.1).mpr (hpost.addressee q hq)⟩

theorem Alike.roundEnded (h : Alike keep σ τ) :
    Lockstep (AlikeAnswer keep) σ.roundEnded τ.roundEnded := by
  unfold Server.roundEnded
  have hscores := h.mapGame Game.updatePenalties
  refine (hscores.sendJobs ?_).bind fun σ₁ τ₁ hσ₁ h₁ => ?_
  · have hjobs := hscores.sidesJobs (Side.sides_.flatMap fun s =>
      [(s, SendJob.score σ.game.updatePenalties.penaltiesRound.entries),
        (s, SendJob.total σ.game.updatePenalties.penalties.entries)]) Prod.fst Prod.snd
    rw [List.map_flatMap, List.map_flatMap] at hjobs
    rw [h.game]
    exact hjobs
  · have halive : ∃ ix, keep ix = true ∧ σ₁.workerMgr.Registered ix := by
      obtain ⟨hsides, ix, hix, hreg⟩ := registered_of_sendJobs hσ₁ List.mem_cons_self
      exact ⟨ix, h.seated _ ix hix, hreg⟩
    have hleft := h₁.mapGame Game.leaveRound
    refine Lockstep.ite (by rw [h₁.game, h₁.gameScenario]) (fun _ => ?_) fun _ => ?_
    · exact Alike.andAnswer (hleft.finalize halive) true
    · refine (Lockstep.of_eq ?_).bind fun g g' _ hg => ?_
      · rw [h₁.game, h₁.gameScenario]
      · subst hg
        have hdealt : Alike keep { σ₁ with game := g', lastDeal := some g'.hands }
            { τ₁ with game := g', lastDeal := some g'.hands } :=
          { h₁ with game := rfl, lastDeal := rfl }
        refine Alike.andAnswer (hdealt.sendJobs ?_) false
        exact hdealt.sidesJobs Side.sides_ id fun s => g'.msgDeal (g'.hands s)

theorem Alike.trickEnded (h : Alike keep σ τ) :
    Lockstep (AlikeAnswer keep) σ.trickEnded τ.trickEnded := by
  unfold Server.trickEnded
  have htaken := h.mapGame Game.takeTrick
  refine (htaken.sendJobs ?_).bind fun σ₁ τ₁ _ h₁ => ?_
  · rw [h.game]
    exact htaken.sidesJobs Side.sides_ id fun _ => σ.game.msgTaken
  · refine Lockstep.ite (by rw [h₁.game]) (fun _ => ?_) fun _ => ?_
    · exact h₁.roundEnded
    · exact h₁.answer false

theorem Alike.offerCard (h : Alike keep σ τ) (n : Nat) (card : Card) (side : Side) :
    Lockstep (Alike keep) (σ.offerCard n card side) (τ.offerCard n card side) := by
  have hwrong : Lockstep (Alike keep) (σ.sendJobs [(σ.activeSides side, .wrong σ.game.trickNo)])
      (τ.sendJobs [(τ.activeSides side, .wrong τ.game.trickNo)]) := by
    rw [h.game]
    exact h.sideJob side _
  unfold Server.offerCard
  refine Lockstep.ite (by rw [h.game]) (fun _ => hwrong) fun _ => ?_
  refine Lockstep.ite (by rw [h.game]) (fun _ => hwrong) fun _ => ?_
  have hput := h.mapGame fun g => g.putCard side card
  have hlen : (τ.game.putCard side card).table.length = 4 ↔
      (σ.game.putCard side card).table.length = 4 := by rw [h.game]
  refine Lockstep.ite hlen (fun _ => ?_) fun _ => ?_
  · refine hput.trickEnded.bind fun p q _ hpq => ?_
    obtain ⟨done, σ₁⟩ := p
    obtain ⟨done', τ₁⟩ := q
    obtain ⟨rfl, h₁⟩ := hpq
    cases done' with
    | true => exact .ok h₁
    | false => exact h₁.prompt
  · rw [ok_bind, ok_bind]
    exact hput.prompt

/-- A `TRICK` of a kept worker. -/
theorem Alike.playerTricked (h : Alike keep σ τ) (hk : keep ix = true)
    (hproxy : σ.workerMgr.roles.find? ix = some .servingProxy → σ.workerMgr.Registered ix) (n : Nat)
    (card : Card) :
    Lockstep (AlikeAnswer keep) (σ.playerTricked n card ix) (τ.playerTricked n card (rank keep ix)) := by
  unfold Server.playerTricked
  refine Lockstep.ite (by rw [h.playersConnected]) (fun _ => h.answer false) fun _ => ?_
  refine (Lockstep.of_eq (h.workerMgr.getRole hk)).bind fun role role' hrole heq => ?_
  subst heq
  rw [IOWorkerMgr.getRole_eq_ok] at hrole
  cases role' with
  | servingUnknown =>
      refine (h.workerMgr.setRole hk _).bind fun m m' _ hm => ?_
      exact (hm.sendKill hk).bind fun m₁ m₁' _ hm₁ => (h.withMgr hm₁).answer true
  | servingActive =>
      refine (Lockstep.of_eq (by rw [h.workerToSide ix hk])).bind fun side side' _ heq => ?_
      subst heq
      exact Alike.andAnswer (h.offerCard n card side') true
  | servingProxy =>
      refine (h.workerMgr.setRole hk _).bind fun m m' hm₁ hm => ?_
      obtain ⟨-, rfl⟩ := IOWorkerMgr.setRole_eq_ok.mp hm₁
      exact Alike.andAnswer ((h.withMgr hm).finalize ⟨ix, hk, hproxy hrole⟩) true
  | cleanup =>
      refine (Lockstep.of_eq (by rw [h.zombieWorkerToSide ix hk])).bind fun side side' _ heq => ?_
      subst heq
      exact Alike.andAnswer (h.offerCard n card side') true
  | cleanupUnknown | shutdown => exact h.answer true

theorem Alike.takeSeat (h : Alike keep σ τ) (hk : keep ix = true) (side : Side) :
    Lockstep (Alike keep) (σ.takeSeat side ix) (τ.takeSeat side (rank keep ix)) := by
  unfold Server.takeSeat
  refine (h.workerMgr.setRole hk _).bind fun m m' _ hm => .ok ?_
  refine { h with
    playersConnected := by rw [h.playersConnected]
    seats := fun s => ?_
    seated := fun s jx hjx => ?_
    workerToSide := fun jx hj => ?_
    workerMgr := hm }
  · by_cases hs : s = side
    · subst hs
      simp
    · simp [Function.update_of_ne hs, h.seats]
  · by_cases hs : s = side
    · subst hs
      obtain rfl : ix = jx := by simpa using hjx
      exact hk
    · exact h.seated s jx (by simpa [Function.update_of_ne hs] using hjx)
  · simp only [UnorderedMap.find?_insert, rank_inj hj hk, h.workerToSide jx hj]

theorem Alike.firstDeal (h : Alike keep σ τ) : Lockstep (Alike keep) σ.firstDeal τ.firstDeal := by
  unfold Server.firstDeal
  have hdealt : Alike keep { σ with lastDeal := some σ.game.hands }
      { τ with lastDeal := some τ.game.hands } := { h with lastDeal := by rw [h.game] }
  refine (hdealt.sendJobs ?_).bind fun σ₁ τ₁ _ h₁ => ?_
  · rw [h.game]
    exact hdealt.sidesJobs Side.sides_ id fun s => σ.game.msgDeal (σ.game.hands s)
  · exact h₁.prompt

theorem Alike.rejoin (h : Alike keep σ τ) (hk : keep ix = true) (side : Side) (deal : TableState) :
    Lockstep (Alike keep) (σ.rejoin side ix deal) (τ.rejoin side (rank keep ix) deal) := by
  unfold Server.rejoin
  refine Lockstep.bind (R := Alike keep) ?_ fun σ₁ τ₁ _ h₁ => ?_
  · rw [h.game]
    exact h.sideJob side _
  refine Lockstep.bind (R := Alike keep) ?_ fun σ₂ τ₂ _ h₂ => ?_
  · rw [h₁.game]
    exact h₁.workerJobs hk _
  refine Lockstep.ite (by rw [h₂.playersConnected]) (fun _ => ?_) fun _ => .ok h₂
  have hsignals := ((h₂.workerMgr.signalRole .servingActive).signalRole .cleanupUnknown).signalRole
    .servingUnknown
  exact (h₂.withMgr hsignals).prompt

theorem Alike.sidesBusy (h : Alike keep σ τ) : τ.sidesBusy = σ.sidesBusy := by
  unfold Server.sidesBusy
  refine List.filter_congr fun s _ => ?_
  rw [h.seats, Option.isSome_map]

/-- An `IAM` of a kept worker. -/
theorem Alike.playerIntro (h : Alike keep σ τ) (hk : keep ix = true) (side : Side) :
    Lockstep (AlikeAnswer keep) (σ.playerIntro side ix) (τ.playerIntro side (rank keep ix)) := by
  unfold Server.playerIntro
  refine (Lockstep.of_eq (h.workerMgr.getRole hk)).bind fun role role' _ heq => ?_
  subst heq
  refine Lockstep.ite Iff.rfl (fun _ => ?_) fun _ => ?_
  · refine Lockstep.ite (by rw [h.playersConnected]) (fun _ => h.answer false) fun _ => ?_
    refine (h.workerMgr.sendKill hk).bind fun m m' _ hm => ?_
    exact (hm.setRole hk _).bind fun m₁ m₁' _ hm₁ => (h.withMgr hm₁).answer true
  · rw [h.seats]
    cases hseat : σ.activeSides side with
    | none =>
        refine (h.takeSeat hk side).bind fun σ₁ τ₁ _ h₁ => ?_
        rw [h₁.lastDeal]
        cases hdeal : σ₁.lastDeal with
        | none =>
            refine Lockstep.ite (by rw [h₁.playersConnected]) (fun _ => ?_) fun _ => h₁.answer true
            exact Alike.andAnswer h₁.firstDeal true
        | some deal => exact Alike.andAnswer (h₁.rejoin hk side deal) true
    | some jx =>
        refine (h.workerMgr.setRole hk _).bind fun m m' _ hm => ?_
        have hrole := h.withMgr hm
        refine Lockstep.bind (R := Alike keep) ?_ fun σ₁ τ₁ _ h₁ => h₁.answer true
        rw [hrole.sidesBusy]
        exact hrole.workerJobs hk [_]

theorem Alike.shutDown (h : Alike keep σ τ) (hk : keep ix = true) :
    Lockstep (Alike keep) (σ.shutDown ix) (τ.shutDown (rank keep ix)) :=
  (h.workerMgr.setRole hk _).bind fun _ _ _ hm => .ok (h.withMgr (hm.eraseWorker hk))

/-- A kept worker leaves its side. -/
theorem Alike.unseated (h : Alike keep σ τ) (hk : keep ix = true) (s : Side) :
    Alike keep (σ.unseated s ix) (τ.unseated s (rank keep ix)) := by
  refine { h with
    playersConnected := congrArg (· - 1) h.playersConnected
    seats := fun t => ?_
    seated := fun t jx hjx => ?_
    workerToSide := fun jx hj => ?_
    zombieWorkerToSide := fun jx hj => ?_
    ghosts := fun jx t ht => ?_ }
  · by_cases ht : t = s
    · subst ht
      simp [Server.unseated]
    · simp [Server.unseated, Function.update_of_ne ht, h.seats]
  · by_cases ht : t = s
    · subst ht
      simp [Server.unseated] at hjx
    · exact h.seated t jx (by simpa [Server.unseated, Function.update_of_ne ht] using hjx)
  · simp only [Server.unseated, UnorderedMap.find?_erase, rank_inj hj hk, h.workerToSide jx hj]
  · simp only [Server.unseated, UnorderedMap.find?_insert, rank_inj hj hk, h.zombieWorkerToSide jx hj]
  · by_cases hj : jx = ix
    · rwa [hj]
    · exact h.ghosts jx t (by simpa [Server.unseated, hj] using ht)

/-- Errors that are not internal end nothing. -/
theorem exitErrors_eq {errs : List IOErrClass} (hno : .internal ∉ errs) (σ : Server) :
    σ.exitErrors errs = .ok (false, σ) := by
  induction errs with
  | nil => rfl
  | cons err errs ih =>
      obtain ⟨hne, hrest⟩ := not_or.mp (mt List.mem_cons.mpr hno)
      rw [exitErrors, handleSysErr, if_neg (Ne.symm hne), ok_bind]
      exact ih hrest

theorem registered_eraseWorker (m : IOWorkerMgr) (ix jx : Nat) :
    (m.eraseWorker ix).Registered jx ↔ m.Registered jx := by
  rw [IOWorkerMgr.Registered, IOWorkerMgr.Registered, IOWorkerMgr.eraseWorker_workers]

/-- The exit of a kept worker. -/
theorem Alike.grandExitCallback (h : Alike keep σ τ) (hk : keep ix = true)
    (hproxy : σ.workerMgr.roles.find? ix = some .servingProxy → σ.workerMgr.Registered ix)
    {errs : List IOErrClass} (hno : .internal ∉ errs) (hasWork : Bool) :
    Lockstep (AlikeAnswer keep) (σ.grandExitCallback errs ix hasWork)
      (τ.grandExitCallback errs (rank keep ix) hasWork) := by
  unfold Server.grandExitCallback
  rw [exitErrors_eq hno, exitErrors_eq hno, ok_bind, ok_bind]
  refine Lockstep.ite Iff.rfl (fun hfalse => absurd hfalse (by simp)) fun _ => ?_
  refine (Lockstep.of_eq (h.workerMgr.getRole hk)).bind fun role role' hrole heq => ?_
  subst heq
  rw [IOWorkerMgr.getRole_eq_ok] at hrole
  -- the two clean-up roles look at the table and the queue, which are the same in both
  have hlater : Lockstep (AlikeAnswer keep)
      (if σ.playersConnected = 4 ∧ hasWork = false then (do return (true, ← σ.shutDown ix))
        else .ok (false, σ))
      (if τ.playersConnected = 4 ∧ hasWork = false then (do return (true, ← τ.shutDown (rank keep ix)))
        else .ok (false, τ)) := by
    refine Lockstep.ite (by rw [h.playersConnected]) (fun _ => ?_) fun _ => h.answer false
    exact Alike.andAnswer (h.shutDown hk) true
  cases role' with
  | servingUnknown => exact Alike.andAnswer (h.shutDown hk) true
  | servingActive =>
      refine (Lockstep.of_eq (by rw [h.workerToSide ix hk])).bind fun s s' _ heq => ?_
      subst heq
      have hleft := h.unseated hk s'
      refine Lockstep.ite (by rw [h.playersConnected, h.exiting]) (fun _ => ?_) fun _ => ?_
      · exact (hleft.workerMgr.setRole hk _).bind fun m m' _ hm => (hleft.withMgr hm).answer false
      · exact Alike.andAnswer (hleft.shutDown hk) true
  | cleanup | cleanupUnknown => exact hlater
  | shutdown => exact h.answer true
  | servingProxy =>
      refine (h.shutDown hk).bind fun σ₁ τ₁ hσ₁ h₁ => ?_
      -- the proxy is still registered when the others get their orders
      have hreg : σ₁.workerMgr.Registered ix := by
        rw [shutDown_eq_ok hσ₁]
        exact (registered_eraseWorker _ ix ix).mpr (hproxy hrole)
      exact Alike.andAnswer (h₁.finalize ⟨ix, hk, hreg⟩) true

theorem Alike.handleTimeout (h : Alike keep σ τ) (hk : keep ix = true) :
    Lockstep (Alike keep) (σ.handleTimeout ix) (τ.handleTimeout (rank keep ix)) := by
  unfold Server.handleTimeout
  refine Lockstep.ite (by rw [h.exiting]) (fun _ => .ok h) fun _ => ?_
  refine (Lockstep.of_eq (h.workerMgr.getRole hk)).bind fun role role' _ heq => ?_
  subst heq
  cases role' with
  | servingUnknown => exact (h.workerMgr.sendKill hk).bind fun m m' _ hm => .ok (h.withMgr hm)
  | servingActive =>
      refine (Lockstep.of_eq (by rw [h.workerToSide ix hk])).bind fun side side' _ heq => ?_
      subst heq
      refine Lockstep.ite (by rw [h.game]) (fun _ => .ok h) fun _ => ?_
      refine Lockstep.ite (by rw [h.playersConnected]) (fun _ => .ok h) fun _ => ?_
      rw [h.game]
      exact h.workerJobs hk [_]
  | servingProxy | cleanup | cleanupUnknown | shutdown => exact .ok h

theorem Alike.handleWrongMessage (h : Alike keep σ τ) (hk : keep ix = true) :
    Lockstep (AlikeAnswer keep) (σ.handleWrongMessage ix) (τ.handleWrongMessage (rank keep ix)) := by
  unfold Server.handleWrongMessage
  refine Lockstep.ite (by rw [h.playersConnected, h.exiting]) (fun _ => h.answer false) fun _ => ?_
  exact (h.workerMgr.sendKill hk).bind fun m m' _ hm => (h.withMgr hm).answer true

end Handlers

/-- Only the accepting worker is `SERVING_PROXY`, and it is registered as long as it is. -/
def Doorman (m : IOWorkerMgr) : Prop :=
  ∀ ix, m.roles.find? ix = some .servingProxy → ix = 0 ∧ m.Registered ix ∧ ix ∉ m.toErase

section Door

variable {m m' : IOWorkerMgr} {σ σ' : Server}

theorem Doorman.of_same (h : Doorman σ.workerMgr) (hs : SameSeats σ σ') : Doorman σ'.workerMgr := by
  intro jx hjx
  rw [hs.roles] at hjx
  obtain ⟨hzero, hreg, hstay⟩ := h jx hjx
  exact ⟨hzero, (hs.registered jx).mpr hreg, by rwa [hs.toErase]⟩

theorem Doorman.posted {out : List (Nat × SendJob)} (h : Doorman m)
    (hpost : IOWorkerMgr.Posted m m' out) : Doorman m' := by
  intro jx hjx
  rw [hpost.roles] at hjx
  obtain ⟨hzero, hreg, hstay⟩ := h jx hjx
  exact ⟨hzero, (hpost.registered jx).mpr hreg, by rwa [hpost.toErase]⟩

theorem Doorman.withRole (h : Doorman m) (ix : Nat) {role : WorkerStatus} (hne : role ≠ .servingProxy) :
    Doorman (m.withRole ix role) := by
  intro jx hjx
  rw [IOWorkerMgr.withRole, UnorderedMap.find?_insert] at hjx
  split at hjx
  · exact absurd (Option.some.inj hjx) hne
  · exact h jx hjx

/-- A worker that is handed to the cleaner has another role by then. -/
theorem Doorman.erased (h : Doorman m) (ix : Nat) :
    Doorman ((m.withRole ix .shutdown).eraseWorker ix) := by
  intro jx hjx
  rw [IOWorkerMgr.eraseWorker_roles] at hjx
  obtain ⟨hzero, hreg, hstay⟩ := h.withRole ix (by simp) jx hjx
  refine ⟨hzero, (registered_eraseWorker _ ix jx).mpr hreg, fun hmem => ?_⟩
  rcases IOWorkerMgr.mem_eraseWorker.mp hmem with hmem | rfl
  · exact hstay hmem
  · simp [IOWorkerMgr.withRole] at hjx

theorem Doorman.spawned (h : Doorman m) : Doorman (m.spawnNewWorker .servingUnknown) := by
  intro jx hjx
  rw [IOWorkerMgr.spawnNewWorker, UnorderedMap.find?_insert] at hjx
  split at hjx
  · cases hjx
  · obtain ⟨hzero, hreg, hstay⟩ := h jx hjx
    exact ⟨hzero, hreg.insert m.nextIx .empty, hstay⟩

theorem Doorman.cleared (h : Doorman m) : Doorman m.waitForClearing := by
  unfold IOWorkerMgr.waitForClearing
  split
  · exact h
  · intro jx hjx
    obtain ⟨hzero, hreg, hstay⟩ := h jx hjx
    refine ⟨hzero, ?_, List.not_mem_nil⟩
    rw [IOWorkerMgr.Registered, UnorderedMap.find?_foldl_erase, if_neg (by simpa using hstay)]
    exact hreg

theorem Doorman.effect {e : Call} {b : Bool} (h : Doorman σ.workerMgr) (he : Effect σ e b σ') :
    Doorman σ'.workerMgr := by
  -- no call gives out the role `SERVING_PROXY`, and who has it loses it when it goes
  cases he with
  | introParked | introLobby | trickParked | trickIgnored | timeoutIdle | wrongParked | exitRefused
  | exitDone | gate =>
      first
        | exact h
        | exact h.withRole _ (by simp)
  | introAgain side ix role mgr _ _ _ hpost => exact (h.withRole ix (by simp)).posted hpost
  | introBusy side ix jx mgr _ _ hpost => exact (h.withRole ix (by simp)).posted hpost
  | introFirstDeal side ix mgr out _ _ _ _ hpost => exact (h.withRole ix (by simp)).posted hpost
  | introRejoin side ix deal mgr out _ _ _ _ hpost => exact (h.withRole ix (by simp)).posted hpost
  | introResume side ix deal mgr out _ _ _ _ hpost => exact (h.withRole ix (by simp)).posted hpost
  | trickUnknown n card ix mgr _ _ hpost => exact (h.withRole ix (by simp)).posted hpost
  | trickProxy n card ix σ' _ _ hfin =>
      have hrole : Doorman (σ.workerMgr.withRole ix .cleanupUnknown) := h.withRole ix (by simp)
      exact Doorman.of_same (σ := { σ with workerMgr := σ.workerMgr.withRole ix .cleanupUnknown }) hrole
        hfin.sameSeats
  | trickRejected n card ix jx side mgr _ _ _ _ hpost => exact h.posted hpost
  | trickAccepted n card ix side σ' _ _ _ hacc => exact h.of_same hacc.sameSeats
  | timeoutKill ix mgr _ _ hpost => exact h.posted hpost
  | timeoutPrompt ix mgr _ _ _ _ hpost => exact h.posted hpost
  | wrongKill ix mgr _ hpost => exact h.posted hpost
  | exitInternal errs ix hasWork σ' _ hfin =>
      exact Doorman.of_same (σ := { σ with exitCode := 1 }) h hfin.sameSeats
  | exitUnknown errs ix => exact h.erased ix
  | exitLeave errs ix => exact h.withRole ix (by simp)
  | exitLeaveErased errs ix => exact h.erased ix
  | exitErased errs ix => exact h.erased ix
  | exitProxy errs ix hasWork σ' _ _ hfin => exact Doorman.of_same (h.erased ix) hfin.sameSeats
  | connected => exact h.spawned
  | popped ix q job rest _ _ =>
      intro jx hjx
      obtain ⟨hzero, hreg, hstay⟩ := h jx hjx
      exact ⟨hzero, hreg.insert ix _, hstay⟩
  | piped => exact h
  | cleared => exact h.cleared

theorem doorman_run {scenario : GameScenario} {timeout : Int} {es : List Call}
    (h : run scenario timeout es = some σ) : Doorman σ.workerMgr := by
  have hkept : ∀ σ e b σ', Doorman σ.workerMgr → Effect σ e b σ' → Doorman σ'.workerMgr :=
    fun _ _ _ _ hdoor heff => hdoor.effect heff
  refine run_invariant (fun r _ ix hix => ?_) hkept h
  simp only [started, IOWorkerMgr.spawnNewWorker, IOWorkerMgr.new, UnorderedMap.find?_insert,
    UnorderedMap.find?_empty] at hix ⊢
  split at hix
  · rename_i hzero
    exact ⟨hzero, by simp [IOWorkerMgr.Registered, hzero], List.not_mem_nil⟩
  · cases hix

end Door

/-- Whose event a call is: `forwardConnection` belongs to the worker that it brings.  The gate of
`execMutexed` does not name its caller, and the cleaner belongs to nobody. -/
def Call.connection (nextIx : Nat) : Call → Option Nat
  | .playerIntro _ ix => some ix
  | .playerTricked _ _ ix => some ix
  | .handleTimeout ix => some ix
  | .handleWrongMessage ix => some ix
  | .grandExitCallback _ ix _ => some ix
  | .execMutexed => none
  | .forwardConnection => some nextIx
  | .popNextJob ix => some ix
  | .handlePipe ix => some ix
  | .waitForClearing => none

/-- The same call with other indices. -/
def Call.rename (f : Nat → Nat) : Call → Call
  | .playerIntro side ix => .playerIntro side (f ix)
  | .playerTricked n card ix => .playerTricked n card (f ix)
  | .handleTimeout ix => .handleTimeout (f ix)
  | .handleWrongMessage ix => .handleWrongMessage (f ix)
  | .grandExitCallback errs ix hasWork => .grandExitCallback errs (f ix) hasWork
  | .popNextJob ix => .popNextJob (f ix)
  | .handlePipe ix => .handlePipe (f ix)
  | e => e

/-- A system call has failed on its way out. -/
def Call.Failed : Call → Prop
  | .grandExitCallback errs _ _ => .internal ∈ errs
  | _ => False

instance (e : Call) : Decidable e.Failed := by
  unfold Call.Failed
  split <;> infer_instance

section Steps

variable {keep : Nat → Bool} {σ σ' τ : Server}

/-- **A call of a kept worker**, or of none, is made in both runs, and answered in the same way. -/
theorem Alike.kept (h : Alike keep σ τ) (hdoor : Doorman σ.workerMgr) {e : Call} (hsafe : ¬ e.Failed)
    (hk : (e.connection σ.workerMgr.nextIx).all keep = true) :
    Lockstep (AlikeAnswer keep) (σ.handle e) (τ.handle (e.rename (rank keep))) := by
  have hproxy : ∀ ix, σ.workerMgr.roles.find? ix = some .servingProxy → σ.workerMgr.Registered ix :=
    fun ix hix => (hdoor ix hix).2.1
  cases e with
  | playerIntro side ix => exact h.playerIntro hk side
  | playerTricked n card ix => exact h.playerTricked hk (hproxy ix) n card
  | handleTimeout ix => exact Alike.andAnswer (h.handleTimeout hk) true
  | handleWrongMessage ix => exact h.handleWrongMessage hk
  | grandExitCallback errs ix hasWork => exact h.grandExitCallback hk (hproxy ix) hsafe hasWork
  | execMutexed =>
      refine .ok ⟨?_, h⟩
      show τ.execMutexed = σ.execMutexed
      rw [execMutexed, execMutexed, h.playersConnected, h.exiting]
  | forwardConnection => exact .ok ⟨rfl, h.withMgr (h.workerMgr.spawnNewWorker hk _)⟩
  | popNextJob ix =>
      exact (h.workerMgr.popNextJob hk).bind fun m m' _ hm => (h.withMgr hm).answer true
  | handlePipe ix => exact .ok ⟨rfl, h.withMgr (h.workerMgr.handlePipe hk)⟩
  | waitForClearing => exact .ok ⟨rfl, h.withMgr h.workerMgr.waitForClearing⟩

theorem Alike.withMgr_left (h : Alike keep σ τ) {m : IOWorkerMgr}
    (hm : IOWorkerMgr.Alike keep σ.exiting m τ.workerMgr) : Alike keep { σ with workerMgr := m } τ :=
  { h with workerMgr := hm }

section Dropped

variable {ix : Nat} {b : Bool}

theorem Alike.workerJob_left (h : Alike keep σ τ) (hk : keep ix = false) {msg : SendJob}
    (he : σ.sendJobs [(some ix, msg)] = .ok σ') : Alike keep σ' τ := by
  rw [Server.sendJobs, bind_eq_ok] at he
  obtain ⟨m, hm, he⟩ := he
  rw [List.foldlM_cons, bind_eq_ok] at hm
  obtain ⟨m₁, hm₁, hm⟩ := hm
  cases hm
  cases he
  exact h.withMgr_left (h.workerMgr.sendJob_left hk hm₁)

theorem Alike.shutDown_left (h : Alike keep σ τ) (hk : keep ix = false)
    (he : σ.shutDown ix = .ok σ') : Alike keep σ' τ := by
  rw [Server.shutDown, bind_eq_ok] at he
  obtain ⟨m, hm, he⟩ := he
  cases he
  exact h.withMgr_left ((h.workerMgr.setRole_left hk hm).eraseWorker_left hk)

/-- Who asks for a free side gets it. -/
theorem Effect.seated_of_intro {side : Side} (he : Effect σ (.playerIntro side ix) b σ')
    (hrole : σ.workerMgr.roles.find? ix = some .servingUnknown) (hfree : σ.activeSides side = none) :
    σ'.activeSides side = some ix := by
  cases he with
  | introParked _ _ role hrole' hne => exact absurd (Option.some.inj (hrole'.symm.trans hrole)) hne
  | introAgain _ _ role mgr hrole' hne => exact absurd (Option.some.inj (hrole'.symm.trans hrole)) hne
  | introBusy _ _ jx mgr _ hseat =>
      rw [hfree] at hseat
      cases hseat
  | introLobby | introFirstDeal | introRejoin | introResume => exact seated_activeSides_self σ side ix

/-- An `IAM` of another worker is not answered with a seat. -/
theorem Alike.playerIntro_left (h : Alike keep σ τ) (hk : keep ix = false) {side : Side}
    (he : σ.playerIntro side ix = .ok (b, σ')) (hseated : ∀ s, ∀ jx ∈ σ'.activeSides s, keep jx = true) :
    Alike keep σ' τ := by
  have heff : Effect σ (.playerIntro side ix) b σ' := playerIntro_effect he
  unfold Server.playerIntro at he
  obtain ⟨role, hrole, he⟩ := bind_eq_ok.mp he
  rw [IOWorkerMgr.getRole_eq_ok] at hrole
  by_cases hne : role ≠ .servingUnknown
  · rw [if_pos hne] at he
    by_cases hpc : σ.playersConnected < 4
    · rw [if_pos hpc] at he
      cases he
      exact h
    · rw [if_neg hpc] at he
      obtain ⟨m, hm, he⟩ := bind_eq_ok.mp he
      obtain ⟨m₁, hm₁, he⟩ := bind_eq_ok.mp he
      cases he
      exact h.withMgr_left ((h.workerMgr.sendKill_left hk hm).setRole_left hk hm₁)
  · rw [if_neg hne] at he
    rw [not_not] at hne
    subst hne
    cases hseat : σ.activeSides side with
    | none =>
        have hkeep := hseated side ix (heff.seated_of_intro hrole hseat)
        rw [hk] at hkeep
        cases hkeep
    | some jx =>
        rw [hseat] at he
        obtain ⟨m, hm, he⟩ := bind_eq_ok.mp he
        obtain ⟨σ₁, hσ₁, he⟩ := bind_eq_ok.mp he
        cases he
        exact (h.withMgr_left (h.workerMgr.setRole_left hk hm)).workerJob_left hk hσ₁

/-- A worker that is left out holds no seat and is not the accepting one. -/
theorem Alike.roles_left (h : Alike keep σ τ) (hbook : SeatBook σ) (hdoor : Doorman σ.workerMgr)
    (hzero : keep 0 = true) (hk : keep ix = false) :
    σ.workerMgr.roles.find? ix ≠ some .servingActive ∧
      σ.workerMgr.roles.find? ix ≠ some .servingProxy ∧ σ.zombieWorkerToSide.find? ix = none := by
  refine ⟨fun hrole => ?_, fun hrole => ?_, ?_⟩
  · obtain ⟨s, hs⟩ := hbook.active ix hrole
    have hkeep := h.seated s ix hs
    rw [hk] at hkeep
    cases hkeep
  · obtain ⟨rfl, -⟩ := hdoor ix hrole
    rw [hk] at hzero
    cases hzero
  · rw [Option.eq_none_iff_forall_ne_some]
    intro s hs
    have hkeep := h.ghosts ix s hs
    rw [hk] at hkeep
    cases hkeep

/-- A `TRICK` of another worker is not taken for a card. -/
theorem Alike.playerTricked_left (h : Alike keep σ τ) (hbook : SeatBook σ) (hdoor : Doorman σ.workerMgr)
    (hzero : keep 0 = true) (hk : keep ix = false) {n : Nat} {card : Card}
    (he : σ.playerTricked n card ix = .ok (b, σ')) : Alike keep σ' τ := by
  obtain ⟨hactive, hproxy, hghost⟩ := h.roles_left hbook hdoor hzero hk
  rw [Server.playerTricked] at he
  by_cases hpc : σ.playersConnected < 4
  · rw [if_pos hpc] at he
    cases he
    exact h
  rw [if_neg hpc] at he
  obtain ⟨role, hrole, he⟩ := bind_eq_ok.mp he
  rw [IOWorkerMgr.getRole_eq_ok] at hrole
  cases role with
  | servingUnknown =>
      obtain ⟨m, hm, he⟩ := bind_eq_ok.mp he
      obtain ⟨m₁, hm₁, he⟩ := bind_eq_ok.mp he
      cases he
      exact h.withMgr_left ((h.workerMgr.setRole_left hk hm).sendKill_left hk hm₁)
  | servingActive => exact absurd hrole hactive
  | servingProxy => exact absurd hrole hproxy
  | cleanup =>
      -- who has never had a seat is no zombie, and the lookup of its side fails
      obtain ⟨side, hside, -⟩ := bind_eq_ok.mp he
      rw [require_eq_ok, hghost] at hside
      cases hside
  | cleanupUnknown | shutdown =>
      cases he
      exact h

/-- Another worker is not prompted when it times out, at most killed. -/
theorem Alike.handleTimeout_left (h : Alike keep σ τ) (hbook : SeatBook σ) (hdoor : Doorman σ.workerMgr)
    (hzero : keep 0 = true) (hk : keep ix = false) (he : σ.handleTimeout ix = .ok σ') : Alike keep σ' τ := by
  rw [Server.handleTimeout] at he
  by_cases hexit : σ.exiting = true
  · rw [if_pos hexit] at he
    cases he
    exact h
  rw [if_neg hexit] at he
  obtain ⟨role, hrole, he⟩ := bind_eq_ok.mp he
  rw [IOWorkerMgr.getRole_eq_ok] at hrole
  cases role with
  | servingUnknown =>
      obtain ⟨m, hm, he⟩ := bind_eq_ok.mp he
      cases he
      exact h.withMgr_left (h.workerMgr.sendKill_left hk hm)
  | servingActive => exact absurd hrole (h.roles_left hbook hdoor hzero hk).1
  | servingProxy | cleanup | cleanupUnknown | shutdown =>
      cases he
      exact h

/-- Another worker gives up no seat when it leaves. -/
theorem Alike.grandExitCallback_left (h : Alike keep σ τ) (hbook : SeatBook σ) (hdoor : Doorman σ.workerMgr)
    (hzero : keep 0 = true) (hk : keep ix = false) {errs : List IOErrClass} (hno : .internal ∉ errs)
    {hasWork : Bool} (he : σ.grandExitCallback errs ix hasWork = .ok (b, σ')) : Alike keep σ' τ := by
  obtain ⟨hactive, hproxy, -⟩ := h.roles_left hbook hdoor hzero hk
  rw [Server.grandExitCallback, exitErrors_eq hno, ok_bind] at he
  obtain ⟨role, hrole, he⟩ := bind_eq_ok.mp he
  rw [IOWorkerMgr.getRole_eq_ok] at hrole
  cases role with
  | servingUnknown =>
      obtain ⟨σ₁, hσ₁, he⟩ := bind_eq_ok.mp he
      cases he
      exact h.shutDown_left hk hσ₁
  | servingActive => exact absurd hrole hactive
  | servingProxy => exact absurd hrole hproxy
  | cleanup | cleanupUnknown =>
      by_cases hnow : σ.playersConnected = 4 ∧ hasWork = false
      · simp only [if_pos hnow] at he
        obtain ⟨σ₁, hσ₁, he⟩ := bind_eq_ok.mp he
        cases he
        exact h.shutDown_left hk hσ₁
      · simp only [if_neg hnow] at he
        cases he
        exact h
  | shutdown =>
      cases he
      exact h

/-- **A call of another worker** leaves the second run as it is, unless the worker gets a seat. -/
theorem Alike.dropped (h : Alike keep σ τ) (hbook : SeatBook σ) (hdoor : Doorman σ.workerMgr)
    (hzero : keep 0 = true) {e : Call} (hsafe : ¬ e.Failed)
    (hk : (e.connection σ.workerMgr.nextIx).all keep = false) (he : σ.handle e = .ok (b, σ'))
    (hseated : ∀ s, ∀ jx ∈ σ'.activeSides s, keep jx = true) : Alike keep σ' τ := by
  cases e with
  | execMutexed | waitForClearing => cases hk
  | playerIntro side ix => exact h.playerIntro_left hk he hseated
  | playerTricked n card ix => exact h.playerTricked_left hbook hdoor hzero hk he
  | handleTimeout ix =>
      obtain ⟨σ₁, hσ₁, he⟩ := bind_eq_ok.mp he
      cases he
      exact h.handleTimeout_left hbook hdoor hzero hk hσ₁
  | handleWrongMessage ix =>
      rw [handle, Server.handleWrongMessage] at he
      by_cases hpark : σ.playersConnected < 4 ∧ σ.exiting = false
      · rw [if_pos hpark] at he
        cases he
        exact h
      · rw [if_neg hpark] at he
        obtain ⟨m, hm, he⟩ := bind_eq_ok.mp he
        cases he
        exact h.withMgr_left (h.workerMgr.sendKill_left hk hm)
  | grandExitCallback errs ix hasWork => exact h.grandExitCallback_left hbook hdoor hzero hk hsafe he
  | forwardConnection =>
      cases he
      exact h.withMgr_left (h.workerMgr.spawnNewWorker_left hk _)
  | popNextJob ix =>
      obtain ⟨m, hm, he⟩ := bind_eq_ok.mp he
      cases he
      exact h.withMgr_left (h.workerMgr.popNextJob_left hk hm)
  | handlePipe ix =>
      cases he
      exact h.withMgr_left (h.workerMgr.handlePipe_left hk)

end Dropped

end Steps

/-- The workers on the four sides after each call. -/
def sitters : GameScenario → Int → List Call → List Nat :=
  runRecord fun _ _ σ' => Side.sides_.filterMap σ'.activeSides

/-- Worker `ix` accepts the connections, or has had a seat in the run. -/
def everSeated (scenario : GameScenario) (timeout : Int) (es : List Call) (ix : Nat) : Bool :=
  decide (ix = 0 ∨ ix ∈ sitters scenario timeout es)

/-- The run without the calls of the workers that are not in `keep`, under the indices without them. -/
def keptCalls (keep : Nat → Bool) : GameScenario → Int → List Call → List Call :=
  runRecord fun σ e _ =>
    if (e.connection σ.workerMgr.nextIx).all keep then [e.rename (rank keep)] else []

/-- The answer of a call. -/
def answer (σ : Server) (e : Call) : List Bool :=
  match σ.handle e with
  | .ok (b, _) => [b]
  | .error _ => []

/-- The answers to the calls of the workers in `keep`. -/
def keptAnswers (keep : Nat → Bool) : GameScenario → Int → List Call → List Bool :=
  runRecord fun σ e _ => if (e.connection σ.workerMgr.nextIx).all keep then σ.answer e else []

section Runs

variable {scenario : GameScenario} {timeout : Int} {keep : Nat → Bool}

/-- At the start there is the accepting worker alone. -/
theorem alike_started (hzero : keep 0 = true) (r : Round) :
    Alike keep (started scenario timeout r) (started scenario timeout r) := by
  have hnone : rank keep 0 = 0 := by simp [rank]
  have hinit : IOWorkerMgr.Alike keep false IOWorkerMgr.new IOWorkerMgr.new := by
    refine ⟨hnone.symm, ?_, ?_, ?_, ?_, ?_, ?_, ?_, ?_, ?_, ?_, ?_, ?_, ?_⟩ <;>
      simp [IOWorkerMgr.new, IOWorkerMgr.unread, IOWorkerMgr.Registered]
  have hspawned := hinit.spawnNewWorker hzero .servingProxy
  exact {
    gameScenario := rfl
    game := rfl
    exitCode := rfl
    playersConnected := rfl
    lastDeal := rfl
    exiting := rfl
    timeout := rfl
    seats := fun _ => rfl
    seated := fun s ix hix => by cases hix
    workerToSide := fun _ _ => rfl
    zombieWorkerToSide := fun _ _ => rfl
    ghosts := fun ix s hs => by cases hs
    workerMgr := hspawned }

/-- **Two runs side by side.** -/
theorem alike_run (hzero : keep 0 = true) {es : List Call} {σ : Server}
    (h : run scenario timeout es = some σ) :
    (∀ ix ∈ sitters scenario timeout es, keep ix = true) → (∀ e ∈ es, ¬ e.Failed) →
      ∃ τ, run scenario timeout (keptCalls keep scenario timeout es) = some τ ∧ Alike keep σ τ ∧
        runRecord (fun σ e _ => σ.answer e) scenario timeout (keptCalls keep scenario timeout es) =
          keptAnswers keep scenario timeout es := by
  refine run_induction (P := fun es σ => (∀ ix ∈ sitters scenario timeout es, keep ix = true) →
    (∀ e ∈ es, ¬ e.Failed) → ∃ τ, run scenario timeout (keptCalls keep scenario timeout es) = some τ ∧
      Alike keep σ τ ∧ runRecord (fun σ e _ => σ.answer e) scenario timeout
        (keptCalls keep scenario timeout es) = keptAnswers keep scenario timeout es)
    (fun r hr _ _ => ?_) (fun es σ e b σ' hrun hrun' ih heff hsit hsafe => ?_) h
  · have hrun : run scenario timeout [] = some (started scenario timeout r) := by
      cases scenario with
      | nil => cases hr
      | cons r' rounds =>
          obtain rfl : r' = r := Option.some.inj hr
          exact run_eq_some.mpr ⟨_, start_cons r' rounds timeout, rfl⟩
    refine ⟨started scenario timeout r, ?_, alike_started hzero r, ?_⟩
    · rwa [keptCalls, runRecord_nil]
    · rw [keptCalls, runRecord_nil, keptAnswers, runRecord_nil, runRecord_nil]
  · rw [sitters, runRecord_concat _ hrun hrun', List.forall_mem_append] at hsit
    rw [List.forall_mem_append, List.forall_mem_singleton] at hsafe
    obtain ⟨τ, hτ, halike, hanswers⟩ := ih hsit.1 hsafe.1
    obtain ⟨b, he⟩ := step_eq_some.mp (run_concat hrun hrun')
    have hdoor := doorman_run hrun
    have hcalls := runRecord_concat (fun σ e _ =>
      if (e.connection σ.workerMgr.nextIx).all keep then [e.rename (rank keep)] else []) hrun hrun'
    have hasked := runRecord_concat (fun σ e _ =>
      if (e.connection σ.workerMgr.nextIx).all keep then σ.answer e else []) hrun hrun'
    cases hk : (e.connection σ.workerMgr.nextIx).all keep with
    | true =>
        -- a kept call is made in both, with the same answer
        obtain ⟨⟨b', τ'⟩, hτ', rfl, halike'⟩ := halike.kept hdoor hsafe.2 hk _ he
        rw [hk, if_pos rfl] at hcalls hasked
        have hlast := run_handle hτ hτ'
        have hheard := runRecord_concat (fun σ e _ => σ.answer e) hτ hlast
        rw [keptCalls, hcalls, keptAnswers, hasked]
        refine ⟨τ', hlast, halike', hheard.trans ?_⟩
        rw [hanswers, answer, answer, he, hτ']
        rfl
    | false =>
        -- a call that is left out seats nobody
        have hseated : ∀ s, ∀ jx ∈ σ'.activeSides s, keep jx = true := fun s jx hjx =>
          hsit.2 jx (List.mem_filterMap.mpr ⟨s, Side.mem_sides_ s, hjx⟩)
        have halike' := halike.dropped (seatBook_run hrun) hdoor hzero hsafe.2 hk he hseated
        rw [hk, if_neg (by simp), List.append_nil] at hcalls hasked
        rw [keptCalls, hcalls, keptAnswers, hasked]
        exact ⟨τ, hτ, halike', hanswers⟩

/-- What a run puts on record begins with the record of each of its first parts. -/
theorem runRecord_append {β : Type} (f : Server → Call → Server → List β) {es es' : List Call}
    {σ : Server} (h : run scenario timeout es = some σ) :
    runRecord f scenario timeout es <+: runRecord f scenario timeout (es ++ es') := by
  obtain ⟨σ₀, h₀, hes⟩ := run_eq_some.mp h
  simp only [runRecord, h₀, Execution.record_append f hes es']
  exact List.prefix_append _ _

/-- **Connections without a seat change nothing.**  In a run without a failed system call, leave out
every call of the connections that have no seat at any time, and number the workers that are left anew:
these are the calls of a run.  After each part of the run, game, seats and the messages to the workers
with a seat are what they are without the others, and so are their roles, jobs and pipes (`Alike`) and the
answers they have had. -/
theorem seatless_unnoticed {es : List Call} {σ : Server} (h : run scenario timeout es = some σ)
    (hsafe : ∀ e ∈ es, ¬ e.Failed) {es₁ : List Call} (hpre : es₁ <+: es) :
    ∃ σ₁ τ₁, run scenario timeout es₁ = some σ₁ ∧
      run scenario timeout (keptCalls (everSeated scenario timeout es) scenario timeout es₁) = some τ₁ ∧
      keptCalls (everSeated scenario timeout es) scenario timeout es₁ <+:
        keptCalls (everSeated scenario timeout es) scenario timeout es ∧
      τ₁.game = σ₁.game ∧
      (∀ s, τ₁.activeSides s = (σ₁.activeSides s).map (rank (everSeated scenario timeout es))) ∧
      τ₁.workerMgr.sent = (σ₁.workerMgr.sent.filter fun p => everSeated scenario timeout es p.1).map
        (fun p => (rank (everSeated scenario timeout es) p.1, p.2)) ∧
      Alike (everSeated scenario timeout es) σ₁ τ₁ ∧
      runRecord (fun σ e _ => σ.answer e) scenario timeout
          (keptCalls (everSeated scenario timeout es) scenario timeout es₁) =
        keptAnswers (everSeated scenario timeout es) scenario timeout es₁ := by
  obtain ⟨es₂, rfl⟩ := hpre
  obtain ⟨σ₀, h₀, hes⟩ := run_eq_some.mp h
  rw [Execution.exec_append, Option.bind_eq_some_iff] at hes
  obtain ⟨σ₁, hes₁, -⟩ := hes
  have h₁ : run scenario timeout es₁ = some σ₁ := run_eq_some.mpr ⟨σ₀, h₀, hes₁⟩
  have hsit : ∀ ix ∈ sitters scenario timeout es₁, everSeated scenario timeout (es₁ ++ es₂) ix = true := by
    intro ix hix
    have hfirst : sitters scenario timeout es₁ <+: sitters scenario timeout (es₁ ++ es₂) :=
      runRecord_append _ h₁
    exact decide_eq_true (.inr (hfirst.subset hix))
  obtain ⟨τ₁, hτ₁, halike, hanswers⟩ := alike_run (by simp [everSeated]) h₁ hsit
    fun e he => hsafe e (List.mem_append_left es₂ he)
  exact ⟨σ₁, τ₁, h₁, hτ₁, runRecord_append _ h₁, halike.game, halike.seats, halike.workerMgr.sent, halike,
    hanswers⟩

end Runs

/-- Four players, and a fifth connection that asks for the seat of `N`, plays out of turn, sends garbage
and leaves. -/
def fifthPlayer : List Call :=
  [.forwardConnection, .playerIntro .N 1, .forwardConnection, .playerIntro .N 2, .forwardConnection,
    .playerIntro .E 3, .playerTricked 1 ⟨.v2, .colorC⟩ 2, .forwardConnection, .playerIntro .S 4,
    .popNextJob 2, .forwardConnection, .playerIntro .W 5, .playerTricked 1 ⟨.v2, .colorC⟩ 2,
    .handleWrongMessage 2, .playerTricked 1 ⟨.v2, .colorC⟩ 1, .grandExitCallback [.external] 2 false,
    .waitForClearing, .playerTricked 1 ⟨.v2, .colorD⟩ 3]

/-- Without it the others have the numbers from 1 to 4. -/
theorem seatless_unnoticed_fifthPlayer :
    ∃ σ τ, run [suitRound] 5 fifthPlayer = some σ ∧
      run [suitRound] 5 [.forwardConnection, .playerIntro .N 1, .forwardConnection, .playerIntro .E 2,
        .forwardConnection, .playerIntro .S 3, .forwardConnection, .playerIntro .W 4,
        .playerTricked 1 ⟨.v2, .colorC⟩ 1, .waitForClearing, .playerTricked 1 ⟨.v2, .colorD⟩ 2] = some τ ∧
      τ.game = σ.game := by
  have hsome : (run [suitRound] 5 fifthPlayer).isSome := by decide +kernel
  obtain ⟨σ, hσ⟩ := Option.isSome_iff_exists.mp hsome
  have hcalls : keptCalls (everSeated [suitRound] 5 fifthPlayer) [suitRound] 5 fifthPlayer =
      [.forwardConnection, .playerIntro .N 1, .forwardConnection, .playerIntro .E 2,
        .forwardConnection, .playerIntro .S 3, .forwardConnection, .playerIntro .W 4,
        .playerTricked 1 ⟨.v2, .colorC⟩ 1, .waitForClearing, .playerTricked 1 ⟨.v2, .colorD⟩ 2] := by
    decide +kernel
  obtain ⟨σ₁, τ₁, hσ₁, hτ₁, -, hgame, -⟩ := seatless_unnoticed hσ (by decide) (List.prefix_refl _)
  rw [hcalls] at hτ₁
  exact ⟨σ₁, τ₁, hσ₁, hτ₁, hgame⟩

end Server

end Kierki
