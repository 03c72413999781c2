import Kierki.Server.Exit

/-!
# The end of the server

`finalize` gives a kill order to every worker there is.  Whether the server can end depends on the
workers that come after it (`LateConnection`) and on the exits of those it has ordered to go.
-/

namespace Kierki

open Execution

namespace Server

open IOWorkerMgr

/-- Every worker that does not wait for the cleaner has its kill order. -/
def AllKilled (σ : Server) : Prop :=
  ∀ ix, σ.workerMgr.Registered ix → ix ∉ σ.workerMgr.toErase → σ.workerMgr.Killed ix

theorem Finalized.allKilled {σ σ' : Server} (h : Finalized σ σ') (hexit : σ.exiting = false) :
    AllKilled σ' := by
  cases h with
  | again hexit' => simp [hexit] at hexit'
  | now _ mgr hpost hkill => exact fun ix hreg hwait => (hkill ix hreg hwait).1

/-- The call that sets `exiting` gives the order to everybody. -/
theorem Effect.allKilled {σ σ' : Server} {e : Call} {b : Bool} (h : Effect σ e b σ')
    (hexit : σ.exiting = false) (hexit' : σ'.exiting = true) : AllKilled σ' := by
  have hsame : ∀ {τ : Server}, τ.exiting = σ.exiting → τ.exiting ≠ true := by
    intro τ heq htrue
    simp [heq, hexit] at htrue
  cases h with
  | trickProxy n card ix σ' _ _ hfin => exact hfin.allKilled hexit
  | exitInternal errs ix hasWork σ' _ hfin => exact hfin.allKilled hexit
  | exitProxy errs ix hasWork σ' _ _ hfin => exact hfin.allKilled hexit
  | trickAccepted n card ix side σ' _ _ _ hacc =>
      cases hacc with
      | gameDone g₀ g₁ g mgr out σ' _ _ _ _ _ _ _ _ hfin => exact hfin.allKilled hexit
      | _ => exact absurd hexit' (hsame rfl)
  | _ => exact absurd hexit' (hsame rfl)

/-- While the server is exiting, the orders stay, as long as nobody comes. -/
theorem AllKilled.effect {σ σ' : Server} {e : Call} {b : Bool} (h : AllKilled σ)
    (he : Effect σ e b σ') (hbound : ∀ ix, σ.workerMgr.Registered ix → ix < σ.workerMgr.nextIx)
    (hlate : e ≠ .forwardConnection) : AllKilled σ' := by
  intro ix hreg' hwait'
  have hnot : ¬ HandedOver σ ix := by
    intro hover
    rcases he.handedOver (fun hnew => absurd hnew hlate) hover with hwait | hgone
    · exact hwait' hwait
    · exact hgone hreg'
  obtain ⟨hwait, hreg⟩ : ix ∉ σ.workerMgr.toErase ∧ σ.workerMgr.Registered ix := by
    simpa [HandedOver, not_or] using hnot
  have hgone : ix ∉ σ.gone e := by
    unfold gone
    split
    · exact hwait
    · exact List.not_mem_nil
  have hordered := he.keeps.ordered ix (hbound ix hreg) hgone (ordered_iff.mpr ⟨hreg, h ix hreg hwait⟩)
  exact (ordered_iff.mp hordered).2

end Server

namespace System

open IOWorker

/-- A connection is accepted while the server is exiting. -/
def LateConnection (S : System) (ev : Event) : Prop :=
  S.server.exiting = true ∧ S.callOf ev = some .forwardConnection

instance (S : System) (ev : Event) : Decidable (LateConnection S ev) := by
  unfold LateConnection
  infer_instance

/-- **Shutdown reaches every worker.**  In a run in which no connection is accepted once the server is
exiting, every worker that does not wait for the cleaner has its kill order from then on. -/
theorem killed_of_guarded {scenario : GameScenario} {timeout tcpListenSock : Int} {evs : List Event}
    {S₀ S : System} (h₀ : start scenario timeout tcpListenSock = .ok S₀)
    (hevs : exec step S₀ evs = some S) (hguard : Guarded step (fun S ev => ¬ LateConnection S ev) S₀ evs)
    (hexit : S.server.exiting = true) :
    ∀ ix, S.server.workerMgr.Registered ix → ix ∉ S.server.workerMgr.toErase →
      S.server.workerMgr.Killed ix := by
  refine guarded_invariant (I := fun S => S.server.exiting = true → Server.AllKilled S.server)
    h₀ hevs hguard ?_ ?_ hexit
  · intro hexit₀
    obtain ⟨hserver, -⟩ := start_eq_ok h₀
    obtain ⟨r, -, hstarted⟩ := Server.start_eq_ok hserver
    rw [hstarted] at hexit₀
    cases hexit₀
  · intro S ev S' hcrew hbook ih hlate hstep hexit'
    rcases (step_turn hstep).effect with hsame | ⟨e, b, hcall, heff⟩
    · rw [hsame] at hexit' ⊢
      exact ih hexit'
    -- either this very turn gives the orders, or they were given before and nobody has come
    cases hexit : S.server.exiting with
    | false => exact heff.allKilled hexit hexit'
    | true =>
        refine (ih hexit).effect heff hcrew.bounded fun hnew => hlate ⟨hexit, ?_⟩
        rw [hcall, hnew]

/-- The turns of a thread between two looks at its socket, when there is nothing to do. -/
def idleRound (ix : Nat) : List Event :=
  [.worker ix .go false, .worker ix .go false, .worker ix .go false, .worker ix .go false,
    .worker ix .go false, .worker ix .pollReady false, .worker ix .pipeEmpty false]

/-- A connection is accepted; the accepting thread is about to look for the next one when the first
one's thread cannot read its pipe, which ends the server. -/
def interrupted : List Event :=
  [.worker 0 (.fcntl false false) false, .worker 0 .pollReady false, .worker 0 .pipeEmpty false,
    .worker 0 (.accepted 11) false] ++ idleRound 0 ++
  [.worker 1 (.fcntl false false) false, .worker 1 .pollReady false, .worker 1 .pipeFailed false,
    .worker 1 .go false]

theorem killed_of_guarded_interrupted :
    ∃ S, exec step (started [suitRound] 5 3 suitRound) interrupted = some S ∧
      S.server.workerMgr.Registered 0 ∧ S.server.workerMgr.Killed 0 := by
  have hfacts : (exec step (started [suitRound] 5 3 suitRound) interrupted).map (fun S =>
      (S.server.exiting, (S.server.workerMgr.workers.find? 0).isSome, S.server.workerMgr.toErase)) =
      some (true, true, []) := by decide +kernel
  obtain ⟨S, hS, heq⟩ := Option.map_eq_some_iff.mp hfacts
  obtain ⟨hexit, hrest⟩ := Prod.mk.inj heq
  obtain ⟨hreg, hwait⟩ := Prod.mk.inj hrest
  refine ⟨S, hS, hreg, ?_⟩
  exact killed_of_guarded (start_cons suitRound [] 5 3) hS (by decide +kernel) hexit 0 hreg
    (by rw [hwait]; exact List.not_mem_nil)

/-- The connection that is accepted after that gets a worker without a kill order. -/
theorem not_killed_lateConnection :
    ∃ S, run [suitRound] 5 3 (interrupted ++ [.worker 0 (.accepted 12) false]) = some S ∧
      S.server.exiting = true ∧ S.server.workerMgr.Registered 2 ∧ 2 ∉ S.server.workerMgr.toErase ∧
      ¬ S.server.workerMgr.Killed 2 := by
  have hfacts : (run [suitRound] 5 3 (interrupted ++ [.worker 0 (.accepted 12) false])).map (fun S =>
      (S.server.exiting, S.server.workerMgr.toErase,
        (S.server.workerMgr.workers.find? 2).map JobQueue.killFlag)) =
      some (true, [], some false) := by decide +kernel
  obtain ⟨S, hS, heq⟩ := Option.map_eq_some_iff.mp hfacts
  obtain ⟨hexit, hrest⟩ := Prod.mk.inj heq
  obtain ⟨hwait, hqueue⟩ := Prod.mk.inj hrest
  obtain ⟨q, hq, hflag⟩ := Option.map_eq_some_iff.mp hqueue
  refine ⟨S, hS, hexit, by simp [IOWorkerMgr.Registered, hq], by simp [hwait], fun hkill => ?_⟩
  simp [hkill q hq] at hflag

/-- **The exit after a kill order.**  A thread at the end of its turn, whose worker was not handed over
yet, is let go and its worker handed over just when the exit is granted. -/
theorem exit_turn {scenario : GameScenario} {timeout tcpListenSock : Int} {evs : List Event}
    {S : System} (h : run scenario timeout tcpListenSock evs = some S) {ix : Nat} {w : IOWorker}
    (hw : S.threads ix = some w) (hleave : w.stage = .leave) (hquit : w.wantToToQuit = true)
    (a : Answer) (closeFails : Bool) :
    ∃ S' w', S.step (.worker ix a closeFails) = some S' ∧ S'.threads ix = some w' ∧
      (w'.stage = .last ∧ ix ∈ S'.server.workerMgr.toErase ↔
        S.server.ExitGranted w.errs ix w.hasWork) := by
  have hcrew := crewed_run h
  have hknown := hcrew.known ix w hw
  obtain ⟨b, σ', hexit⟩ := (seatBook_run h).exit_ok (hcrew.staffed ix hknown) w.errs w.hasWork
  have hact : S.action ix a closeFails = some (w.exit ix (w.goto .deadline)) := by
    rw [action, hw, Option.bind_some, turn, hleave]
    simp [turnLeave, hquit]
  have hhandle : S.server.handle (.grandExitCallback w.errs ix w.hasWork) = .ok (b, σ') := hexit
  refine ⟨{ S with server := σ' }.setThread ix
    (if b then { w with terminate := true }.goto .last else w.goto .deadline), _, ?_,
    setThread_self _ _ _, ?_⟩
  · simp only [step, hact, exit, call, hhandle]
  show _ ∧ ix ∈ σ'.workerMgr.toErase ↔ _
  obtain ⟨hreg, hwait⟩ := hcrew.present ix w hw (by simp [Looping, hleave])
  have heff := Server.grandExitCallback_effect hexit
  have hreg' := heff.registered hreg hknown hwait
  rw [← heff.exit (hcrew.retired ix)]
  constructor
  · rintro ⟨-, hmem⟩
    exact ⟨.inl hmem, (heff.exit_shutdown hmem).resolve_left hwait⟩
  · rintro ⟨hover, -⟩
    have hmem : ix ∈ σ'.workerMgr.toErase := hover.resolve_right fun hgone => hgone hreg'
    refine ⟨?_, hmem⟩
    -- the only way to the cleaner is an exit that is answered with yes
    rcases heff.toErase hmem with hmem | ⟨errs, hasWork, -, rfl⟩
    · exact absurd hmem hwait
    · rfl

/-- **Shutdown completes for exactly these workers.**  While the server is exiting, a worker that is
still there and wants to quit is let go and handed over to the cleaner just when its errors contain no
internal one and it has never had a seat and was not refused, or it has a seat and no work left, or it
had a seat or was refused and has no work left while four players are connected. -/
theorem exit_exiting {scenario : GameScenario} {timeout tcpListenSock : Int} {evs : List Event}
    {S : System} (h : run scenario timeout tcpListenSock evs = some S)
    (hexit : S.server.exiting = true) {ix : Nat} {w : IOWorker} (hw : S.threads ix = some w)
    (hleave : w.stage = .leave) (hquit : w.wantToToQuit = true) (a : Answer) (closeFails : Bool) :
    ∃ S' w', S.step (.worker ix a closeFails) = some S' ∧ S'.threads ix = some w' ∧
      (w'.stage = .last ∧ ix ∈ S'.server.workerMgr.toErase ↔
        .internal ∉ w.errs ∧ ∃ role, S.server.workerMgr.roles.find? ix = some role ∧
          (role = .servingUnknown ∨ role = .servingProxy ∨
            role = .servingActive ∧ w.hasWork = false ∨
            (role = .cleanup ∨ role = .cleanupUnknown) ∧ w.hasWork = false ∧
              S.server.playersConnected = 4)) := by
  obtain ⟨S', w', hstep, hw', hiff⟩ := exit_turn h hw hleave hquit a closeFails
  refine ⟨S', w', hstep, hw', hiff.trans ?_⟩
  have hcrew := crewed_run h
  obtain ⟨role, hrole⟩ := Option.isSome_iff_exists.mp (hcrew.staffed ix (hcrew.known ix w hw))
  have hthere : role ≠ .shutdown := by
    rintro rfl
    obtain ⟨hreg, hwait⟩ := hcrew.present ix w hw (by simp [Looping, hleave])
    exact (hcrew.retired ix hrole).elim hwait fun hgone => hgone hreg
  cases role <;> simp_all [Server.ExitGranted]

/-- Turns in which nothing is asked of the system. -/
def goes (ix n : Nat) : List Event := List.replicate n (.worker ix .go false)

/-- A connection is accepted, and then `poll` fails for the accepting thread, which ends the server. -/
def serverFails : List Event :=
  [.worker 0 .pollFailed false, .worker 0 .go false]

/-- The thread of worker 0 accepts a connection and goes back to `poll`. -/
def oneAccepted : List Event :=
  [.worker 0 (.fcntl false false) false, .worker 0 .pollReady false, .worker 0 .pipeEmpty false,
    .worker 0 (.accepted 11) false] ++ goes 0 5

/-- The thread of worker 1 is woken by its kill order and comes to its exit. -/
def obeys : List Event :=
  oneAccepted ++ serverFails ++
    [.worker 1 (.fcntl false false) false, .worker 1 .pollReady false, .worker 1 .pipeEmpty false,
      .worker 1 .recvBlocked false] ++ goes 1 8

theorem exit_exiting_obeys :
    ∃ S S' w', run [suitRound] 5 3 obeys = some S ∧ S.step (.worker 1 .go false) = some S' ∧
      S'.threads 1 = some w' ∧ w'.stage = .last ∧ 1 ∈ S'.server.workerMgr.toErase := by
  have hfacts : (run [suitRound] 5 3 obeys).bind (fun S => (S.threads 1).map fun w =>
      (S.server.exiting, w.stage, w.wantToToQuit, w.errs, S.server.workerMgr.roles.find? 1)) =
      some (true, .leave, true, [], some .servingUnknown) := by decide +kernel
  obtain ⟨S, hS, hthread⟩ := Option.bind_eq_some_iff.mp hfacts
  obtain ⟨w, hw, heq⟩ := Option.map_eq_some_iff.mp hthread
  simp only [Prod.mk.injEq] at heq
  obtain ⟨hexit, hleave, hquit, herrs, hrole⟩ := heq
  obtain ⟨S', w', hstep, hw', hiff⟩ := exit_exiting hS hexit hw hleave hquit .go false
  obtain ⟨hlast, hmem⟩ := hiff.mpr ⟨by simp [herrs], .servingUnknown, hrole, .inl rfl⟩
  exact ⟨S, S', w', hS, hstep, hw', hlast, hmem⟩

/-- Worker 1 sits down on `N` and its player leaves before anybody else has come, so that its exit is put
off; then the server ends, and worker 1 comes to its exit again. -/
def leavesLobby : List Event :=
  oneAccepted ++ [.worker 1 (.fcntl false false) false, .worker 1 .pollReady false,
    .worker 1 .pipeEmpty false] ++
  "IAMN\r\n".toList.map (fun c => .worker 1 (.recv c) false) ++ goes 1 8 ++
  [.worker 1 .pollReady false, .worker 1 .pipeEmpty false, .worker 1 .recvEnd false] ++ goes 1 6 ++
  serverFails ++ [.worker 1 .pollReady false, .worker 1 .pipeEmpty false] ++ goes 1 5

/-- While the server is exiting and after its kill order, worker 1 is not let go. -/
theorem not_exit_leavesLobby :
    ∃ S w S' w', run [suitRound] 5 3 leavesLobby = some S ∧ S.server.exiting = true ∧
      S.threads 1 = some w ∧ w.stage = .leave ∧ w.wantToToQuit = true ∧
      S.server.workerMgr.Killed 1 ∧ S.step (.worker 1 .go false) = some S' ∧
      S'.threads 1 = some w' ∧ w'.stage = .deadline ∧ 1 ∉ S'.server.workerMgr.toErase := by
  have hfacts : (run [suitRound] 5 3 leavesLobby).bind (fun S => (S.threads 1).bind fun w =>
      (S.step (.worker 1 .go false)).bind fun S' => (S'.threads 1).map fun w' =>
        ((S.server.exiting, w.stage, w.wantToToQuit,
          (S.server.workerMgr.workers.find? 1).map JobQueue.killFlag),
          w'.stage, S'.server.workerMgr.toErase)) =
      some ((true, .leave, true, some true), .deadline, []) := by decide +kernel
  obtain ⟨S, hS, hthread⟩ := Option.bind_eq_some_iff.mp hfacts
  obtain ⟨w, hw, hnext⟩ := Option.bind_eq_some_iff.mp hthread
  obtain ⟨S', hstep, hthread'⟩ := Option.bind_eq_some_iff.mp hnext
  obtain ⟨w', hw', heq⟩ := Option.map_eq_some_iff.mp hthread'
  simp only [Prod.mk.injEq] at heq
  obtain ⟨⟨hexit, hleave, hquit, hflag⟩, hdeadline, hwait⟩ := heq
  refine ⟨S, w, S', w', hS, hexit, hw, hleave, hquit, fun q hq => ?_, hstep, hw', hdeadline, by simp [hwait]⟩
  rw [hq] at hflag
  exact Option.some.inj hflag

end System

end Kierki
