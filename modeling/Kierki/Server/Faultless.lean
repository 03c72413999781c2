import Kierki.Server.Intake
import Kierki.Server.Progress
import Kierki.Server.Wakeup

/-!
# No call ends the process

A handler throws when it looks up a worker that was collected, the role of a worker that was never there, the side
of a worker that has none, or a round behind the last one.  No thread makes such a call, as long as nobody who has a
seat says `IAM` again while four players are connected.

The delicate role is `CLEANUP`: a card that comes from such a worker is looked up in `zombieWorkerToSide`.  A worker
that has left its seat is in there, but its thread is silent.  A worker that was refused a seat and asks again gets
the same role, and is not in there; its thread has a kill order then, and obeys it before it reads from its socket
once more (`Condemned`).
-/

namespace Kierki

open Execution Fallible

namespace Server

open IOWorkerMgr

section Calls

variable {σ : Server} {ix : Nat} {f : Fault}

/-- A worker that is registered can be given its kill order, whatever becomes of its role. -/
theorem kill_ok {m : IOWorkerMgr} (hreg : m.Registered ix) (hrole : (m.roles.find? ix).isSome) (role : WorkerStatus) :
    ∃ m₁ m₂, m.sendKill ix = .ok m₁ ∧ m₁.setRole ix role = .ok m₂ := by
  obtain ⟨m₁, hm₁⟩ := sendKill_ok hreg
  obtain ⟨-, hpost, -⟩ := sendKill_eq_ok hm₁
  refine ⟨m₁, _, hm₁, setRole_eq_ok.mpr ⟨?_, rfl⟩⟩
  rwa [hpost.roles]

theorem handleTimeout_ok (hbook : SeatBook σ) (hreg : σ.workerMgr.Registered ix)
    (hrole : (σ.workerMgr.roles.find? ix).isSome) : ∃ σ', σ.handleTimeout ix = .ok σ' := by
  obtain ⟨role, hfind⟩ := Option.isSome_iff_exists.mp hrole
  unfold handleTimeout
  split
  · exact ⟨_, rfl⟩
  rw [getRole_eq_ok.mpr hfind, ok_bind]
  cases role with
  | servingUnknown =>
      obtain ⟨m, hm⟩ := sendKill_ok hreg
      exact ⟨_, by rw [hm]; rfl⟩
  | servingActive =>
      obtain ⟨s, hs⟩ := hbook.active ix hfind
      have hside := require_eq_ok (e := Fault.noSide).mpr (hbook.seat s ix hs).1
      simp only [hside, ok_bind]
      split
      · exact ⟨_, rfl⟩
      split
      · exact ⟨_, rfl⟩
      -- the worker is there to be prompted
      cases hsend : σ.sendJobs [(some ix, σ.game.msgTrick)] with
      | ok σ' => exact ⟨σ', rfl⟩
      | error f =>
          obtain rfl := sendJobs_error hsend
          exact absurd hsend (sendJobs_registered_ne hreg (by simp) _)
  | servingProxy | cleanup | cleanupUnknown | shutdown => exact ⟨_, rfl⟩

theorem handleWrongMessage_ok (hreg : σ.workerMgr.Registered ix) :
    ∃ b σ', σ.handleWrongMessage ix = .ok (b, σ') := by
  unfold handleWrongMessage
  split
  · exact ⟨_, _, rfl⟩
  · obtain ⟨m, hm⟩ := sendKill_ok hreg
    exact ⟨_, _, by rw [hm]; rfl⟩

/-- A thread takes a job that is there. -/
theorem popNextJob_ok {job : SendJob} {rest : List SendJob}
    (hjobs : (IOWorker.jobQueue σ ix).jobsPending = job :: rest) :
    ∃ m, σ.workerMgr.popNextJob ix = .ok m := by
  unfold IOWorker.jobQueue at hjobs
  cases hq : σ.workerMgr.workers.find? ix with
  | none =>
      rw [hq] at hjobs
      cases hjobs
  | some q =>
      rw [hq] at hjobs
      have hpop : q.popNextJob = .ok (job, { q with jobsPending := rest }) := by
        have hpending : q.jobsPending = job :: rest := hjobs
        simp [JobQueue.popNextJob, hpending]
      exact ⟨_, by simp only [popNextJob, hq, require, ok_bind, hpop]; rfl⟩

/-- When a player sits down, a message can only miss its addressee. -/
theorem firstDeal_error (h : σ.firstDeal = .error f) : f = .sendJobTarget := by
  unfold firstDeal at h
  rcases bind_eq_error.mp h with h | ⟨σ₁, -, h⟩ <;> exact sendJobs_error h

theorem rejoin_error {side : Side} {deal : TableState} (h : σ.rejoin side ix deal = .error f) :
    f = .sendJobTarget := by
  unfold rejoin at h
  rcases bind_eq_error.mp h with h | ⟨σ₁, -, h⟩
  · exact sendJobs_error h
  rcases bind_eq_error.mp h with h | ⟨σ₂, -, h⟩
  · exact sendJobs_error h
  split at h
  · exact sendJobs_error h
  · cases h

theorem playerIntro_error {side : Side} (hreg : σ.workerMgr.Registered ix)
    (hrole : (σ.workerMgr.roles.find? ix).isSome) (h : σ.playerIntro side ix = .error f) : f = .sendJobTarget := by
  obtain ⟨role, hfind⟩ := Option.isSome_iff_exists.mp hrole
  have hset : ∀ new, σ.workerMgr.setRole ix new = .ok (σ.workerMgr.withRole ix new) := fun new =>
    setRole_eq_ok.mpr ⟨hrole, rfl⟩
  unfold playerIntro at h
  rw [getRole_eq_ok.mpr hfind, ok_bind] at h
  split at h
  · -- the worker is told to go
    split at h
    · cases h
    · obtain ⟨m₁, m₂, hkill, hclean⟩ := kill_ok hreg hrole .cleanup
      simp only [hkill, hclean, ok_bind] at h
      cases h
  cases hseat : σ.activeSides side with
  | some jx =>
      simp only [hseat, hset, ok_bind] at h
      rcases bind_eq_error.mp h with h | ⟨σ₁, -, h⟩
      · exact sendJobs_error h
      · cases h
  | none =>
      simp only [hseat, takeSeat, hset, ok_bind, pure_eq] at h
      split at h
      · split at h
        · rcases bind_eq_error.mp h with h | ⟨σ₁, -, h⟩
          · exact firstDeal_error h
          · cases h
        · cases h
      · rcases bind_eq_error.mp h with h | ⟨σ₁, -, h⟩
        · exact rejoin_error h
        · cases h

/-- **A player may ask for a seat** at any time. -/
theorem playerIntro_ok (hbook : SeatBook σ) (hheld : Held σ) (hreg : σ.workerMgr.Registered ix)
    (hrole : (σ.workerMgr.roles.find? ix).isSome) (side : Side) :
    ∃ b σ', σ.playerIntro side ix = .ok (b, σ') := by
  cases hintro : σ.playerIntro side ix with
  | ok p => exact ⟨p.1, p.2, rfl⟩
  | error f =>
      obtain rfl := playerIntro_error hreg hrole hintro
      exact absurd hintro (hbook.playerIntro_ne hheld side ix)

/-- **A player may put a card** at any time, unless the role of the worker is `CLEANUP`. -/
theorem playerTricked_ok (hbook : SeatBook σ) (hheld : Held σ) (hreg : σ.workerMgr.Registered ix)
    (hrole : (σ.workerMgr.roles.find? ix).isSome) (hclean : σ.workerMgr.roles.find? ix ≠ some .cleanup) {n : Nat}
    {card : Card} (hround : ∀ side, σ.admits n card side → σ.game.roundNumber < σ.gameScenario.length) :
    ∃ b σ', σ.playerTricked n card ix = .ok (b, σ') := by
  by_cases hpc : σ.playersConnected < 4
  · exact ⟨false, σ, if_pos hpc⟩
  obtain ⟨role, hfind⟩ := Option.isSome_iff_exists.mp hrole
  have hget := getRole_eq_ok.mpr hfind
  cases role with
  | servingUnknown =>
      obtain ⟨m, hm⟩ := sendKill_ok (m := σ.workerMgr.withRole ix .cleanupUnknown) hreg
      have hset : σ.workerMgr.setRole ix .cleanupUnknown = .ok (σ.workerMgr.withRole ix .cleanupUnknown) :=
        setRole_eq_ok.mpr ⟨hrole, rfl⟩
      exact ⟨_, _, by simp only [playerTricked, if_neg hpc, hget, ok_bind, hset, hm]; rfl⟩
  | servingActive =>
      obtain ⟨s, hs⟩ := hbook.active ix hfind
      have hside := require_eq_ok (e := Fault.noSide).mpr (hbook.seat s ix hs).1
      have hfull : FullTable σ := (hbook.seats hheld).fullTable (by omega)
      cases hoffer : σ.offerCard n card s with
      | ok σ' => exact ⟨_, _, by simp only [playerTricked, if_neg hpc, hget, ok_bind, hside, hoffer]; rfl⟩
      | error f =>
          obtain rfl := offerCard_error (hround s) hoffer
          exact absurd hoffer (hfull.offerCard_ne n card s)
  | servingProxy =>
      have hset : σ.workerMgr.setRole ix .cleanupUnknown = .ok (σ.workerMgr.withRole ix .cleanupUnknown) :=
        setRole_eq_ok.mpr ⟨hrole, rfl⟩
      obtain ⟨σ', hσ'⟩ := finalize_ok { σ with workerMgr := σ.workerMgr.withRole ix .cleanupUnknown }
      exact ⟨_, _, by simp only [playerTricked, if_neg hpc, hget, ok_bind, hset, hσ']; rfl⟩
  | cleanup => exact absurd hfind hclean
  | cleanupUnknown | shutdown => exact ⟨_, _, by simp only [playerTricked, if_neg hpc, hget, ok_bind]; rfl⟩

end Calls

/-- **A worker gets the role `CLEANUP`** when it asks for a seat again, with a kill order, and when it leaves its
seat. -/
theorem Effect.cleanup {σ σ' : Server} {e : Call} {b : Bool} (h : Effect σ e b σ') {ix : Nat}
    (hrole : σ'.workerMgr.roles.find? ix = some .cleanup) :
    σ.workerMgr.roles.find? ix = some .cleanup ∨
      (∃ side, e = .playerIntro side ix ∧ b = true ∧ σ'.workerMgr.Killed ix) ∨
      ∃ errs hasWork, e = .grandExitCallback errs ix hasWork := by
  cases h.recast with
  | same _ _ _ hroles => exact .inl (hroles ▸ hrole)
  | introduced side jx new _ _ hnew hroles =>
      by_cases hix : ix = jx
      · subst hix
        obtain rfl : new = .cleanup := by simpa [hroles, IOWorkerMgr.withRole] using hrole
        obtain ⟨-, hgranted, hkill⟩ := (hnew.resolve_left (by decide)).resolve_left (by decide)
        exact .inr (.inl ⟨side, rfl, hgranted, hkill⟩)
      · rw [hroles, withRole_find?_of_ne _ _ hix] at hrole
        exact .inl hrole
  | tricked n card jx _ _ hroles =>
      by_cases hix : ix = jx
      · simp [hroles, IOWorkerMgr.withRole, hix] at hrole
      · rw [hroles, withRole_find?_of_ne _ _ hix] at hrole
        exact .inl hrole
  | exited errs jx hasWork new _ _ hnew hroles =>
      by_cases hix : ix = jx
      · subst hix
        exact .inr (.inr ⟨errs, hasWork, rfl⟩)
      · rw [hroles, withRole_find?_of_ne _ _ hix] at hrole
        exact .inl hrole
  | came _ _ hroles =>
      rw [hroles, UnorderedMap.find?_insert] at hrole
      split at hrole
      · cases hrole
      · exact .inl hrole

end Server

namespace IOWorker

/-- The stages from the loop over `pendingIncoming` to the one that obeys a kill order. -/
def obeyingStages : List Stage := [.offer, .corrupted, .fetch, .send, .order, .fetchLast, .sendLast, .close]

/-- The thread has no message left, and comes to a kill order before it reads from its socket again. -/
structure Obedient (w : IOWorker) : Prop where
  nothing : w.pendingIncoming = []
  stage : w.stage ∈ obeyingStages

variable {σ : Server} {ix : Nat} {w : IOWorker} {act : Action}

theorem Obedient.looping (h : w.Obedient) : Looping w := by
  constructor <;> intro hstage <;> simpa [obeyingStages, hstage] using h.stage

theorem Silent.goto (h : w.wantToToQuit = true) {stage : Stage} (hne : stage ≠ .offer) : (w.goto stage).Silent :=
  .inr (.inr ⟨h, hne⟩)

/-- **A turn of such a thread** with a kill order does not take up a message, and makes it leave in the end. -/
theorem Move.obedient (h : w.Move σ ix act) (hobeys : w.Obedient) (hordered : σ.workerMgr.Ordered ix)
    (hleaves : w.Leaves) (b : Bool) : (act.next b).Silent ∨ (act.next b).Obedient := by
  obtain ⟨hnone, hstages⟩ := hobeys
  obtain ⟨q, hq, hkill⟩ := hordered
  have hout : ∀ {stage : Stage}, w.stage = stage → stage ∈ obeyingStages := by
    rintro stage rfl
    exact hstages
  have hon : ∀ {stage : Stage}, stage ∈ obeyingStages → (w.goto stage).Silent ∨ (w.goto stage).Obedient :=
    fun hmem => .inr ⟨hnone, hmem⟩
  have hbehind : (w.goto w.behindSend).Silent ∨ (w.goto w.behindSend).Obedient := by
    unfold behindSend
    split
    · exact .inl (.inl rfl)
    · exact hon (by simp [obeyingStages])
  have htransmit : ∀ job rest n closeFails, (w.transmit job rest n closeFails).Obedient := by
    intro job rest n closeFails
    refine ⟨?_, by rwa [transmit_stage]⟩
    unfold transmit
    split <;> exact hnone
  cases h with
  | offerDone | sound | sendLastDone | ordered => exact hon (by simp [obeyingStages])
  | offerInvalid msg rest _ hmsg | offerIntro msg rest _ _ hmsg | offerTrick msg rest _ _ _ hmsg =>
      rw [hnone] at hmsg
      cases hmsg
  | corruptedExit hstage hpeer =>
      have hquit := hleaves (.inr hpeer)
      refine .inl ((Move.corruptedExit hstage hpeer : w.Move σ ix _).silent (.inr (.inr ⟨hquit, ?_⟩)) b)
      simp [hstage]
  | fetched => exact .inr ⟨hnone, hstages⟩
  | fetchDone =>
      simp only [Action.next]
      split
      · exact hbehind
      · exact hon (by simp [obeyingStages])
  | fetchLastDone =>
      simp only [Action.next]
      split <;> exact hon (by simp [obeyingStages])
  | sendDone => exact hbehind
  | sent job rest n closeFails =>
      cases b
      · exact hbehind
      · exact .inr (htransmit job rest n closeFails)
  | sentLast job rest n closeFails =>
      cases b
      · exact hon (by simp [obeyingStages])
      · exact .inr (htransmit job rest n closeFails)
  | unordered hstage hno =>
      -- it has its order
      rw [jobQueue, hq, Option.getD_some, hkill] at hno
      cases hno
  | closed => exact .inl (Silent.goto rfl (by simp))
  | started _ _ hstage | pollExpired hstage | pollFailed _ hstage | pollReady hstage | expired hstage
  | pollExit hstage | piped hstage | pipeFailed hstage | quitting hstage | noRecv hstage | received _ _ hstage
  | recvBlocked hstage | recvEnd _ hstage | recvFailed _ _ hstage | acceptBlocked hstage | accepted _ hstage
  | staying hstage | leaveExit hstage | looped _ hstage | overdue hstage | lastExit hstage =>
      have hmem := hout hstage
      simp [obeyingStages] at hmem

end IOWorker

namespace System

open IOWorker

/-- What every run keeps in which nobody with a seat says `IAM` again while four players are connected. -/
structure Faultless (S : System) : Prop where
  tidy : ∀ ix w, S.threads ix = some w → w.Tidy
  hushed : Hushed S
  held : Server.Held S.server
  cleanup : ∀ ix w, S.threads ix = some w → S.server.workerMgr.roles.find? ix = some .cleanup →
    w.Silent ∨ (w.Obedient ∧ S.server.workerMgr.Ordered ix)

theorem faultless_start {scenario : GameScenario} {timeout tcpListenSock : Int} {S₀ : System}
    (h : start scenario timeout tcpListenSock = .ok S₀) : Faultless S₀ := by
  obtain ⟨r, -, hstarted⟩ := Server.start_eq_ok (start_eq_ok h).1
  constructor
  case tidy => exact (awake_start h).tidy
  case hushed =>
      have hrun : run scenario timeout tcpListenSock [] = some S₀ := run_eq_some.mpr ⟨S₀, h, rfl⟩
      exact hushed_run hrun
  case held =>
    intro s ix hs
    simp [hstarted, Server.started, Server.new] at hs
  case cleanup =>
    intro ix w hw hrole
    obtain ⟨rfl, -⟩ := start_thread h hw
    rw [hstarted] at hrole
    cases hrole

/-- **Every turn but such a one** keeps this. -/
theorem Faultless.step {S S' : System} {ev : Event} (h : Faultless S) (hcrew : Crewed S)
    (hbook : Server.SeatBook S.server) (hguard : ¬ Makes Server.SecondIntro S ev) (hstep : step S ev = some S') : Faultless S' := by
  have hturn := step_turn hstep
  constructor
  case tidy => exact tidy_step h.tidy hstep
  case hushed => exact h.hushed.turn hcrew hturn
  case held =>
    rcases hturn.effect with hsame | ⟨e, b, hcall, heff⟩
    · rw [hsame]
      exact h.held
    · exact h.held.effect hbook heff fun hsecond => hguard ⟨e, hcall, hsecond⟩
  case cleanup =>
    intro ix w' hw' hrole
    rcases hturn.thread hw' with ⟨hw, hother⟩ | ⟨a, closeFails, w, act, b, rfl, hw, hmove, hcall, rfl, hact⟩ |
      ⟨rfl, hcall, -⟩
    · -- nobody else changes the role
      have hold : S.server.workerMgr.roles.find? ix = some .cleanup := by
        rcases hturn.effect with hsame | ⟨e, b, hcall, heff⟩
        · rwa [← hsame]
        · rwa [← heff.roles_other (fun hown => ?_) (hcrew.known ix w' hw)]
          obtain ⟨a, closeFails, hev⟩ := hturn.owner hcall hown
          exact hother a closeFails hev
      exact (h.cleanup ix w' hw hold).imp_right fun hobeys =>
        ⟨hobeys.1, hturn.ordered hcrew hw hobeys.1.looping hobeys.2⟩
    · have hknown := hcrew.known ix w hw
      have hleaves := h.hushed.leaves ix w hw
      have hkept : S.server.workerMgr.roles.find? ix = some .cleanup →
          (act.next b).Silent ∨ ((act.next b).Obedient ∧ S'.server.workerMgr.Ordered ix) := by
        intro hold
        rcases h.cleanup ix w hw hold with hsilent | ⟨hobeys, hordered⟩
        · exact .inl (hmove.silent hsilent b)
        · exact (hmove.obedient hobeys hordered hleaves b).imp_right fun hnext =>
            ⟨hnext, hturn.ordered hcrew hw hobeys.looping hordered⟩
      cases he : act.call? with
      | none =>
          rcases hturn.effect with hsame | ⟨e, b, hsome, -⟩
          · exact hkept (hsame ▸ hrole)
          · rw [hcall, he] at hsome
            cases hsome
      | some e =>
          have heff := Server.handle_effect (hact e he)
          rcases heff.cleanup hrole with hold | ⟨side, rfl, rfl, hkilled⟩ | ⟨errs, hasWork, rfl⟩
          · exact hkept hold
          · -- it has asked for a seat again, and that was its only message
            have hloop : Looping w := by simp [Looping, hmove.intro_offer he]
            obtain ⟨hreg, hwait⟩ := hcrew.present ix w hw hloop
            refine .inr ⟨?_, IOWorkerMgr.ordered_iff.mpr ⟨heff.registered hreg hknown hwait, hkilled⟩⟩
            cases hmove with
            | offerIntro msg rest _ hstage hmsg =>
                have hsingle := (h.tidy ix w hw).single
                rw [hmsg, List.length_cons] at hsingle
                have hnone : rest = [] := List.length_eq_zero_iff.mp (by omega)
                exact ⟨hnone, by simp [Action.next, hstage, obeyingStages]⟩
            | _ => cases he
          · exact .inl (hmove.silent_exit hleaves he b)
    · rw [hturn.spawned hcall] at hrole
      simp [Server.forwardConnection, IOWorkerMgr.spawnNewWorker] at hrole

/-- **A call that a thread makes returns.** -/
theorem Faultless.handle_ok {S : System} {ev : Event} {e : Server.Call} (h : Faultless S) (hcrew : Crewed S)
    (hbook : Server.SeatBook S.server)
    (hround : ∀ n card side, S.server.admits n card side →
      S.server.game.roundNumber < S.server.gameScenario.length)
    (hcall : S.callOf ev = some e) : ∃ b σ', S.server.handle e = .ok (b, σ') := by
  cases ev with
  | cleaner =>
      obtain rfl := Option.some.inj hcall
      exact ⟨_, _, rfl⟩
  | worker ix a closeFails =>
      obtain ⟨w, act, hw, hmove, he⟩ := callOf_eq_some hcall
      have hrole := hcrew.staffed ix (hcrew.known ix w hw)
      -- the worker of a thread that is in its loop is still there
      have hreg : ∀ {stage : Stage}, w.stage = stage → stage ≠ .last → stage ≠ .done →
          S.server.workerMgr.Registered ix := by
        rintro stage rfl hlast hdone
        exact (hcrew.present ix w hw ⟨hlast, hdone⟩).1
      cases hmove with
      | expired hstage | overdue hstage =>
          obtain rfl := Option.some.inj he
          obtain ⟨σ', hσ'⟩ := Server.handleTimeout_ok hbook (hreg hstage (by simp) (by simp)) hrole
          exact ⟨true, σ', by rw [Server.handle, hσ']; rfl⟩
      | pollExit | corruptedExit | leaveExit | lastExit =>
          obtain rfl := Option.some.inj he
          exact hbook.exit_ok hrole _ _
      | offerInvalid msg rest hstage =>
          obtain rfl := Option.some.inj he
          exact Server.handleWrongMessage_ok (hreg hstage (by simp) (by simp))
      | offerIntro msg rest side hstage =>
          obtain rfl := Option.some.inj he
          exact Server.playerIntro_ok hbook h.held (hreg hstage (by simp) (by simp)) hrole side
      | offerTrick msg rest n card hstage hmsg =>
          obtain rfl := Option.some.inj he
          refine Server.playerTricked_ok hbook h.held (hreg hstage (by simp) (by simp)) hrole (fun hclean => ?_)
            (hround n card)
          -- a thread whose role is `CLEANUP` has nothing to offer
          rcases h.cleanup ix w hw hclean with hsilent | ⟨hobeys, -⟩
          · simp [Silent, hstage] at hsilent
          · rw [hobeys.nothing] at hmsg
            cases hmsg
      | fetched job rest hstage hjobs =>
          obtain rfl := Option.some.inj he
          obtain ⟨m, hm⟩ := Server.popNextJob_ok hjobs
          exact ⟨_, _, by simp only [Server.handle, hm]; rfl⟩
      | piped | sent | sentLast | accepted =>
          obtain rfl := Option.some.inj he
          exact ⟨_, _, rfl⟩
      | _ => cases he

/-- A thread can take its turn if the server answers the call. -/
theorem step_of_action {S : System} {ix : Nat} {a : Answer} {closeFails : Bool} {act : Action}
    (hact : S.action ix a closeFails = some act)
    (hanswers : ∀ e, S.callOf (.worker ix a closeFails) = some e → ∃ b σ', S.server.handle e = .ok (b, σ')) :
    ∃ S', S.step (.worker ix a closeFails) = some S' := by
  cases act with
  | silent w' => exact ⟨_, by simp only [step, hact]; rfl⟩
  | connect fd w' => exact ⟨_, by simp only [step, hact]; rfl⟩
  | call e k =>
      have hcall : S.callOf (.worker ix a closeFails) = some e := by
        rw [callOf, hact]
        rfl
      obtain ⟨b, σ', hhandle⟩ := hanswers e hcall
      exact ⟨_, by simp only [step, hact, call, hhandle]; rfl⟩

/-- Behind the last round no card is admitted. -/
theorem round_of_admits {scenario : GameScenario} {timeout tcpListenSock : Int} {evs : List Event} {S : System}
    (h : run scenario timeout tcpListenSock evs = some S) (n : Nat) (card : Card) (side : Side)
    (hgood : S.server.admits n card side) : S.server.game.roundNumber < S.server.gameScenario.length := by
  obtain ⟨G, hmirrors, -⟩ := Server.run_counted (run_server h)
  have hle := hmirrors.sound.past_le
  rw [← hmirrors.game.roundNumber, deals, List.length_map] at hle
  rw [hmirrors.scenario_eq]
  exact lt_of_le_of_ne hle fun hover => hmirrors.over hover n card side hgood

/-- **Nobody can make the server throw.**  In every run in which nobody with a seat says `IAM` again while four
players are connected, every call that a thread is about to make returns, and no line that comes in from a
connection stops the thread that reads it. -/
theorem answers_of_guarded {scenario : GameScenario} {timeout tcpListenSock : Int} {evs : List Event} {S₀ S : System}
    (h₀ : start scenario timeout tcpListenSock = .ok S₀) (hevs : exec step S₀ evs = some S)
    (hguard : Guarded step (fun S ev => ¬ Makes Server.SecondIntro S ev) S₀ evs) :
    (∀ ev e, S.callOf ev = some e → ∃ b σ', S.server.handle e = .ok (b, σ')) ∧
      ∀ ix w, S.threads ix = some w → w.stage = .offer → ∀ a closeFails,
        ∃ S', S.step (.worker ix a closeFails) = some S' := by
  have hrun : run scenario timeout tcpListenSock evs = some S := run_eq_some.mpr ⟨S₀, h₀, hevs⟩
  have hfine : Faultless S := guarded_invariant (I := Faultless) h₀ hevs hguard (faultless_start h₀)
    fun _ _ _ hcrew hbook ih hno hstep => ih.step hcrew hbook hno hstep
  have hanswers : ∀ ev e, S.callOf ev = some e → ∃ b σ', S.server.handle e = .ok (b, σ') :=
    fun ev e => hfine.handle_ok (crewed_run hrun) (seatBook_run hrun) (round_of_admits hrun)
  refine ⟨hanswers, fun ix w hw hoffer a closeFails => ?_⟩
  -- whatever the message is, the thread has a turn
  obtain ⟨act, hact⟩ := Option.isSome_iff_exists.mp (offer_progress ⟨S.server, ix, a, closeFails, true⟩ hoffer)
  have haction : S.action ix a closeFails = some act := by
    rw [action, hw, Option.bind_some]
    exact hact
  exact step_of_action haction fun e => hanswers (.worker ix a closeFails) e

/-- Four players sit down, and a fifth is refused a seat and asks for it again. -/
def asksAgain : List Event :=
  accepts [11, 12, 13, 14, 15] ++ speaks 1 "IAMN" ++ speaks 2 "IAME" ++ speaks 3 "IAMS" ++ speaks 4 "IAMW" ++
    speaks 5 "IAMN" ++ settles 5 [10] ++ hears 5 "IAMN" ++ goes 5 1

/-- This worker has no side to look up, and its thread goes on. -/
theorem answers_of_guarded_asksAgain :
    ∃ S S', exec step (started [suitRound] 5 3 suitRound) asksAgain = some S ∧
      S.server.workerMgr.roles.find? 5 = some .cleanup ∧ S.server.zombieWorkerToSide.find? 5 = none ∧
      S.step (.worker 5 .go false) = some S' := by
  have hfacts : (exec step (started [suitRound] 5 3 suitRound) asksAgain).bind (fun S => (S.threads 5).map fun w =>
      (w.stage, S.server.workerMgr.roles.find? 5, S.server.zombieWorkerToSide.find? 5)) =
      some (.offer, some .cleanup, none) := by decide +kernel
  obtain ⟨S, hS, hthread⟩ := Option.bind_eq_some_iff.mp hfacts
  obtain ⟨w, hw, heq⟩ := Option.map_eq_some_iff.mp hthread
  simp only [Prod.mk.injEq] at heq
  obtain ⟨hoffer, hrole, hzombie⟩ := heq
  have hanswers := answers_of_guarded (start_cons suitRound [] 5 3) hS (by decide +kernel)
  obtain ⟨S', hS'⟩ := hanswers.2 5 w hw hoffer .go false
  exact ⟨S, S', hS, hrole, hzombie, hS'⟩

/-- `N` puts a card, says `IAM` again and is collected; then the three others put their cards. -/
def seatedAsksAgain : List Event :=
  accepts [11, 12, 13, 14] ++ speaks 1 "IAMN" ++ speaks 2 "IAME" ++ speaks 3 "IAMS" ++ speaks 4 "IAMW" ++
    settles 1 [35, 8] ++ hears 1 "TRICK12C" ++ goes 1 1 ++ settles 1 [] ++ hears 1 "IAMN" ++ goes 1 11 ++
    [.cleaner] ++ settles 2 [35, 10] ++ hears 2 "TRICK12D" ++ goes 2 1 ++
    settles 3 [35, 12] ++ hears 3 "TRICK12H" ++ goes 3 1 ++ settles 4 [35, 14] ++ hears 4 "TRICK12S"

/-- The last card of the trick is announced to a worker that is no longer there, which ends the process. -/
theorem not_answers_seatedAsksAgain :
    ∃ S e, run [suitRound] 5 3 seatedAsksAgain = some S ∧ S.callOf (.worker 4 .go false) = some e ∧
      ∀ b σ', S.server.handle e ≠ .ok (b, σ') := by
  have hfacts : (run [suitRound] 5 3 seatedAsksAgain).bind (fun S => (S.callOf (.worker 4 .go false)).map fun e =>
      (S.server.handle e).toOption.isSome) = some false := by decide +kernel
  obtain ⟨S, hS, hcall⟩ := Option.bind_eq_some_iff.mp hfacts
  obtain ⟨e, he, hnone⟩ := Option.map_eq_some_iff.mp hcall
  refine ⟨S, e, hS, he, fun b σ' hok => ?_⟩
  rw [hok] at hnone
  cases hnone

end System

end Kierki
