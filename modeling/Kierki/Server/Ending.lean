import Kierki.Server.Pause
import Kierki.Server.Workload

/-!
# The server comes to its end

Once the server is exiting it ends, whatever the clients send and however the threads take their turns: no run is
longer than `System.rank` allows, and as long as a thread has not ended or the cleaner has not returned somebody can
take a turn.  `Hampers` names the steps that stand in the way:

* a connection is accepted while the server is exiting; its worker gets no kill order;
* an exit is refused while the server is exiting, as it is with work left, or with the role `CLEANUP` or
  `CLEANUP_UNKNOWN` as soon as a player has gone; nobody wakes the thread up again;
* a thread ends and its worker was not handed over, as after every internal error; the cleaner waits for it;
* somebody with a seat says `IAM` again, which can make a later call throw (`Faultless`).
-/

namespace Kierki

open Execution

namespace Server

open IOWorkerMgr

/-- An exit that is refused while the server is exiting. -/
def PutOff (σ : Server) : Call → Prop
  | .grandExitCallback errs ix hasWork => σ.exiting = true ∧ ¬ σ.ExitGranted errs ix hasWork
  | _ => False

instance (σ : Server) : (e : Call) → Decidable (PutOff σ e)
  | .grandExitCallback errs ix hasWork => inferInstanceAs (Decidable (_ ∧ ¬ σ.ExitGranted errs ix hasWork))
  | .playerIntro .. | .playerTricked .. | .handleTimeout _ | .handleWrongMessage _ | .execMutexed
  | .forwardConnection | .popNextJob _ | .handlePipe _ | .waitForClearing => inferInstanceAs (Decidable False)

variable {σ σ' : Server} {e : Call} {b : Bool}

theorem Tends.toErase_subset {m m' : IOWorkerMgr} (h : Tends m m') : m.toErase ⊆ m'.toErase := by
  rcases h.permits with ⟨hsame, -⟩ | ⟨ix, hmore, -⟩
  · rw [hsame]
    exact List.Subset.refl _
  · rw [hmore]
    exact List.subset_append_left _ _

/-- `finalize` sets the flag of the cleaner, and gives an order and a byte to everybody who is there. -/
theorem Finalized.summons (h : Finalized σ σ') (hexit : σ.exiting = false) :
    σ'.workerMgr.finishFlag = true ∧ ∀ ix, σ'.workerMgr.Registered ix → ix ∉ σ'.workerMgr.toErase →
      σ'.workerMgr.Ordered ix ∧ 0 < σ'.workerMgr.unread ix := by
  cases h with
  | again hexit' =>
      rw [hexit] at hexit'
      cases hexit'
  | now _ mgr hpost hkill =>
      refine ⟨hpost.finishFlag, fun ix hreg hwait => ?_⟩
      obtain ⟨hkilled, hwoken⟩ := hkill ix hreg hwait
      exact ⟨ordered_iff.mpr ⟨hreg, hkilled⟩, hwoken⟩

/-- **The call that sets `exiting`** ends with `finalize`.  It comes from a thread that offers a card, or from an exit
with an internal error, or from one that hands the worker over. -/
theorem Effect.finalizes (h : Effect σ e b σ') (hexit : σ.exiting = false) (hexit' : σ'.exiting = true) :
    (∃ τ, Finalized τ σ' ∧ τ.exiting = false) ∧ ((∃ n card ix, e = .playerTricked n card ix) ∨
      ∃ errs ix hasWork, e = .grandExitCallback errs ix hasWork ∧ (.internal ∈ errs ∨ ix ∈ σ'.workerMgr.toErase)) := by
  have hsame : ∀ {τ : Server}, τ.exiting = σ.exiting → τ.exiting ≠ true := by
    intro τ heq htrue
    rw [heq, hexit] at htrue
    cases htrue
  cases h with
  | trickProxy n card ix σ' _ _ hfin => exact ⟨⟨_, hfin, hexit⟩, .inl ⟨n, card, ix, rfl⟩⟩
  | trickAccepted n card ix side σ' _ _ _ hacc =>
      refine ⟨?_, .inl ⟨n, card, ix, rfl⟩⟩
      cases hacc with
      | gameDone g₀ g₁ g mgr out σ' _ _ _ _ _ _ _ _ hfin => exact ⟨_, hfin, hexit⟩
      | _ => exact absurd hexit' (hsame rfl)
  | exitInternal errs ix hasWork σ' herr hfin =>
      exact ⟨⟨_, hfin, hexit⟩, .inr ⟨errs, ix, hasWork, rfl, .inl herr⟩⟩
  | exitProxy errs ix hasWork σ' _ _ hfin =>
      refine ⟨⟨_, hfin, hexit⟩, .inr ⟨errs, ix, hasWork, rfl, .inr ?_⟩⟩
      rw [hfin.toErase]
      exact self_mem_eraseWorker _ ix
  | _ => exact absurd hexit' (hsame rfl)

/-- Calls that leave the role of their worker alone. -/
theorem Effect.roles_kept (h : Effect σ e b σ') {ix : Nat} (hix : ix < σ.workerMgr.nextIx)
    (hintro : ∀ side, e ≠ .playerIntro side ix) (htrick : ∀ n card, e ≠ .playerTricked n card ix)
    (hexit : ∀ errs hasWork, e ≠ .grandExitCallback errs ix hasWork) :
    σ'.workerMgr.roles.find? ix = σ.workerMgr.roles.find? ix := by
  cases h.recast with
  | same _ _ _ hroles => rw [hroles]
  | introduced side jx _ _ _ _ hroles =>
      rw [hroles, withRole_find?_of_ne _ _ fun hix => hintro side (by rw [hix])]
  | tricked n card jx _ _ hroles => rw [hroles, withRole_find?_of_ne _ _ fun hix => htrick n card (by rw [hix])]
  | exited errs jx hasWork _ _ _ _ hroles =>
      rw [hroles, withRole_find?_of_ne _ _ fun hix => hexit errs hasWork (by rw [hix])]
  | came _ _ hroles => rw [hroles, UnorderedMap.find?_insert, if_neg hix.ne]

/-- An exit with an internal error does not hand the worker over. -/
theorem Effect.exit_clean {errs : List IOErrClass} {ix : Nat} {hasWork : Bool}
    (h : Effect σ (.grandExitCallback errs ix hasWork) b σ')
    (hrole : σ'.workerMgr.roles.find? ix = some .shutdown) :
    σ.workerMgr.roles.find? ix = some .shutdown ∨ .internal ∉ errs := by
  cases h with
  | exitInternal _ _ _ σ' _ hfin => exact .inl (hfin.sameSeats.roles ▸ hrole)
  | exitUnknown _ _ _ herr | exitLeave _ _ _ _ herr | exitLeaveErased _ _ _ _ herr | exitRefused _ _ _ _ herr
  | exitErased _ _ _ _ herr | exitDone _ _ _ herr | exitProxy _ _ _ _ herr => exact .inr herr

/-- The accepting worker is let go when it asks. -/
theorem Effect.proxy_granted {errs : List IOErrClass} {ix : Nat} {hasWork : Bool}
    (h : Effect σ (.grandExitCallback errs ix hasWork) b σ')
    (hrole : σ.workerMgr.roles.find? ix = some .servingProxy) : b = true := by
  cases h with
  | exitLeave _ _ _ s _ hactive =>
      rw [hrole] at hactive
      cases hactive
  | exitRefused _ _ _ role _ hother hclean =>
      rw [hrole] at hother
      obtain rfl := Option.some.inj hother
      simp at hclean
  | _ => rfl

end Server

namespace IOWorker

/-- The thread will be in `poll` before it reads its pipe. -/
def Awaits (w : IOWorker) : Prop :=
  w.stage ∈ [.start, .poll, .expired, .deadline] ∨ (w.stage = .leave ∧ w.wantToToQuit = false)

/-- The stages at which a thread can be that has closed its connection for good. -/
def partingStages : List Stage :=
  [.pollFailed, .send, .order, .fetchLast, .sendLast, .close, .leave, .last, .done]

/-- A thread whose connection is closed is on its way out. -/
def Parting (w : IOWorker) : Prop :=
  w.closedFd = true → w.wantToToQuit = true ∧ w.stage ∈ partingStages

/-- Where a thread can have been before it is on its way to `poll`, or tries its exit. -/
theorem before_awaits {s t : Stage} (h : t ∈ successors s) :
    (t ∈ [.start, .poll, .expired, .deadline] → s ∈ [.start, .poll, .expired, .pollFailed, .leave, .deadline]) ∧
      (t = .leave → s ∈ [.order, .close]) := by
  cases s <;> simp only [successors, List.mem_cons, List.not_mem_nil, or_false] at h <;> grind

variable {σ : Server} {ix : Nat} {w : IOWorker} {act : Action} {a : Answer} {closeFails b : Bool}

/-- **The byte of the kill order is not read before the order is obeyed**: a thread that will be in `poll` has not
read its pipe in this turn, and would have been in `poll` before. -/
theorem Move.awaits (h : w.Move σ ix act) (hordered : σ.workerMgr.Ordered ix)
    (hexit : ∀ errs hasWork, act.call? = some (.grandExitCallback errs ix hasWork) → b = true)
    (hawaits : (act.next b).Awaits) : w.Awaits ∧ act.call? ≠ some (.handlePipe ix) := by
  have hmem := h.successor b
  rcases hawaits with hnext | ⟨hnext, hstays⟩
  · have hfrom := (before_awaits hmem).1 hnext
    cases h with
    | started _ _ hstage | pollExpired hstage | looped _ hstage | expired hstage | overdue hstage =>
        exact ⟨.inl (by simp [hstage]), by simp [Action.call?]⟩
    | staying hstage hquit => exact ⟨.inr ⟨hstage, hquit⟩, by simp [Action.call?]⟩
    | pollExit | leaveExit =>
        obtain rfl : b = true := hexit _ _ rfl
        simp [Action.next, exit] at hnext
    | pollFailed | pollReady => simp [Action.next] at hnext
    | fetched _ _ hstage => rcases hstage with hstage | hstage <;> simp [hstage] at hfrom
    | _ => simp_all
  · -- an order is on the way out, and so is a closed connection
    have hfrom := (before_awaits hmem).2 hnext
    cases h with
    | closed => cases hstays
    | unordered hstage hkill =>
        obtain ⟨q, hq, hflag⟩ := hordered
        rw [jobQueue, hq, Option.getD_some, hflag] at hkill
        cases hkill
    | ordered => cases hnext
    | fetched _ _ hstage => rcases hstage with hstage | hstage <;> simp [hstage] at hfrom
    | _ => simp_all

/-- **The accepting thread closes its connection only to go.** -/
theorem Parting.turn (h : w.Parting) (hconnect : w.kind = .connect) (htidy : w.Tidy)
    (hturn : w.turn σ ix a closeFails = some act) (hexit : ∀ errs hasWork, w.stage ≠ .last →
      act.call? = some (.grandExitCallback errs ix hasWork) → b = true) : (act.next b).Parting := by
  have hopen : w.stage ∉ partingStages → (act.next b).closedFd = w.closedFd → (act.next b).Parting := by
    intro hstage hsame hclosed
    exact absurd (h (hsame.symm.trans hclosed)).2 hstage
  have hgoing : (act.next b).closedFd = w.closedFd → (act.next b).wantToToQuit = w.wantToToQuit →
      (act.next b).stage ∈ partingStages → (act.next b).Parting := by
    intro hsame hquit hstage hclosed
    exact ⟨hquit.trans (h (hsame.symm.trans hclosed)).1, hstage⟩
  have hmove := turn_move hturn
  have hbehind : w.behindSend ∈ partingStages := by
    unfold behindSend
    split <;> simp [partingStages]
  -- a message that cannot be sent closes the connection, and the worker then wants to go
  have htransmit : ∀ job rest n closeFails, w.stage ∈ partingStages → (w.transmit job rest n closeFails).Parting := by
    intro job rest n closeFails hstage hclosed
    rw [transmit_stage]
    refine ⟨?_, hstage⟩
    revert hclosed
    unfold transmit
    split
    · exact fun hclosed => (h hclosed).1
    · exact fun _ => rfl
  by_cases haccepts : w.stage = .socket
  · simp only [IOWorker.turn, haccepts, hconnect] at hturn
    refine hopen (by simp [haccepts, partingStages]) ?_
    rw [turnAccept_next hturn]
    rfl
  cases hmove with
  | started pipeFails mainFails hstage =>
      refine hopen (by simp [hstage, partingStages]) ?_
      cases pipeFails <;> cases mainFails <;> rfl
  | pollExpired hstage | pollReady hstage | expired hstage | piped hstage | pipeFailed hstage | offerDone hstage
  | sound hstage | fetchDone hstage | looped t hstage | overdue hstage =>
      exact hopen (by simp [hstage, partingStages]) rfl
  | pollFailed => exact fun _ => ⟨rfl, by simp [Action.next, partingStages]⟩
  | offerInvalid msg rest hstage hmsg | offerIntro msg rest _ hstage hmsg | offerTrick msg rest _ _ hstage hmsg =>
      rw [htidy.connect hconnect] at hmsg
      cases hmsg
  | corruptedExit hstage =>
      obtain rfl : b = true := hexit _ _ (by simp [hstage]) rfl
      exact hopen (by simp [hstage, partingStages]) rfl
  | pollExit hstage | leaveExit hstage =>
      obtain rfl : b = true := hexit _ _ (by simp [hstage]) rfl
      exact hgoing rfl rfl (by simp [Action.next, exit, partingStages])
  | fetched job rest hstage =>
      rcases hstage with hstage | hstage
      · exact hopen (by simp [hstage, partingStages]) rfl
      · exact hgoing rfl rfl (by simp [Action.next, hstage, partingStages])
  | fetchLastDone =>
      refine hgoing rfl rfl ?_
      rw [Action.next, goto_stage]
      split <;> simp [partingStages]
  | sendDone => exact hgoing rfl rfl hbehind
  | sendLastDone | ordered | unordered | lastExit => exact hgoing rfl rfl (by simp [Action.next, partingStages])
  | sent job rest n closeFails hstage =>
      cases b
      · exact hgoing rfl rfl hbehind
      · exact htransmit job rest n closeFails (by simp [hstage, partingStages])
  | sentLast job rest n closeFails hstage =>
      cases b
      · exact hgoing rfl rfl (by simp [Action.next, partingStages])
      · exact htransmit job rest n closeFails (by simp [hstage, partingStages])
  | closed => exact fun _ => ⟨rfl, by simp [Action.next, partingStages]⟩
  | staying _ hquit =>
      intro hclosed
      rw [(h hclosed).1] at hquit
      cases hquit
  | quitting hstage | noRecv hstage | received _ _ hstage | recvBlocked hstage | recvEnd _ hstage
  | recvFailed _ _ hstage | acceptBlocked hstage | accepted _ hstage => exact absurd hstage haccepts

end IOWorker

/-- A call of `fcntl`, `poll`, `read` or `recv` fails, or `send` does not take the whole job, which ends the
connection. -/
def IOWorker.fails (w : IOWorker) : Answer → Bool
  | .fcntl pipeFails mainFails => pipeFails || mainFails
  | .pollFailed | .pipeFailed | .recvFailed _ => true
  | .sent n => w.pendingOutgoing.head?.any fun job => n < job.genMsg.length
  | .go | .pollExpired | .pollReady | .pipeEmpty | .recv _ | .recvBlocked | .recvEnd | .accepted _ | .acceptBlocked
  | .remaining _ => false

/-- One of these or `close` fails. -/
def System.fails (S : System) : Event → Bool
  | .worker ix a closeFails => ((S.threads ix).any fun w => w.fails a) || closeFails
  | .cleaner => false

namespace IOWorker

/-- A thread is blocked only in `poll`, and when it is to accept a connection on a closed descriptor. -/
theorem exists_turn (σ : Server) (ix : Nat) {w : IOWorker} (hdone : w.stage ≠ .done)
    (hpoll : w.stage = .poll → 0 < σ.workerMgr.unread ix)
    (hopen : w.stage = .socket → w.kind = .connect → w.closedFd = false) :
    ∃ a : Answer, w.fails a = false ∧ (w.turn σ ix a false).isSome := by
  cases hstage : w.stage with
  | start => exact ⟨.fcntl false false, rfl, by simp [turn, hstage, turnStart]⟩
  | poll => exact ⟨.pollReady, rfl, by simp [turn, hstage, turnPoll, hpoll hstage]⟩
  | pipe => exact ⟨.pipeEmpty, rfl, by simp [turn, hstage, turnPipe]⟩
  | socket =>
      cases hkind : w.kind with
      | connect => exact ⟨.acceptBlocked, rfl, by simp [turn, hstage, hkind, turnAccept, hopen hstage hkind]⟩
      | handler =>
          -- whatever is parked or closed, there is an answer for `recv` with which the turn goes on
          have hrecv : (w.turnRecv false .recvBlocked).isSome := by
            unfold turnRecv
            split
            · exact Option.isSome_some
            · split <;> exact Option.isSome_some
          refine ⟨.recvBlocked, rfl, ?_⟩
          simp only [turn, hstage, hkind]
          exact hrecv
  | offer => exact ⟨.go, rfl, offer_progress ⟨σ, ix, .go, false, true⟩ hstage⟩
  -- `sendNoBlock` takes all bytes of the message
  | send =>
      cases hout : w.pendingOutgoing with
      | nil => exact ⟨.go, rfl, by simp [turn, hstage, turnSend, hout]⟩
      | cons job rest =>
          exact ⟨.sent job.genMsg.length, by simp [fails, hout], by simp [turn, hstage, turnSend, hout]⟩
  | sendLast =>
      cases hout : w.pendingOutgoing with
      | nil => exact ⟨.go, rfl, by simp [turn, hstage, turnSend, hout]⟩
      | cons job rest =>
          exact ⟨.sent job.genMsg.length, by simp [fails, hout], by simp [turn, hstage, turnSend, hout]⟩
  | deadline =>
      refine ⟨.remaining 0, rfl, ?_⟩
      simp only [turn, hstage, turnDeadline]
      split
      · exact Option.isSome_some
      · split
        · split <;> exact Option.isSome_some
        · exact Option.isSome_some
  | done => exact absurd hstage hdone
  | expired | pollFailed | corrupted | fetch | order | fetchLast | close | leave | last =>
      exact ⟨.go, rfl, by simp [turn, hstage]⟩

end IOWorker

namespace System

open IOWorker

/-- **The steps that hold the end up.** -/
def Hampers (S : System) (ev : Event) : Prop :=
  LateConnection S ev ∨ Makes Server.PutOff S ev ∨ LeftBehind S ev ∨ Makes Server.SecondIntro S ev

instance (S : System) (ev : Event) : Decidable (Hampers S ev) :=
  inferInstanceAs (Decidable (_ ∨ _ ∨ _ ∨ _))

/-- What every run without these steps keeps. -/
structure Closing (S : System) : Prop where
  manned : ∀ ix < S.server.workerMgr.nextIx, (S.threads ix).isSome
  gate : ∀ ix w, S.threads ix = some w → w.kind = .connect → Looping w →
    S.server.workerMgr.roles.find? ix = some .servingProxy
  parting : ∀ ix w, S.threads ix = some w → w.kind = .connect → w.Parting
  collected : ∀ ix w, S.threads ix = some w → w.stage = .done → S.Collected ix
  clean : ∀ ix w, S.threads ix = some w → S.server.workerMgr.roles.find? ix = some .shutdown → .internal ∉ w.errs
  permits : S.server.workerMgr.toErase ≠ [] → 0 < S.server.workerMgr.clearThreadsSemaphore
  finishing : S.server.exiting = true → S.server.workerMgr.finishFlag = true
  remains : S.server.exiting = true → S.server.workerMgr.exitFlag = false →
    ∃ ix, ix ∈ S.server.workerMgr.toErase ∨ S.server.workerMgr.Registered ix
  summoned : S.server.exiting = true → ∀ ix w, S.threads ix = some w → Looping w →
    S.server.workerMgr.Ordered ix ∧ (w.Awaits → 0 < S.server.workerMgr.unread ix)

theorem closing_start {scenario : GameScenario} {timeout tcpListenSock : Int} {S₀ : System}
    (h : start scenario timeout tcpListenSock = .ok S₀) : Closing S₀ := by
  obtain ⟨hserver, hthreads⟩ := start_eq_ok h
  obtain ⟨r, -, hstarted⟩ := Server.start_eq_ok hserver
  have hrunning : S₀.server.exiting ≠ true := by
    rw [hstarted]
    exact Bool.false_ne_true
  refine ⟨?_, ?_, ?_, ?_, ?_, ?_, fun hexit => absurd hexit hrunning, fun hexit => absurd hexit hrunning,
    fun hexit => absurd hexit hrunning⟩
  · intro ix hix
    rw [hstarted] at hix
    obtain rfl : ix = 0 := Nat.lt_one_iff.mp hix
    rw [hthreads]
    rfl
  · intro ix w hw _ _
    obtain ⟨rfl, -⟩ := start_thread h hw
    rw [hstarted]
    rfl
  · intro ix w hw _ hclosed
    obtain ⟨-, rfl⟩ := start_thread h hw
    cases hclosed
  · intro ix w hw hdone
    obtain ⟨-, rfl⟩ := start_thread h hw
    cases hdone
  · intro ix w hw _ herr
    obtain ⟨-, rfl⟩ := start_thread h hw
    cases herr
  · intro hwait
    rw [hstarted] at hwait
    exact absurd rfl hwait

/-- The cleaner has returned, and no thread is left. -/
def Ended (S : System) : Prop :=
  S.server.workerMgr.exitFlag = true ∧ ∀ ix w, S.threads ix = some w → w.stage = .done

section Step

variable {S S' : System} {ev : Event}

/-- Every worker has a thread. -/
theorem Turn.manned (h : Turn S ev S') (hmanned : ∀ ix < S.server.workerMgr.nextIx, (S.threads ix).isSome) :
    ∀ ix < S'.server.workerMgr.nextIx, (S'.threads ix).isSome := by
  intro ix hix
  by_cases hold : ix < S.server.workerMgr.nextIx
  · exact h.thread_stays (hmanned ix hold)
  have hsame : S'.server.workerMgr.nextIx ≠ S.server.workerMgr.nextIx := fun heq => hold (heq ▸ hix)
  cases h with
  | cleaner =>
      exact absurd (IOWorkerMgr.waitForClearing_nextIx _) hsame
  | silent => exact absurd rfl hsame
  | call jx a closeFails w e k b σ hw hmove hcall hhandle =>
      have htends := (Server.handle_effect hhandle).tends (by rintro rfl; cases hmove) (by rintro rfl; cases hmove)
      exact absurd htends.nextIx hsame
  | connect jx a closeFails w w' fd hw =>
      -- it is the new one
      have hnew : ix = S.server.workerMgr.nextIx := by
        have hlt : ix < S.server.workerMgr.nextIx + 1 := hix
        omega
      subst hnew
      by_cases hjx : S.server.workerMgr.nextIx = jx
      · simp [System.connect, ← hjx]
      · rw [System.connect, setThread_of_ne _ _ hjx, setThread_self]
        rfl

/-- A worker that waits for the cleaner leaves it a permit. -/
theorem Turn.permits (h : Turn S ev S')
    (hpermits : S.server.workerMgr.toErase ≠ [] → 0 < S.server.workerMgr.clearThreadsSemaphore) :
    S'.server.workerMgr.toErase ≠ [] → 0 < S'.server.workerMgr.clearThreadsSemaphore := by
  cases h with
  | cleaner =>
      show (IOWorkerMgr.waitForClearing _).toErase ≠ [] → 0 < (IOWorkerMgr.waitForClearing _).clearThreadsSemaphore
      unfold IOWorkerMgr.waitForClearing
      split
      · exact hpermits
      · exact fun hwait => absurd rfl hwait
  | silent | connect => exact hpermits
  | call jx a closeFails w e k b σ hw hmove hcall hhandle =>
      have htends := (Server.handle_effect hhandle).tends (by rintro rfl; cases hmove) (by rintro rfl; cases hmove)
      intro hwait
      change 0 < σ.workerMgr.clearThreadsSemaphore
      rcases htends.permits with ⟨hsame, hcount⟩ | ⟨-, -, hcount⟩
      · rw [hcount]
        exact hpermits (hsame ▸ hwait)
      · omega

theorem Turn.finishFlag (h : Turn S ev S') (hflag : S.server.workerMgr.finishFlag = true) :
    S'.server.workerMgr.finishFlag = true := by
  cases h with
  | cleaner =>
      exact (IOWorkerMgr.waitForClearing_finishFlag _).trans hflag
  | silent | connect => exact hflag
  | call jx a closeFails w e k b σ hw hmove hcall hhandle =>
      exact ((Server.handle_effect hhandle).tends (by rintro rfl; cases hmove) (by rintro rfl; cases hmove)).finishFlag
        hflag

/-- The accepting worker keeps its role while its thread is in its loop. -/
theorem Closing.gate_turn (h : Closing S) (hcrew : Crewed S) (htidy : ∀ ix w, S.threads ix = some w → w.Tidy)
    (hturn : Turn S ev S') : ∀ ix w', S'.threads ix = some w' → w'.kind = .connect → Looping w' →
      S'.server.workerMgr.roles.find? ix = some .servingProxy := by
  intro ix w' hw' hconnect hloop
  rcases hturn.thread hw' with ⟨hw, hother⟩ | ⟨a, closeFails, w, act, b, rfl, hw, hmove, hcall, rfl, hact⟩ |
    ⟨-, -, fd, rfl⟩
  · have hold := h.gate ix w' hw hconnect hloop
    rcases hturn.effect with hsame | ⟨e, b, hcall, heff⟩
    · rwa [hsame]
    · rwa [heff.roles_other (fun hown => ?_) (hcrew.known ix w' hw)]
      obtain ⟨a, closeFails, hev⟩ := hturn.owner hcall hown
      exact hother a closeFails hev
  · have hkind : w.kind = .connect := (hmove.fixed b).2.symm.trans hconnect
    have hold := h.gate ix w hw hkind (hmove.looping b hloop)
    rcases hturn.server with ⟨-, hsame⟩ | ⟨e, b', hsome, hhandle⟩
    · rwa [hsame]
    have he : act.call? = some e := hcall.symm.trans hsome
    have heff := Server.handle_effect (hact e he)
    rw [heff.roles_kept (hcrew.known ix w hw) ?_ ?_ ?_]
    · exact hold
    · -- it has no messages
      rintro side rfl
      cases hmove with
      | offerIntro msg rest _ _ hmsg =>
          rw [(htidy ix w hw).connect hkind] at hmsg
          cases hmsg
      | _ => cases he
    · rintro n card rfl
      cases hmove with
      | offerTrick msg rest _ _ _ hmsg =>
          rw [(htidy ix w hw).connect hkind] at hmsg
          cases hmsg
      | _ => cases he
    · -- an exit would have been granted
      rintro errs hasWork rfl
      obtain rfl := heff.proxy_granted hold
      rcases hmove.allowed he with hlast | hdone
      · exact hloop.1 hlast
      · exact hloop.2 hdone
  · cases hconnect

/-- **Somebody is there** until the cleaner has seen that nobody is. -/
theorem Closing.remains_turn (h : Closing S) (hcrew : Crewed S) (hguard : ¬ Hampers S ev)
    (hturn : Turn S ev S') (hexit' : S'.server.exiting = true) (hgoing : S'.server.workerMgr.exitFlag = false) :
    ∃ ix, ix ∈ S'.server.workerMgr.toErase ∨ S'.server.workerMgr.Registered ix := by
  rcases hturn.server with ⟨-, hsame⟩ | ⟨e, b, hcall, hhandle⟩
  · rw [hsame] at hexit' hgoing ⊢
    exact h.remains hexit' hgoing
  have heff := Server.handle_effect hhandle
  cases hexit : S.server.exiting with
  | false =>
      -- the worker whose call ends the server is there, or has just been handed over
      obtain ⟨-, ⟨n, card, ix, rfl⟩ | ⟨errs, ix, hasWork, rfl, herr | hwait⟩⟩ := heff.finalizes hexit hexit'
      · obtain ⟨a, closeFails, rfl⟩ := hturn.owner hcall rfl
        obtain ⟨w, act, hw, hmove, he⟩ := callOf_eq_some hcall
        have hoffer : w.stage = .offer := by
          cases hmove with
          | offerTrick _ _ _ _ hstage => exact hstage
          | _ => cases he
        obtain ⟨hreg, hwait⟩ := hcrew.present ix w hw (by simp [Looping, hoffer])
        exact ⟨ix, .inr (heff.registered hreg (hcrew.known ix w hw) hwait)⟩
      · obtain ⟨a, closeFails, rfl⟩ := hturn.owner hcall rfl
        obtain ⟨w, act, hw, hmove, he⟩ := callOf_eq_some hcall
        have herrs : .internal ∈ w.errs := by
          cases hmove with
          | pollExit | corruptedExit | leaveExit | lastExit =>
              obtain ⟨rfl, -⟩ := Server.Call.grandExitCallback.inj (Option.some.inj he)
              exact herr
          | _ => cases he
        have hdone : w.stage ≠ .done := fun hdone => by
          have hmem := hmove.successor true
          rw [hdone] at hmem
          cases hmem
        by_cases hlast : w.stage = .last
        · -- it would end without being handed over
          refine absurd (.inr (.inr (.inl ?_))) hguard
          simp only [LeftBehind, hw]
          refine ⟨hlast, fun hgo => ?_⟩
          unfold Server.ExitGranted at hgo
          split at hgo
          case h_2 hrole => exact h.clean ix w hw hrole herrs
          all_goals simp [herrs] at hgo
        · obtain ⟨hreg, hwait⟩ := hcrew.present ix w hw ⟨hlast, hdone⟩
          exact ⟨ix, .inr (heff.registered hreg (hcrew.known ix w hw) hwait)⟩
      · exact ⟨ix, .inl hwait⟩
  | true =>
      by_cases hclear : e = .waitForClearing
      · subst hclear
        have hserver : S'.server = { S.server with workerMgr := S.server.workerMgr.waitForClearing } :=
          (congrArg Prod.snd (Except.ok.inj hhandle)).symm
        rw [hserver] at hgoing ⊢
        revert hgoing
        unfold IOWorkerMgr.waitForClearing
        split
        · exact fun hgoing => h.remains hexit hgoing
        · -- with the flag set it finds a worker
          intro hgoing
          simp only [h.finishing hexit, Bool.true_and] at hgoing
          obtain ⟨⟨ix, q⟩, hmem⟩ := List.exists_mem_of_ne_nil _ (List.isEmpty_eq_false_iff.mp hgoing)
          exact ⟨ix, .inr (Option.isSome_iff_exists.mpr ⟨q, (UnorderedMap.mem_entries_iff _ ix q).mp hmem⟩)⟩
      · have hnew : e ≠ .forwardConnection := by
          rintro rfl
          exact hguard (.inl ⟨hexit, hcall⟩)
        have htends := heff.tends hnew hclear
        obtain ⟨ix, hix⟩ := h.remains hexit (htends.exitFlag.symm.trans hgoing)
        by_cases hwait : ix ∈ S.server.workerMgr.toErase
        · exact ⟨ix, .inl (htends.toErase_subset hwait)⟩
        · have hreg := hix.resolve_left hwait
          exact ⟨ix, .inr (heff.registered hreg (hcrew.bounded ix hreg) hwait)⟩

/-- **Every thread in its loop** has its order, and the byte of the order if it will be in `poll`. -/
theorem Closing.summoned_turn (h : Closing S) (hcrew : Crewed S) (hcrew' : Crewed S') (hguard : ¬ Hampers S ev)
    (hturn : Turn S ev S') (hexit' : S'.server.exiting = true) : ∀ ix w', S'.threads ix = some w' → Looping w' →
      S'.server.workerMgr.Ordered ix ∧ (w'.Awaits → 0 < S'.server.workerMgr.unread ix) := by
  intro ix w' hw' hloop
  cases hexit : S.server.exiting with
  | false =>
      rcases hturn.effect with hsame | ⟨e, b, hcall, heff⟩
      · rw [hsame, hexit] at hexit'
        cases hexit'
      · -- the call that ends the server orders everyone who is registered and not handed over
        obtain ⟨⟨τ, hfin, hrunning⟩, -⟩ := heff.finalizes hexit hexit'
        obtain ⟨hreg, hwait⟩ := hcrew'.present ix w' hw' hloop
        obtain ⟨hordered, hwoken⟩ := (hfin.summons hrunning).2 ix hreg hwait
        exact ⟨hordered, fun _ => hwoken⟩
  | true =>
      -- afterwards an order is not taken back, and its byte is only read by the worker's own thread
      have hkept : ∀ w, S.threads ix = some w → Looping w → (w'.Awaits → w.Awaits ∧ S.callOf ev ≠ some (.handlePipe ix)) →
          S'.server.workerMgr.Ordered ix ∧ (w'.Awaits → 0 < S'.server.workerMgr.unread ix) := by
        intro w hw hold hawaits
        obtain ⟨hordered, hwoken⟩ := h.summoned hexit ix w hw hold
        refine ⟨hturn.ordered hcrew hw hold hordered, fun hnext => ?_⟩
        obtain ⟨hbefore, hpipe⟩ := hawaits hnext
        exact (hwoken hbefore).trans_le (hturn.unread (hcrew.known ix w hw) hpipe)
      rcases hturn.thread hw' with ⟨hw, hother⟩ | ⟨a, closeFails, w, act, b, rfl, hw, hmove, hcall, rfl, hact⟩ |
        ⟨-, hcall, -⟩
      · refine hkept w' hw hloop fun hnext => ⟨hnext, fun hpipe => ?_⟩
        obtain ⟨a, closeFails, hev⟩ := hturn.owner hpipe rfl
        exact hother a closeFails hev
      · have hold := hmove.looping b hloop
        refine hkept w hw hold fun hnext => ?_
        rw [hcall]
        -- a thread that goes back to `poll` past its order has been refused its exit
        refine hmove.awaits (h.summoned hexit ix w hw hold).1 (fun errs hasWork he => ?_) hnext
        refine (Server.handle_effect (hact _ he)).exit_granted hexit ?_
        by_contra hrefused
        exact hguard (.inr (.inl ⟨_, hcall.trans he, hexit, hrefused⟩))
      · exact absurd (.inl ⟨hexit, hcall⟩) hguard

/-- A thread that ends leaves its worker to the cleaner. -/
theorem Closing.collected_turn (h : Closing S) (hcrew : Crewed S) (hleft : ¬ LeftBehind S ev) (hturn : Turn S ev S') :
    ∀ ix w', S'.threads ix = some w' → w'.stage = .done → S'.Collected ix := by
  intro ix w' hw' hdone
  rcases hturn.thread hw' with ⟨hw, hother⟩ | ⟨a, closeFails, w, act, b, rfl, hw, hmove, hcall, rfl, hact⟩ |
    ⟨-, -, fd, rfl⟩
  · exact hturn.collected (hcrew.known ix w' hw) hother (h.collected ix w' hw hdone)
  · have hlast := hmove.ended b hdone
    cases hmove with
    | lastExit =>
        refine ((Server.handle_effect (hact _ rfl)).exit (hcrew.retired ix)).mpr ?_
        by_contra hrefused
        exact hleft (by simp [LeftBehind, hw, hlast, hrefused])
    | _ => simp_all
  · cases hdone

/-- A worker that is handed over has no internal error. -/
theorem Closing.clean_turn (h : Closing S) (hcrew : Crewed S) (hturn : Turn S ev S') : ∀ ix w', S'.threads ix = some w' →
    S'.server.workerMgr.roles.find? ix = some .shutdown → .internal ∉ w'.errs := by
  intro ix w' hw' hrole
  rcases hturn.thread hw' with ⟨hw, hother⟩ | ⟨a, closeFails, w, act, b, rfl, hw, hmove, hcall, rfl, hact⟩ |
    ⟨-, -, fd, rfl⟩
  · refine h.clean ix w' hw ?_
    rcases hturn.effect with hsame | ⟨e, b, hcall, heff⟩
    · rwa [← hsame]
    · rwa [← heff.roles_other (fun hown => ?_) (hcrew.known ix w' hw)]
      obtain ⟨a, closeFails, hev⟩ := hturn.owner hcall hown
      exact hother a closeFails hev
  · have hown : ∀ errs hasWork, act.call? = some (.grandExitCallback errs ix hasWork) → b = true ∨ w.stage = .last →
        .internal ∉ errs → .internal ∉ (act.next b).errs := by
      intro errs hasWork he hgone hclean
      cases hmove with
      | pollExit hstage | corruptedExit hstage | leaveExit hstage =>
          obtain rfl : b = true := hgone.resolve_right (by simp [hstage])
          obtain ⟨rfl, -⟩ := Server.Call.grandExitCallback.inj (Option.some.inj he)
          exact hclean
      | lastExit =>
          obtain ⟨rfl, -⟩ := Server.Call.grandExitCallback.inj (Option.some.inj he)
          exact hclean
      | _ => cases he
    by_cases hlast : w.stage = .last
    · cases hmove with
      | lastExit =>
          rcases (Server.handle_effect (hact _ rfl)).exit_clean hrole with hold | hclean
          · exact h.clean ix w hw hold
          · exact hown _ _ rfl (.inr hlast) hclean
      | _ => simp_all
    · -- a thread in its loop does not have this role, and gets it only when it is let go
      have hdone : w.stage ≠ .done := fun hdone => by
        have hmem := hmove.successor b
        rw [hdone] at hmem
        cases hmem
      obtain ⟨hreg, hwait⟩ := hcrew.present ix w hw ⟨hlast, hdone⟩
      have hbefore : S.server.workerMgr.roles.find? ix ≠ some .shutdown := fun hold =>
        (hcrew.retired ix hold).elim hwait fun hgone => hgone hreg
      rcases hturn.server with ⟨-, hsame⟩ | ⟨e, b', hsome, hhandle⟩
      · exact absurd (hsame ▸ hrole) hbefore
      have he : act.call? = some e := hcall.symm.trans hsome
      have heff := Server.handle_effect (hact e he)
      have hmem := (heff.shutdown hrole).resolve_left hbefore
      obtain ⟨errs, hasWork, rfl, rfl⟩ := (heff.toErase hmem).resolve_left hwait
      exact hown errs hasWork he (.inl rfl) ((heff.exit_clean hrole).resolve_left hbefore)
  · exact List.not_mem_nil

/-- **Every step but these** keeps this. -/
theorem Closing.step (h : Closing S) (hcrew : Crewed S) (hbook : Server.SeatBook S.server)
    (htidy : ∀ ix w, S.threads ix = some w → w.Tidy) (hguard : ¬ Hampers S ev) (hstep : step S ev = some S') :
    Closing S' := by
  have hturn := step_turn hstep
  constructor
  case manned => exact hturn.manned h.manned
  case gate => exact h.gate_turn hcrew htidy hturn
  case parting =>
    intro ix w' hw' hconnect
    rcases hturn.thread hw' with ⟨hw, -⟩ | ⟨a, closeFails, -, -, -, rfl, -⟩ | ⟨-, -, fd, rfl⟩
    · exact h.parting ix w' hw hconnect
    · obtain ⟨w, act, b, hw, hact, hnext, hcalls⟩ := own_turn hstep
      obtain rfl := Option.some.inj (hnext.symm.trans hw')
      have hkind := (turn_move hact).fixed b |>.2.symm.trans hconnect
      refine (h.parting ix w hw hkind).turn hkind (htidy ix w hw) hact fun errs hasWork hlast he => ?_
      have hloop : Looping w := ⟨hlast, fun hdone => by simp [IOWorker.turn, hdone] at hact⟩
      exact (Server.handle_effect (hcalls _ he)).proxy_granted (h.gate ix w hw hkind hloop)
    · cases hconnect
  case collected => exact h.collected_turn hcrew (fun hleft => hguard (.inr (.inr (.inl hleft)))) hturn
  case clean => exact h.clean_turn hcrew hturn
  case permits => exact hturn.permits h.permits
  case finishing =>
    intro hexit'
    rcases hturn.effect with hsame | ⟨e, b, hcall, heff⟩
    · rw [hsame] at hexit' ⊢
      exact h.finishing hexit'
    cases hexit : S.server.exiting with
    | false =>
        obtain ⟨⟨τ, hfin, hrunning⟩, -⟩ := heff.finalizes hexit hexit'
        exact (hfin.summons hrunning).1
    | true => exact hturn.finishFlag (h.finishing hexit)
  case remains => exact h.remains_turn hcrew hguard hturn
  case summoned => exact h.summoned_turn hcrew (hcrew.turn hbook hturn) hguard hturn

/-- **Somebody can go on** until the server has ended. -/
theorem Closing.goes_on (h : Closing S) (hcrew : Crewed S) (hbook : Server.SeatBook S.server)
    (hexit : S.server.exiting = true)
    (hanswers : ∀ ev e, S.callOf ev = some e → ∃ b σ', S.server.handle e = .ok (b, σ')) :
    S.Ended ∨ ∃ ev S', S.Moves ev ∧ S.fails ev = false ∧ S.step ev = some S' := by
  by_cases hall : ∀ ix w, S.threads ix = some w → w.stage = .done
  · cases hgoing : S.server.workerMgr.exitFlag with
    | true => exact .inl ⟨hgoing, hall⟩
    | false =>
        -- somebody is there, whose thread has ended; so the worker waits for the cleaner
        obtain ⟨ix, hix⟩ := h.remains hexit hgoing
        have hknown : ix < S.server.workerMgr.nextIx := hix.elim (hbook.waiting ix) (hcrew.bounded ix)
        obtain ⟨w, hw⟩ := Option.isSome_iff_exists.mp (h.manned ix hknown)
        have hover := (h.collected ix w hw (hall ix w hw)).1
        have hwait : ix ∈ S.server.workerMgr.toErase :=
          hix.elim id fun hreg => hover.resolve_right fun hgone => hgone hreg
        exact .inr ⟨.cleaner, _, ⟨hgoing, h.permits (List.ne_nil_of_mem hwait)⟩, rfl, rfl⟩
  · push Not at hall
    obtain ⟨ix, w, hw, hdone⟩ := hall
    obtain ⟨a, hfine, hsome⟩ := exists_turn S.server ix hdone
      (fun hpoll => (h.summoned hexit ix w hw (by simp [Looping, hpoll])).2 (.inl (by simp [hpoll])))
      (fun hsocket hconnect => by
        by_contra hclosed
        have hmem := (h.parting ix w hw hconnect (by simpa using hclosed)).2
        simp [hsocket, partingStages] at hmem)
    obtain ⟨act, hact⟩ := Option.isSome_iff_exists.mp hsome
    have haction : S.action ix a false = some act := by
      rw [action, hw, Option.bind_some]
      exact hact
    obtain ⟨S', hS'⟩ := step_of_action haction fun e => hanswers _ e
    exact .inr ⟨.worker ix a false, S', trivial, by simp [System.fails, hw, hfine], hS'⟩

end Step

/-- There are no more than thirteen tricks to tell a player about. -/
theorem takenInRound_le {scenario : GameScenario} {timeout tcpListenSock : Int} {evs : List Event} {S : System}
    (h : run scenario timeout tcpListenSock evs = some S) : S.server.game.takenInRound.length ≤ 13 := by
  obtain ⟨G, hmirrors, -⟩ := Server.run_counted (run_server h)
  have hsize := hmirrors.hand_size .N
  have hthirteen : TRICKS_PER_ROUND = 13 := rfl
  rw [hmirrors.game.takenInRound, List.length_map]
  omega

/-- The server is exiting, after a run without the steps that hold the end up. -/
def Exiting (S₀ S : System) : Prop :=
  ∃ evs, exec step S₀ evs = some S ∧ Guarded step (fun S ev => ¬ Hampers S ev) S₀ evs ∧ S.server.exiting = true

/-- The length of a card of trick `n`, which has the cards of one value. -/
def cardLength (n : Nat) : Nat := if n = 9 then 3 else 2

/-- The lengths of the messages that a worker finds in its queue when its player has put a card to trick `n` as the
`k`-th one, from zero on: the trick before, or the deal, and the prompt. -/
def mailLengths (n k : Nat) : List Nat :=
  [if n = 1 then 35 else 8 + (toStringNat (n - 1)).length + 4 * cardLength (n - 1),
    7 + (toStringNat n).length + k * cardLength n]

/-- The player of worker `ix`, who puts to every trick as the `ix`-th one, puts the card of a value. -/
def putsValue (ix : Nat) (color : Color) (v : CardValue) : List Event :=
  settles ix (mailLengths (v.trueVal - 1) (ix - 1)) ++
    hears ix (String.ofList (SendJob.trick [⟨v, color⟩] (v.trueVal - 1)).body) ++ goes ix 1

/-- Four players play the only round. -/
def wholeGame : List Event :=
  accepts [11, 12, 13, 14] ++ speaks 1 "IAMN" ++ speaks 2 "IAME" ++ speaks 3 "IAMS" ++ speaks 4 "IAMW" ++
    CardValue.ranks.flatMap fun v => putsValue 1 .colorC v ++ putsValue 2 .colorD v ++ putsValue 3 .colorH v ++
      putsValue 4 .colorS v

/-- A player's thread sends the last trick, the score and the total, and goes. -/
def departs (ix : Nat) : List Event := goes ix 6 ++ [18, 16, 16].map (fun n => .worker ix (.sent n) false) ++ goes ix 7

/-- The four threads go, then the accepting one, and the cleaner takes its turn. -/
def closesDown : List Event :=
  [1, 2, 3, 4].flatMap departs ++ .worker 0 .acceptBlocked false :: goes 0 8 ++ [.cleaner]

end System

end Kierki
