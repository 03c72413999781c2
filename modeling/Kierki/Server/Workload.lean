import Kierki.Server.Faultless

/-!
# How much the threads have left to do

While the server is exiting every thread comes nearer to its end with each turn.  `IOWorker.load` says how far it
is: the stages up to the end, the characters it can still read, the messages it can still offer and the jobs it has
still to send.  A message is dear, since the server may answer it with eighteen jobs, and a job in a queue costs two
turns, one to take it and one to send it (`Server.backlog`).

`Move.load` is the price of a turn for the thread that takes it, `Effect.backlog_le` what the call does to the
queues, and `Effect.tends` what it does to the registers of the manager.
-/

namespace Kierki

open Execution

namespace Server

open IOWorkerMgr

/-- How many jobs wait in the queues. -/
def backlog (σ : Server) : Nat :=
  ∑ ix ∈ Finset.range σ.workerMgr.nextIx, (IOWorker.jobQueue σ ix).jobsPending.length

/-- How many jobs a call takes out of a queue. -/
def Call.pops : Call → Nat
  | .popNextJob _ => 1
  | _ => 0

/-- How many messages the answer to a call can have, while the server is exiting. -/
def Call.replies : Call → Nat
  | .playerIntro .. | .playerTricked .. => 18
  | _ => 0

section Registers

/-- What a call leaves of the manager's registers, if nobody comes and the cleaner does not take its turn. -/
structure Tends (m m' : IOWorkerMgr) : Prop where
  nextIx : m'.nextIx = m.nextIx
  exitFlag : m'.exitFlag = m.exitFlag
  finishFlag : m.finishFlag = true → m'.finishFlag = true
  permits : (m'.toErase = m.toErase ∧ m'.clearThreadsSemaphore = m.clearThreadsSemaphore) ∨
    ∃ ix, m'.toErase = m.toErase ++ [ix] ∧ m'.clearThreadsSemaphore = m.clearThreadsSemaphore + 1

theorem Tends.refl (m : IOWorkerMgr) : Tends m m := ⟨rfl, rfl, id, .inl ⟨rfl, rfl⟩⟩

theorem tends_withRole (m : IOWorkerMgr) (ix : Nat) (role : WorkerStatus) : Tends m (m.withRole ix role) :=
  ⟨rfl, rfl, id, .inl ⟨rfl, rfl⟩⟩

theorem tends_eraseWorker (m : IOWorkerMgr) (ix : Nat) : Tends m (m.eraseWorker ix) := by
  unfold eraseWorker
  split
  · exact Tends.refl m
  · exact ⟨rfl, rfl, id, .inr ⟨ix, rfl, rfl⟩⟩

theorem tends_erased (σ : Server) (ix : Nat) : Tends σ.workerMgr (σ.erased ix).workerMgr := by
  have herase := tends_eraseWorker (σ.workerMgr.withRole ix .shutdown) ix
  exact ⟨herase.nextIx, herase.exitFlag, herase.finishFlag, herase.permits⟩

variable {σ σ' : Server} {e : Call} {b : Bool}

theorem Tends.posted {m m₁ m₂ : IOWorkerMgr} (h : Tends m m₁) {out : List (Nat × SendJob)}
    (hpost : Posted m₁ m₂ out) : Tends m m₂ where
  nextIx := hpost.nextIx.trans h.nextIx
  exitFlag := hpost.exitFlag.trans h.exitFlag
  finishFlag hflag := hpost.finishFlag.trans (h.finishFlag hflag)
  permits := by
    rw [hpost.toErase, hpost.semaphore]
    exact h.permits

theorem Tends.finalized {m : IOWorkerMgr} (h : Tends m σ.workerMgr) (hfin : Finalized σ σ') :
    Tends m σ'.workerMgr := by
  cases hfin with
  | again => exact h
  | now _ mgr hpost =>
      have hrelease : Tends m σ.workerMgr.releaseCleaner := ⟨h.nextIx, h.exitFlag, fun _ => rfl, h.permits⟩
      exact hrelease.posted hpost

theorem Accepted.tends {side : Side} {card : Card} (h : Accepted σ side card σ') :
    Tends σ.workerMgr σ'.workerMgr := by
  have hmail : ∀ {mgr : IOWorkerMgr} {out : List (Nat × SendJob)}, Posted σ.workerMgr mgr out →
      Tends σ.workerMgr mgr := fun hpost => (Tends.refl _).posted hpost
  cases h with
  | inTrick g mgr out _ _ hpost | trickDone g₀ g mgr out _ _ _ _ hpost
  | roundDone g₀ g₁ g r mgr out _ _ _ _ _ _ _ hpost => exact hmail hpost
  | gameDone g₀ g₁ g mgr out σ' _ _ _ _ _ _ hpost _ hfin => exact (hmail hpost).finalized hfin

/-- **What every such call keeps** of the registers. -/
theorem Effect.tends (h : Effect σ e b σ') (hnew : e ≠ .forwardConnection) (hclear : e ≠ .waitForClearing) :
    Tends σ.workerMgr σ'.workerMgr := by
  cases h with
  | introAgain side ix role mgr _ _ _ hpost => exact (tends_withRole _ ix .cleanup).posted hpost
  | introBusy side ix jx mgr _ _ hpost => exact (tends_withRole _ ix .cleanupUnknown).posted hpost
  | introLobby side ix => exact tends_withRole _ ix .servingActive
  | introFirstDeal side ix mgr out _ _ _ _ hpost | introRejoin side ix deal mgr out _ _ _ _ hpost
  | introResume side ix deal mgr out _ _ _ _ hpost => exact (tends_withRole _ ix .servingActive).posted hpost
  | trickUnknown n card ix mgr _ _ hpost => exact (tends_withRole _ ix .cleanupUnknown).posted hpost
  | trickProxy n card ix σ' _ _ hfin => exact (tends_withRole _ ix .cleanupUnknown).finalized hfin
  | trickRejected n card ix jx side mgr _ _ _ _ hpost => exact (Tends.refl _).posted hpost
  | trickAccepted n card ix side σ' _ _ _ hacc => exact hacc.tends
  | timeoutKill ix mgr _ _ hpost | timeoutPrompt ix mgr _ _ _ _ hpost | wrongKill ix mgr _ hpost =>
      exact (Tends.refl _).posted hpost
  | exitInternal errs ix hasWork σ' _ hfin =>
      have hcode : Tends σ.workerMgr ({ σ with exitCode := 1 } : Server).workerMgr := Tends.refl _
      exact hcode.finalized hfin
  | exitUnknown errs ix | exitErased errs ix => exact tends_erased σ ix
  | exitLeave errs ix => exact tends_withRole _ ix .cleanup
  | exitLeaveErased errs ix hasWork s => exact tends_erased (σ.unseated s ix) ix
  | exitProxy errs ix hasWork σ' _ _ hfin => exact (tends_erased σ ix).finalized hfin
  | connected => exact absurd rfl hnew
  | cleared => exact absurd rfl hclear
  | popped | piped => exact ⟨rfl, rfl, id, .inl ⟨rfl, rfl⟩⟩
  | _ => exact Tends.refl _

end Registers

section Backlog

variable {σ σ' : Server} {e : Call} {b : Bool} {out : List (Nat × SendJob)}

theorem Addressed.length_eq {jobs : List (Option Nat × SendJob)} (h : Addressed jobs out) :
    out.length = jobs.length := by
  rw [h, List.length_map]

/-- Every message goes into one inbox. -/
theorem sum_inbox_le (out : List (Nat × SendJob)) (n : Nat) :
    ∑ ix ∈ Finset.range n, (inbox out ix).length ≤ out.length := by
  induction out with
  | nil => simp
  | cons p out ih =>
      have hsplit : ∀ ix, (inbox (p :: out) ix).length = (if ix = p.1 then 1 else 0) + (inbox out ix).length := by
        intro ix
        by_cases hix : ix = p.1
        · simp [inbox, hix, Nat.add_comm]
        · simp [inbox, hix, Ne.symm hix]
      have hone : ∑ ix ∈ Finset.range n, (if ix = p.1 then 1 else 0) ≤ 1 := by
        rw [Finset.sum_ite_eq' (Finset.range n)]
        split <;> omega
      rw [Finset.sum_congr rfl fun ix _ => hsplit ix, Finset.sum_add_distrib, List.length_cons]
      omega

/-- The messages behind an accepted card: four times the trick, two scores and the deal, and the prompt. -/
theorem Accepted.mail_le {side : Side} {card : Card} (h : Accepted σ side card σ') :
    ∃ out, σ'.workerMgr.sent = σ.workerMgr.sent ++ out ∧ out.length ≤ 17 := by
  cases h with
  | inTrick g mgr out _ _ hpost haddr =>
      refine ⟨out, hpost.sent, ?_⟩
      rw [haddr.length_eq, promptJobs, List.length_singleton]
      omega
  | trickDone g₀ g mgr out _ _ _ _ hpost haddr =>
      refine ⟨out, hpost.sent, ?_⟩
      simp [haddr.length_eq, toAll, Side.sides_, promptJobs]
  | roundDone g₀ g₁ g r mgr out _ _ _ _ _ _ _ hpost haddr =>
      refine ⟨out, hpost.sent, ?_⟩
      simp [haddr.length_eq, toAll, scoreJobs, dealJobs, Side.sides_, promptJobs]
  | gameDone g₀ g₁ g mgr out σ' _ _ _ _ _ _ hpost haddr hfin =>
      refine ⟨out, hfin.frame.2.2.trans hpost.sent, ?_⟩
      simp [haddr.length_eq, toAll, scoreJobs, Side.sides_]

/-- **How much a call sends** while the server is exiting. -/
theorem Effect.mail_le (h : Effect σ e b σ') (hexit : σ.exiting = true)
    (htaken : σ.game.takenInRound.length ≤ 13) :
    ∃ out, σ'.workerMgr.sent = σ.workerMgr.sent ++ out ∧ out.length ≤ e.replies := by
  have hnothing : σ'.workerMgr.sent = σ.workerMgr.sent →
      ∃ out, σ'.workerMgr.sent = σ.workerMgr.sent ++ out ∧ out.length ≤ e.replies := fun hsame =>
    ⟨[], by rw [hsame, List.append_nil], Nat.zero_le _⟩
  have hquiet : ∀ {m : IOWorkerMgr}, Posted m σ'.workerMgr [] → m.sent = σ.workerMgr.sent →
      ∃ out, σ'.workerMgr.sent = σ.workerMgr.sent ++ out ∧ out.length ≤ e.replies := fun hpost hsame =>
    hnothing (by rw [hpost.sent, List.append_nil, hsame])
  cases h with
  | introAgain side ix role mgr _ _ _ hpost => exact hquiet hpost rfl
  | introBusy side ix jx mgr _ _ hpost | trickRejected n card ix jx side mgr _ _ _ _ hpost =>
      refine ⟨_, hpost.sent, ?_⟩
      simp [Call.replies]
  -- at most a deal with thirteen tricks and a prompt, or what an accepted card sends
  | introFirstDeal side ix mgr out _ _ _ _ hpost haddr =>
      refine ⟨out, hpost.sent, ?_⟩
      simp [haddr.length_eq, dealJobs, promptJobs, Side.sides_, Call.replies]
  | introRejoin side ix deal mgr out _ _ _ _ hpost haddr =>
      refine ⟨out, hpost.sent, ?_⟩
      rw [haddr.length_eq, List.length_cons, List.length_map, Call.replies]
      omega
  | introResume side ix deal mgr out _ _ _ _ hpost haddr =>
      refine ⟨out, hpost.sent, ?_⟩
      rw [haddr.length_eq, List.length_cons, List.length_append, List.length_map, promptJobs, List.length_singleton,
        Call.replies]
      omega
  | trickUnknown n card ix mgr _ _ hpost => exact hquiet hpost rfl
  | trickAccepted n card ix side σ' _ _ _ hacc =>
      obtain ⟨out, hsent, hlen⟩ := hacc.mail_le
      exact ⟨out, hsent, hlen.trans (Nat.le_succ 17)⟩
  -- while the server is exiting a timeout does nothing
  | timeoutKill ix mgr hgo | timeoutPrompt ix mgr hgo =>
      rw [hexit] at hgo
      cases hgo
  | wrongKill ix mgr _ hpost => exact hquiet hpost rfl
  | trickProxy n card ix σ' _ _ hfin | exitInternal errs ix hasWork σ' _ hfin => exact hnothing hfin.frame.2.2
  | exitUnknown errs ix | exitErased errs ix => exact hnothing (erased_sent σ ix)
  | exitLeaveErased errs ix hasWork s => exact hnothing (erased_sent (σ.unseated s ix) ix)
  | exitProxy errs ix hasWork σ' _ _ hfin => exact hnothing (hfin.frame.2.2.trans (erased_sent σ ix))
  | cleared =>
      exact hnothing (waitForClearing_sent _)
  | _ => exact hnothing rfl

/-- The queue of a worker behind a call that is neither its own `popNextJob` nor the cleaner's turn. -/
theorem Effect.jobQueue_length (h : Effect σ e b σ') (hnew : e ≠ .forwardConnection) {ix : Nat}
    (hpop : e ≠ .popNextJob ix) (hclear : e ≠ .waitForClearing)
    (hsent : σ'.workerMgr.sent = σ.workerMgr.sent ++ out) : (IOWorker.jobQueue σ' ix).jobsPending.length ≤
      (IOWorker.jobQueue σ ix).jobsPending.length + (inbox out ix).length := by
  obtain ⟨msgs, hmsgs⟩ := h.appended (fun hconnect => absurd hconnect hnew) hpop hclear
  have hinbox := hmsgs.inbox
  rw [hsent, inbox_append] at hinbox
  obtain rfl := List.append_cancel_left hinbox
  unfold IOWorker.jobQueue
  cases hq : σ.workerMgr.workers.find? ix with
  | none =>
      have hgone := (hmsgs.absent (by simp [Registered, hq])).1
      simp only [Registered, Option.not_isSome_iff_eq_none] at hgone
      simp [hgone, JobQueue.empty]
  | some q =>
      obtain ⟨q', hq', hjobs⟩ := hmsgs.queue q hq
      simp [hq', hjobs]

/-- **What a call does to the queues.** -/
theorem Effect.backlog_le (h : Effect σ e b σ') (hnew : e ≠ .forwardConnection)
    (hpop : ∀ ix, e = .popNextJob ix → ix < σ.workerMgr.nextIx)
    (hsent : σ'.workerMgr.sent = σ.workerMgr.sent ++ out) :
    σ'.backlog + e.pops ≤ σ.backlog + out.length := by
  by_cases hclear : e = .waitForClearing
  · subst hclear
    cases h with
    | cleared =>
        -- a queue goes with its worker, or stays as it is
        refine Nat.le_trans ?_ (Nat.le_add_right _ _)
        show (∑ ix ∈ Finset.range σ.workerMgr.waitForClearing.nextIx, _) ≤ _
        rw [waitForClearing_nextIx]
        refine Finset.sum_le_sum fun ix _ => ?_
        simp only [IOWorker.jobQueue]
        rcases waitForClearing_find? σ.workerMgr ix with hsame | ⟨-, hnone⟩
        · rw [hsame]
        · simp [hnone, JobQueue.empty]
  have htends := h.tends hnew hclear
  rw [backlog, backlog, htends.nextIx]
  by_cases hown : ∃ ix, e = .popNextJob ix
  · obtain ⟨ix, rfl⟩ := hown
    have hix : ix ∈ Finset.range σ.workerMgr.nextIx := Finset.mem_range.mpr (hpop ix rfl)
    cases h with
    | popped _ q job rest hq hjobs =>
        rw [← Finset.add_sum_erase _ _ hix, ← Finset.add_sum_erase _ _ hix]
        have hothers : ∀ jx ∈ (Finset.range σ.workerMgr.nextIx).erase ix,
            (((σ.workerMgr.workers.insert ix { q with jobsPending := rest }).find? jx).getD
              .empty).jobsPending.length = (IOWorker.jobQueue σ jx).jobsPending.length := by
          intro jx hjx
          rw [UnorderedMap.find?_insert, if_neg (Finset.ne_of_mem_erase hjx)]
          rfl
        simp only [IOWorker.jobQueue, Call.pops]
        rw [Finset.sum_congr rfl hothers]
        simp only [IOWorker.jobQueue, UnorderedMap.find?_insert, if_true, hq, Option.getD_some, hjobs,
          List.length_cons]
        omega
  · have hother : ∀ ix, e ≠ .popNextJob ix := fun ix heq => hown ⟨ix, heq⟩
    have hnone : e.pops = 0 := by
      cases e with
      | popNextJob ix => exact absurd rfl (hother ix)
      | _ => rfl
    rw [hnone, Nat.add_zero]
    calc ∑ ix ∈ Finset.range σ.workerMgr.nextIx, (IOWorker.jobQueue σ' ix).jobsPending.length
        ≤ ∑ ix ∈ Finset.range σ.workerMgr.nextIx,
            ((IOWorker.jobQueue σ ix).jobsPending.length + (inbox out ix).length) :=
          Finset.sum_le_sum fun ix _ => h.jobQueue_length hnew (hother ix) hclear hsent
      _ ≤ _ := by
          rw [Finset.sum_add_distrib]
          exact Nat.add_le_add_left (sum_inbox_le out _) _

end Backlog

end Server

namespace IOWorker

/-- What the socket still has for a thread: room for characters, and a message more than there is now. -/
def unheard (w : IOWorker) : Nat := 37 * (w.pendingIncoming.length + 1) + (MAX_PARSE_LEN + 1 - w.nextIncoming.length)

/-- How far it is from a stage to the end, for a thread that has a kill order. -/
def distance (w : IOWorker) : Nat :=
  match w.stage with
  | .done => 0
  | .last => 1
  | .pollFailed => 2
  | .close => 3
  | .sendLast => 4
  | .fetchLast => 5
  | .order => 6
  | .send => 7
  | .fetch => 8
  | .corrupted => 9
  | .offer => 10 + 37 * w.pendingIncoming.length
  | .socket => 11 + w.unheard
  | .pipe => 12 + w.unheard
  | .poll => 13 + w.unheard + if 0 ≤ w.nextTimeout then 2 else 0
  | .expired => 14 + w.unheard
  | .start | .deadline => 16 + w.unheard
  | .leave => if w.wantToToQuit then 2 else 17 + w.unheard

/-- The turns that a thread has left, apart from its queue. -/
def load (w : IOWorker) : Nat := w.distance + w.pendingOutgoing.length

variable {σ : Server} {ix : Nat} {w : IOWorker} {act : Action} {b : Bool}

theorem distance_loop_le (w : IOWorker) : w.loop.distance ≤ 13 + w.unheard + if 0 ≤ w.nextTimeout then 2 else 0 := by
  by_cases hend : w.terminate = true
  · have hlast : w.loop.distance = 1 := by simp [distance, loop, hend]
    omega
  · have hpoll : w.loop.distance = 13 + w.unheard + if 0 ≤ w.nextTimeout then 2 else 0 := by
      simp [distance, loop, hend, unheard, goto]
    exact hpoll.le

theorem load_behindSend_le (w : IOWorker) : (w.goto w.behindSend).load ≤ 6 + w.pendingOutgoing.length := by
  unfold behindSend
  split <;> simp [load, distance, goto]

/-- A character more, or a message. -/
theorem load_receive_lt (hstage : w.stage = .socket) (hnone : w.pendingIncoming = []) (c : Char) (closeFails : Bool) :
    (w.receive c closeFails).load < w.load := by
  have hold : w.load = 11 + (37 + (MAX_PARSE_LEN + 1 - w.nextIncoming.length)) + w.pendingOutgoing.length := by
    simp [load, distance, hstage, unheard, hnone]
  rw [hold]
  unfold receive
  dsimp only
  split
  · simp only [load, distance, goto, closeConn, hnone, List.length_nil]
    omega
  · rename_i hshort
    rw [List.length_append, List.length_singleton] at hshort
    split
    · simp only [load, distance, goto, hnone, List.nil_append, List.length_singleton]
      omega
    · simp only [load, distance, hstage, unheard, hnone, List.length_nil, List.length_append, List.length_singleton]
      omega

/-- A job is sent, or the connection is closed for it. -/
theorem load_transmit_lt (hstage : w.stage = .send ∨ w.stage = .sendLast) {job : SendJob} {rest : List SendJob}
    (hout : w.pendingOutgoing = job :: rest) (n : Nat) (closeFails : Bool) :
    (w.transmit job rest n closeFails).load < w.load := by
  unfold transmit
  split <;> rcases hstage with hstage | hstage <;>
    simp [load, distance, hstage, hout, closeConn, addErr]

/-- **The price of a turn** of a thread that has a kill order, when its exit and its sends are granted: it comes
nearer to its end, and pays for the answer to a message. -/
theorem Move.load_le (h : w.Move σ ix act) (hordered : w.stage = .order → σ.workerMgr.Ordered ix)
    (hnew : act.call? ≠ some .forwardConnection)
    (hexit : ∀ errs hasWork, act.call? = some (.grandExitCallback errs ix hasWork) → b = true ∨ w.stage = .last)
    (hgate : act.call? = some .execMutexed → b = true) :
    (act.next b).load + 2 * act.call?.elim 0 Server.Call.replies + 1 ≤ w.load + 2 * act.call?.elim 0 Server.Call.pops := by
  have hgone : ∀ {refused : IOWorker}, act = w.exit ix refused → 2 ≤ w.distance → w.stage ≠ .last →
      (act.next b).load + 2 * act.call?.elim 0 Server.Call.replies + 1 ≤
        w.load + 2 * act.call?.elim 0 Server.Call.pops := by
    rintro refused rfl hfar hlast
    obtain rfl : b = true := (hexit _ _ rfl).resolve_right hlast
    have hnext : ((w.exit ix refused).next true).load = 1 + w.pendingOutgoing.length := rfl
    rw [hnext, load]
    simp only [exit, Action.call?, Option.elim_some, Server.Call.replies, Server.Call.pops]
    omega
  have hbehind := load_behindSend_le w
  have hloop : ∀ v : IOWorker, v.unheard = w.unheard → v.pendingOutgoing = w.pendingOutgoing →
      v.loop.load ≤ 15 + w.unheard + w.pendingOutgoing.length ∧
        (v.nextTimeout = -1 → v.loop.load ≤ 13 + w.unheard + w.pendingOutgoing.length) := by
    intro v hunheard hout
    have hle := distance_loop_le v
    rw [hunheard] at hle
    rw [load, show v.loop.pendingOutgoing = w.pendingOutgoing from hout]
    constructor
    · split at hle <;> omega
    · intro hnever
      rw [if_neg (by omega)] at hle
      omega
  have hread : 37 ≤ w.unheard := by
    rw [unheard]
    omega
  -- a silent turn has nothing to pay for
  have hsilent : ∀ {w' : IOWorker}, act = .silent w' → w'.load + 1 ≤ w.load → (act.next b).load +
      2 * act.call?.elim 0 Server.Call.replies + 1 ≤ w.load + 2 * act.call?.elim 0 Server.Call.pops := by
    rintro w' rfl hless
    exact hless
  cases h with
  | started pipeFails mainFails hstage =>
      obtain ⟨hless, -⟩ := hloop ((w.fcntl pipeFails).fcntl mainFails)
        (by cases pipeFails <;> cases mainFails <;> rfl) (by cases pipeFails <;> cases mainFails <;> rfl)
      have hfar : w.load = 16 + w.unheard + w.pendingOutgoing.length := by rw [load, distance, hstage]
      exact hsilent rfl (by omega)
  | pollExpired hstage htime =>
      refine hsilent rfl ?_
      simp only [load, distance, hstage, goto, unheard, htime, if_true]
      omega
  | pollFailed closeFails hstage | pollReady hstage =>
      refine hsilent rfl ?_
      simp only [load, distance, hstage, goto, unheard, closeConn, addErr]
      omega
  | expired hstage =>
      have hless := (hloop { w with nextTimeout := -1, responseTimeout := false } rfl rfl).2 rfl
      have hfar : w.load = 14 + w.unheard + w.pendingOutgoing.length := by rw [load, distance, hstage]
      simp only [Action.next, Action.call?, Option.elim_some, Server.Call.replies, Server.Call.pops]
      omega
  | overdue hstage =>
      have hless := (hloop { w with nextTimeout := -1 } rfl rfl).1
      have hfar : w.load = 16 + w.unheard + w.pendingOutgoing.length := by rw [load, distance, hstage]
      simp only [Action.next, Action.call?, Option.elim_some, Server.Call.replies, Server.Call.pops]
      omega
  | looped t hstage =>
      have hless := (hloop { w with nextTimeout := t } rfl rfl).1
      have hfar : w.load = 16 + w.unheard + w.pendingOutgoing.length := by rw [load, distance, hstage]
      exact hsilent rfl (by omega)
  | pollExit hstage => exact hgone rfl (by simp [distance, hstage]) (by simp [hstage])
  | corruptedExit hstage => exact hgone rfl (by simp [distance, hstage]) (by simp [hstage])
  | leaveExit hstage hquit => exact hgone rfl (by simp [distance, hstage, hquit]) (by simp [hstage])
  | piped hstage =>
      simp only [Action.next, Action.call?, Option.elim_some, Server.Call.replies, Server.Call.pops, load, distance,
        hstage, goto, unheard]
      omega
  | pipeFailed hstage =>
      refine hsilent rfl ?_
      simp only [load, distance, hstage, goto, addErr]
      omega
  | quitting hstage | noRecv hstage | recvBlocked hstage | acceptBlocked hstage =>
      refine hsilent rfl ?_
      simp only [load, distance, hstage, goto, unheard]
      omega
  | received c closeFails hstage _ _ hnone => exact hsilent rfl (load_receive_lt hstage hnone c closeFails)
  | recvEnd closeFails hstage | recvFailed errType closeFails hstage =>
      refine hsilent rfl ?_
      simp only [load, distance, hstage, goto, unheard, closeConn, addErr]
      omega
  | accepted => exact absurd rfl hnew
  | offerDone hstage | sound hstage =>
      refine hsilent rfl ?_
      simp only [load, distance, hstage, goto]
      omega
  | offerInvalid msg rest hstage hmsg =>
      cases b <;> simp only [Action.next, Action.call?, Option.elim_some, Server.Call.replies, Server.Call.pops, load,
        distance, hstage, goto, dismissed, hmsg, List.length_cons, if_true, Bool.false_eq_true, if_false] <;> omega
  | offerIntro msg rest side hstage hmsg | offerTrick msg rest n card hstage hmsg =>
      cases b <;> simp only [Action.next, Action.call?, Option.elim_some, Server.Call.replies, Server.Call.pops, load,
        distance, hstage, goto, answered, hmsg, List.length_cons, if_true, Bool.false_eq_true, if_false] <;> omega
  | fetched job rest hstage =>
      rcases hstage with hstage | hstage <;>
        simp only [Action.next, Action.call?, Option.elim_some, Server.Call.replies, Server.Call.pops, load, distance,
          hstage, List.length_append, List.length_singleton] <;> omega
  | fetchDone hstage =>
      have hfar : w.load = 8 + w.pendingOutgoing.length := by rw [load, distance, hstage]
      refine hsilent rfl ?_
      split
      · omega
      · have hsend : (w.goto .send).load = 7 + w.pendingOutgoing.length := rfl
        omega
  | fetchLastDone hstage =>
      refine hsilent rfl ?_
      split <;> simp only [load, distance, hstage, goto] <;> omega
  | sendDone hstage hnone =>
      refine hsilent rfl (Nat.le_trans (Nat.succ_le_succ hbehind) ?_)
      simp only [load, distance, hstage]
      omega
  | sendLastDone hstage | ordered hstage | closed closeFails hstage =>
      refine hsilent rfl ?_
      simp only [load, distance, hstage, goto, closeConn, if_true]
      omega
  | sent job rest n closeFails hstage hout =>
      obtain rfl : b = true := hgate rfl
      exact load_transmit_lt (.inl hstage) hout n closeFails
  | sentLast job rest n closeFails hstage hout =>
      obtain rfl : b = true := hgate rfl
      exact load_transmit_lt (.inr hstage) hout n closeFails
  | unordered hstage hkill =>
      obtain ⟨q, hq, hflag⟩ := hordered hstage
      rw [jobQueue, hq, Option.getD_some, hflag] at hkill
      cases hkill
  | staying hstage hquit =>
      refine hsilent rfl ?_
      simp only [load, distance, hstage, goto, unheard, hquit, Bool.false_eq_true, if_false]
      omega
  | lastExit hstage =>
      simp only [Action.next, Action.call?, Option.elim_some, Server.Call.replies, Server.Call.pops, load, distance,
        hstage, goto]
      omega

end IOWorker

namespace Server

/-- An exit that is granted while the server is exiting is answered with yes. -/
theorem Effect.exit_granted {σ σ' : Server} {errs : List IOErrClass} {ix : Nat} {hasWork b : Bool}
    (h : Effect σ (.grandExitCallback errs ix hasWork) b σ') (hexit : σ.exiting = true)
    (hgo : ExitGranted σ errs ix hasWork) : b = true := by
  cases h with
  | exitLeave _ _ _ s _ hrole _ hlater =>
      simp only [ExitGranted, hrole] at hgo
      rcases hlater with hlater | ⟨-, hrunning⟩
      · rw [hgo.2.1] at hlater
        cases hlater
      · rw [hexit] at hrunning
        cases hrunning
  | exitRefused _ _ _ role _ hrole hclean hlater =>
      have hboth : hasWork = false ∧ σ.playersConnected = 4 := by
        rcases hclean with rfl | rfl <;> simp only [ExitGranted, hrole] at hgo <;> exact hgo.2
      rcases hlater with hlater | hlater
      · exact absurd hboth.2 hlater
      · rw [hboth.1] at hlater
        cases hlater
  | _ => rfl

end Server

namespace System

open IOWorker

/-- What the threads have left to do. -/
def burden (S : System) : Nat := ∑ ix ∈ Finset.range S.server.workerMgr.nextIx, (S.threads ix).elim 0 load

/-- What all have left to do: the threads, with the jobs that wait for them, and the cleaner, with its permits.  A
turn of a thread counts twice, since it may give the cleaner another permit. -/
def rank (S : System) : Nat := 2 * (S.burden + 2 * S.server.backlog) + S.server.workerMgr.clearThreadsSemaphore

/-- The cleaner is not blocked in `acquire`, and has not returned. -/
def Moves (S : System) : Event → Prop
  | .worker .. => True
  | .cleaner => S.server.workerMgr.exitFlag = false ∧ 0 < S.server.workerMgr.clearThreadsSemaphore

instance (S : System) : (ev : Event) → Decidable (Moves S ev)
  | .worker .. => inferInstanceAs (Decidable True)
  | .cleaner => inferInstanceAs (Decidable (_ ∧ _))

variable {S S' : System} {ev : Event}

/-- Only one thread takes a turn. -/
theorem burden_setThread {σ : Server} {ix : Nat} {w : IOWorker} (hw : S.threads ix = some w)
    (hix : ix < S.server.workerMgr.nextIx) (hnext : σ.workerMgr.nextIx = S.server.workerMgr.nextIx) (w' : IOWorker) :
    ({ S with server := σ }.setThread ix w').burden + w.load = S.burden + w'.load := by
  have hmem : ix ∈ Finset.range S.server.workerMgr.nextIx := Finset.mem_range.mpr hix
  have hothers : ∀ jx ∈ (Finset.range S.server.workerMgr.nextIx).erase ix,
      ((({ S with server := σ } : System).setThread ix w').threads jx).elim 0 load =
        (S.threads jx).elim 0 load := by
    intro jx hjx
    rw [setThread_of_ne _ _ (Finset.ne_of_mem_erase hjx)]
  rw [burden, burden, setThread_server, hnext, ← Finset.add_sum_erase _ _ hmem, ← Finset.add_sum_erase _ _ hmem,
    Finset.sum_congr rfl hothers, setThread_self, hw, Option.elim_some, Option.elim_some]
  omega

/-- **Descent.**  While the server is exiting, a turn brings the end nearer: every thread that is in its loop has its
kill order, nobody comes, and an exit is granted. -/
theorem rank_lt (hcrew : Crewed S) (hexit : S.server.exiting = true)
    (htaken : S.server.game.takenInRound.length ≤ 13)
    (hordered : ∀ ix w, S.threads ix = some w → Looping w → S.server.workerMgr.Ordered ix)
    (hnew : S.callOf ev ≠ some .forwardConnection)
    (hgo : ∀ errs ix hasWork, S.callOf ev = some (.grandExitCallback errs ix hasWork) →
      S.server.ExitGranted errs ix hasWork)
    (hmoves : S.Moves ev) (hstep : step S ev = some S') : S'.rank < S.rank := by
  cases step_turn hstep with
  | cleaner =>
      -- the cleaner uses up a permit
      obtain ⟨hgoing, hpermit⟩ := hmoves
      have heff : Server.Effect S.server .waitForClearing true
          { S.server with workerMgr := S.server.workerMgr.waitForClearing } := .cleared
      obtain ⟨out, hsent, hlen⟩ := heff.mail_le hexit htaken
      have hbacklog := heff.backlog_le (by simp) (by simp) hsent
      have hblock : ¬ (S.server.workerMgr.exitFlag = true ∨ S.server.workerMgr.clearThreadsSemaphore = 0) := by
        simp [hgoing, hpermit.ne']
      have htook : S.server.workerMgr.waitForClearing.clearThreadsSemaphore =
          S.server.workerMgr.clearThreadsSemaphore - 1 := by
        rw [IOWorkerMgr.waitForClearing, if_neg hblock]
      simp only [Server.Call.replies, Server.Call.pops] at hlen hbacklog
      simp only [rank, burden, IOWorkerMgr.waitForClearing_nextIx, htook]
      omega
  | silent ix a closeFails w w' hw hmove =>
      -- a silent turn brings its own thread nearer to the end, and leaves the others
      have hless := hmove.load_le (b := true)
        (fun hstage => hordered ix w hw (by simp [Looping, hstage])) (by simp [Action.call?]) (by simp [Action.call?])
        (by simp [Action.call?])
      have hburden : (S.setThread ix w').burden + w.load = S.burden + w'.load :=
        burden_setThread hw (hcrew.known ix w hw) rfl w'
      simp only [Action.next, Action.call?, Option.elim_none] at hless
      simp only [rank, setThread_server]
      omega
  | connect ix a closeFails w w' fd hw hmove hcall => exact absurd hcall hnew
  | call ix a closeFails w e k b σ hw hmove hcall hhandle =>
      have heff := Server.handle_effect hhandle
      have hknown := hcrew.known ix w hw
      have hclear : e ≠ .waitForClearing := by
        rintro rfl
        cases hmove
      have hnew' : e ≠ .forwardConnection := by
        rintro rfl
        exact hnew hcall
      -- a call may send, and may give a permit; its thread's load goes down by more
      have htends := heff.tends hnew' hclear
      obtain ⟨out, hsent, hlen⟩ := heff.mail_le hexit htaken
      have hbacklog := heff.backlog_le hnew' (fun jx hpop => by
        subst hpop
        exact (hmove.owner rfl rfl).symm ▸ hknown) hsent
      have hless := hmove.load_le (b := b) (fun hstage => hordered ix w hw (by simp [Looping, hstage]))
        (by simpa [Action.call?] using hnew')
        (fun errs hasWork he => by
          obtain rfl := Option.some.inj he
          exact .inl (heff.exit_granted hexit (hgo errs ix hasWork hcall)))
        (fun he => by
          obtain rfl := Option.some.inj he
          cases heff
          simp [Server.execMutexed, hexit])
      have hburden := burden_setThread hw hknown htends.nextIx (k b)
      have hsem : σ.workerMgr.clearThreadsSemaphore ≤ S.server.workerMgr.clearThreadsSemaphore + 1 := by
        rcases htends.permits with ⟨-, hsame⟩ | ⟨-, -, hmore⟩ <;> omega
      simp only [Action.next, Action.call?, Option.elim_some] at hless
      simp only [rank, setThread_server]
      omega

end System

end Kierki
