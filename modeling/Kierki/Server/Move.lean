import Kierki.Server.IOWorker

/-!
# What one turn of a thread can do

`Move σ ix w act` lists the turns that the thread `w` of worker `ix` can take beside the server `σ`, one
constructor for each path through a stage.  `turn_move` says that the list is complete; the invariants
of the threads are proved by cases on it and never unfold a stage.
-/

namespace Kierki

namespace IOWorker

/-- The turns of a thread. -/
inductive Move (σ : Server) (ix : Nat) (w : IOWorker) : Action → Prop
  | started (pipeFails mainFails : Bool) (hstage : w.stage = .start) :
      Move σ ix w (.silent ((w.fcntl pipeFails).fcntl mainFails).loop)
  | pollExpired (hstage : w.stage = .poll) (htime : 0 ≤ w.nextTimeout) :
      Move σ ix w (.silent ({ w with nextTimeout := -1 }.goto .expired))
  | pollFailed (closeFails : Bool) (hstage : w.stage = .poll) :
      Move σ ix w (.silent
        ((({ w with nextTimeout := -1 }.addErr w.mainSockErr).closeConn closeFails).goto .pollFailed))
  | pollReady (hstage : w.stage = .poll) (hready : 0 < σ.workerMgr.unread ix ∨ 0 ≤ w.watchedFd) :
      Move σ ix w (.silent ({ w with nextTimeout := -1 }.goto .pipe))
  | expired (hstage : w.stage = .expired) :
      Move σ ix w (.call (.handleTimeout ix) fun _ =>
        { w with nextTimeout := -1, responseTimeout := false }.loop)
  | pollExit (hstage : w.stage = .pollFailed) : Move σ ix w (w.exit ix w.loop)
  | piped (hstage : w.stage = .pipe) :
      Move σ ix w (.call (.handlePipe ix) fun _ => w.goto .socket)
  | pipeFailed (hstage : w.stage = .pipe) :
      Move σ ix w (.silent ({ w.addErr .internal with terminate := true }.goto .last))
  | quitting (hstage : w.stage = .socket) (hquit : w.wantToToQuit = true) :
      Move σ ix w (.silent (w.goto .fetch))
  | noRecv (hstage : w.stage = .socket) (hquit : w.wantToToQuit = false)
      (hwhy : w.closedFd = true ∨ w.pendingIncoming ≠ []) :
      Move σ ix w (.silent (w.goto .offer))
  | received (c : Char) (closeFails : Bool) (hstage : w.stage = .socket)
      (hquit : w.wantToToQuit = false) (hopen : w.closedFd = false)
      (hnone : w.pendingIncoming = []) : Move σ ix w (.silent (w.receive c closeFails))
  | recvBlocked (hstage : w.stage = .socket) (hquit : w.wantToToQuit = false)
      (hopen : w.closedFd = false) (hnone : w.pendingIncoming = []) :
      Move σ ix w (.silent (w.goto .offer))
  | recvEnd (closeFails : Bool) (hstage : w.stage = .socket) (hquit : w.wantToToQuit = false)
      (hopen : w.closedFd = false) (hnone : w.pendingIncoming = []) :
      Move σ ix w (.silent ((w.closeConn closeFails).goto .offer))
  | recvFailed (errType : IOErrClass) (closeFails : Bool) (hstage : w.stage = .socket)
      (hquit : w.wantToToQuit = false) (hopen : w.closedFd = false)
      (hnone : w.pendingIncoming = []) (herr : errType ≠ .internal) :
      Move σ ix w (.silent (((w.addErr errType).closeConn closeFails).goto .offer))
  | acceptBlocked (hstage : w.stage = .socket) (hkind : w.kind = .connect) :
      Move σ ix w (.silent (w.goto .fetch))
  | accepted (fd : Int) (hstage : w.stage = .socket) (hkind : w.kind = .connect)
      (hopen : w.closedFd = false) : Move σ ix w (.connect fd { w with stage := .fetch })
  | offerDone (hstage : w.stage = .offer) (hnone : w.pendingIncoming = []) :
      Move σ ix w (.silent (w.goto .corrupted))
  | offerInvalid (msg : List Char) (rest : List (List Char)) (hstage : w.stage = .offer)
      (hmsg : w.pendingIncoming = msg :: rest) (hreq : request msg = some .invalid) :
      Move σ ix w (.call (.handleWrongMessage ix) (w.dismissed rest))
  | offerIntro (msg : List Char) (rest : List (List Char)) (side : Side)
      (hstage : w.stage = .offer) (hmsg : w.pendingIncoming = msg :: rest)
      (hreq : request msg = some (.intro side)) :
      Move σ ix w (.call (.playerIntro side ix) (w.answered rest))
  | offerTrick (msg : List Char) (rest : List (List Char)) (trickNo : Nat) (card : Card)
      (hstage : w.stage = .offer) (hmsg : w.pendingIncoming = msg :: rest)
      (hreq : request msg = some (.trick trickNo card)) :
      Move σ ix w (.call (.playerTricked trickNo card ix) (w.answered rest))
  | sound (hstage : w.stage = .corrupted) (hpeer : w.peerCorrupted = false) :
      Move σ ix w (.silent (w.goto .fetch))
  | corruptedExit (hstage : w.stage = .corrupted) (hpeer : w.peerCorrupted = true) :
      Move σ ix w (w.exit ix (w.goto .fetch))
  | fetched (job : SendJob) (rest : List SendJob)
      (hstage : w.stage = .fetch ∨ w.stage = .fetchLast) (hjobs : (jobQueue σ ix).jobsPending = job :: rest) :
      Move σ ix w (.call (.popNextJob ix) fun _ =>
        { w with pendingOutgoing := w.pendingOutgoing ++ [job] })
  | fetchDone (hstage : w.stage = .fetch) (hjobs : (jobQueue σ ix).jobsPending = []) :
      Move σ ix w (.silent (w.goto (if w.closedFd then w.behindSend else .send)))
  | fetchLastDone (hstage : w.stage = .fetchLast) (hjobs : (jobQueue σ ix).jobsPending = []) :
      Move σ ix w (.silent (w.goto (if w.closedFd then .close else .sendLast)))
  | sendDone (hstage : w.stage = .send) (hnone : w.pendingOutgoing = []) :
      Move σ ix w (.silent (w.goto w.behindSend))
  | sendLastDone (hstage : w.stage = .sendLast) (hnone : w.pendingOutgoing = []) :
      Move σ ix w (.silent (w.goto .close))
  | sent (job : SendJob) (rest : List SendJob) (n : Nat) (closeFails : Bool)
      (hstage : w.stage = .send) (hout : w.pendingOutgoing = job :: rest)
      (hlen : n ≤ job.genMsg.length) :
      Move σ ix w (.call .execMutexed fun run =>
        if run then w.transmit job rest n closeFails else w.goto w.behindSend)
  | sentLast (job : SendJob) (rest : List SendJob) (n : Nat) (closeFails : Bool)
      (hstage : w.stage = .sendLast) (hout : w.pendingOutgoing = job :: rest)
      (hlen : n ≤ job.genMsg.length) :
      Move σ ix w (.call .execMutexed fun run =>
        if run then w.transmit job rest n closeFails else w.goto .close)
  | ordered (hstage : w.stage = .order) (hkill : (jobQueue σ ix).killFlag = true) :
      Move σ ix w (.silent (w.goto .fetchLast))
  | unordered (hstage : w.stage = .order) (hkill : (jobQueue σ ix).killFlag = false) :
      Move σ ix w (.silent (w.goto .leave))
  | closed (closeFails : Bool) (hstage : w.stage = .close) :
      Move σ ix w (.silent ((w.closeConn closeFails).goto .leave))
  | staying (hstage : w.stage = .leave) (hquit : w.wantToToQuit = false) :
      Move σ ix w (.silent (w.goto .deadline))
  | leaveExit (hstage : w.stage = .leave) (hquit : w.wantToToQuit = true) :
      Move σ ix w (w.exit ix (w.goto .deadline))
  | looped (t : Int) (hstage : w.stage = .deadline) :
      Move σ ix w (.silent { w with nextTimeout := t }.loop)
  | overdue (hstage : w.stage = .deadline) :
      Move σ ix w (.call (.handleTimeout ix) fun _ => { w with nextTimeout := -1 }.loop)
  | lastExit (hstage : w.stage = .last) :
      Move σ ix w (.call (.grandExitCallback w.errs ix w.hasWork) fun _ => w.goto .done)

variable {σ : Server} {ix : Nat} {w : IOWorker} {a : Answer} {closeFails : Bool} {act : Action}

theorem turnPoll_move (hstage : w.stage = .poll)
    (h : w.turnPoll (σ.workerMgr.unread ix) closeFails a = some act) : Move σ ix w act := by
  cases a with
  | pollExpired =>
      by_cases htime : 0 ≤ w.nextTimeout
      · obtain rfl := Option.some.inj ((if_pos htime).symm.trans h)
        exact .pollExpired hstage htime
      · exact absurd ((if_neg htime).symm.trans h) (by simp)
  | pollFailed =>
      obtain rfl := Option.some.inj h
      exact .pollFailed closeFails hstage
  | pollReady =>
      by_cases hready : 0 < σ.workerMgr.unread ix ∨ 0 ≤ w.watchedFd
      · obtain rfl := Option.some.inj ((if_pos hready).symm.trans h)
        exact .pollReady hstage hready
      · exact absurd ((if_neg hready).symm.trans h) (by simp)
  | _ => cases h

theorem turnRecv_move (hstage : w.stage = .socket) (h : w.turnRecv closeFails a = some act) :
    Move σ ix w act := by
  unfold turnRecv at h
  by_cases hquit : w.wantToToQuit = true
  · rw [if_pos hquit] at h
    obtain rfl := Option.some.inj h
    exact .quitting hstage hquit
  rw [if_neg hquit] at h
  by_cases hskip : w.closedFd = true ∨ w.pendingIncoming ≠ []
  · rw [if_pos (by simpa using hskip)] at h
    obtain rfl := Option.some.inj h
    exact .noRecv hstage (by simpa using hquit) hskip
  rw [if_neg (by simpa using hskip)] at h
  have hwant : w.wantToToQuit = false := by simpa using hquit
  obtain ⟨hopen, hnone⟩ : w.closedFd = false ∧ w.pendingIncoming = [] := by simpa using hskip
  cases a with
  | recv c =>
      obtain rfl := Option.some.inj h
      exact .received c closeFails hstage hwant hopen hnone
  | recvBlocked =>
      obtain rfl := Option.some.inj h
      exact .recvBlocked hstage hwant hopen hnone
  | recvEnd =>
      obtain rfl := Option.some.inj h
      exact .recvEnd closeFails hstage hwant hopen hnone
  | recvFailed errType =>
      by_cases herr : errType = .internal
      · exact absurd ((if_pos herr).symm.trans h) (by simp)
      · obtain rfl := Option.some.inj ((if_neg herr).symm.trans h)
        exact .recvFailed errType closeFails hstage hwant hopen hnone herr
  | _ => cases h

/-- The accepting worker does not read from its socket, and goes on to its jobs. -/
theorem turnAccept_next (h : w.turnAccept a = some act) (b : Bool) : act.next b = w.goto .fetch := by
  unfold turnAccept at h
  split at h
  · split at h
    · cases h
    · obtain rfl := Option.some.inj h
      rfl
  · split at h
    · cases h
    · obtain rfl := Option.some.inj h
      rfl
  · cases h

theorem turnAccept_move (hstage : w.stage = .socket) (hkind : w.kind = .connect)
    (h : w.turnAccept a = some act) : Move σ ix w act := by
  cases a with
  | accepted fd =>
      by_cases hclosed : w.closedFd = true
      · exact absurd ((if_pos hclosed).symm.trans h) (by simp)
      · obtain rfl := Option.some.inj ((if_neg hclosed).symm.trans h)
        exact .accepted fd hstage hkind (by simpa using hclosed)
  | acceptBlocked =>
      by_cases hclosed : w.closedFd = true
      · exact absurd ((if_pos hclosed).symm.trans h) (by simp)
      · obtain rfl := Option.some.inj ((if_neg hclosed).symm.trans h)
        exact .acceptBlocked hstage hkind
  | _ => cases h

theorem turnOffer_move (hstage : w.stage = .offer) (h : w.turnOffer ix = some act) :
    Move σ ix w act := by
  unfold turnOffer at h
  split at h
  case h_1 hmsg =>
      obtain rfl := Option.some.inj h
      exact .offerDone hstage hmsg
  case h_2 msg rest hmsg =>
      split at h
      case h_1 => cases h
      case h_2 hreq =>
          obtain rfl := Option.some.inj h
          exact .offerInvalid msg rest hstage hmsg hreq
      case h_3 side hreq =>
          obtain rfl := Option.some.inj h
          exact .offerIntro msg rest side hstage hmsg hreq
      case h_4 trickNo card hreq =>
          obtain rfl := Option.some.inj h
          exact .offerTrick msg rest trickNo card hstage hmsg hreq

theorem turnCorrupted_move (hstage : w.stage = .corrupted) : Move σ ix w (w.turnCorrupted ix) := by
  unfold turnCorrupted
  split
  · exact .corruptedExit hstage ‹_›
  · exact .sound hstage (by simpa using ‹¬ w.peerCorrupted = true›)

theorem turnFetch_cases (w : IOWorker) (ix : Nat) (jobs : List SendJob) (sending next : Stage) :
    (jobs = [] ∧ w.turnFetch ix jobs sending next =
        .silent (w.goto (if w.closedFd then next else sending))) ∨
      ∃ job rest, jobs = job :: rest ∧ w.turnFetch ix jobs sending next =
        .call (.popNextJob ix) fun _ => { w with pendingOutgoing := w.pendingOutgoing ++ [job] } := by
  cases jobs with
  | nil => exact .inl ⟨rfl, rfl⟩
  | cons job rest => exact .inr ⟨job, rest, rfl, rfl⟩

theorem turnSend_cases {next : Stage} (h : w.turnSend closeFails next a = some act) :
    (w.pendingOutgoing = [] ∧ act = .silent (w.goto next)) ∨
      ∃ job rest n, w.pendingOutgoing = job :: rest ∧ n ≤ job.genMsg.length ∧
        act = .call .execMutexed fun run =>
          if run then w.transmit job rest n closeFails else w.goto next := by
  unfold turnSend at h
  cases hout : w.pendingOutgoing with
  | nil =>
      rw [hout] at h
      exact .inl ⟨rfl, (Option.some.inj h).symm⟩
  | cons job rest =>
      rw [hout] at h
      cases a with
      | sent n =>
          by_cases hlen : n ≤ job.genMsg.length
          · exact .inr ⟨job, rest, n, rfl, hlen, (Option.some.inj ((if_pos hlen).symm.trans h)).symm⟩
          · exact absurd ((if_neg hlen).symm.trans h) (by simp)
      | _ => cases h

theorem turnDeadline_move (hstage : w.stage = .deadline) (h : w.turnDeadline ix a = some act) :
    Move σ ix w act := by
  unfold turnDeadline at h
  by_cases htime : w.nextTimeout ≠ -1
  · rw [if_pos htime] at h
    obtain rfl := Option.some.inj h
    exact .looped w.nextTimeout hstage
  · rw [if_neg htime] at h
    by_cases harmed : 0 < w.timeout ∧ w.responseTimeout = true
    · rw [if_pos harmed] at h
      cases a with
      | remaining ms =>
          by_cases hms : ms < 0
          · obtain rfl := Option.some.inj ((if_pos hms).symm.trans h)
            exact .overdue hstage
          · obtain rfl := Option.some.inj ((if_neg hms).symm.trans h)
            exact .looped ms hstage
      | _ => cases h
    · rw [if_neg harmed] at h
      obtain rfl := Option.some.inj h
      exact .looped (-1) hstage

/-- **Completeness of the list of turns.** -/
theorem turn_move (h : w.turn σ ix a closeFails = some act) : Move σ ix w act := by
  unfold turn at h
  cases hstage : w.stage <;> simp only [hstage] at h
  -- where the turn makes a system call, it takes the answers of this call only
  case start =>
      cases a with
      | fcntl pipeFails mainFails =>
          obtain rfl := Option.some.inj h
          exact .started pipeFails mainFails hstage
      | _ => cases h
  case poll => exact turnPoll_move hstage h
  case expired =>
      obtain rfl := Option.some.inj h
      exact .expired hstage
  case pollFailed =>
      obtain rfl := Option.some.inj h
      exact .pollExit hstage
  case pipe =>
      cases a with
      | pipeEmpty =>
          obtain rfl := Option.some.inj h
          exact .piped hstage
      | pipeFailed =>
          obtain rfl := Option.some.inj h
          exact .pipeFailed hstage
      | _ => cases h
  case socket =>
      cases hkind : w.kind <;> simp only [hkind] at h
      case handler => exact turnRecv_move hstage h
      case connect => exact turnAccept_move hstage hkind h
  case offer => exact turnOffer_move hstage h
  case corrupted =>
      obtain rfl := Option.some.inj h
      exact turnCorrupted_move hstage
  case fetch =>
      obtain rfl := Option.some.inj h
      rcases turnFetch_cases w ix (jobQueue σ ix).jobsPending .send w.behindSend with
        ⟨hjobs, heq⟩ | ⟨job, rest, hjobs, heq⟩ <;> rw [heq]
      · exact .fetchDone hstage hjobs
      · exact .fetched job rest (.inl hstage) hjobs
  case send =>
      rcases turnSend_cases h with ⟨hnone, rfl⟩ | ⟨job, rest, n, hout, hlen, rfl⟩
      · exact .sendDone hstage hnone
      · exact .sent job rest n closeFails hstage hout hlen
  case order =>
      obtain rfl := Option.some.inj h
      split
      · exact .ordered hstage ‹_›
      · exact .unordered hstage (by simpa using ‹¬ (jobQueue σ ix).killFlag = true›)
  case fetchLast =>
      obtain rfl := Option.some.inj h
      rcases turnFetch_cases w ix (jobQueue σ ix).jobsPending .sendLast .close with
        ⟨hjobs, heq⟩ | ⟨job, rest, hjobs, heq⟩ <;> rw [heq]
      · exact .fetchLastDone hstage hjobs
      · exact .fetched job rest (.inr hstage) hjobs
  case sendLast =>
      rcases turnSend_cases h with ⟨hnone, rfl⟩ | ⟨job, rest, n, hout, hlen, rfl⟩
      · exact .sendLastDone hstage hnone
      · exact .sentLast job rest n closeFails hstage hout hlen
  case close =>
      obtain rfl := Option.some.inj h
      exact .closed closeFails hstage
  case leave =>
      obtain rfl := Option.some.inj h
      unfold turnLeave
      split
      · exact .leaveExit hstage ‹_›
      · exact .staying hstage (by simpa using ‹¬ w.wantToToQuit = true›)
  case deadline => exact turnDeadline_move hstage h
  case last =>
      obtain rfl := Option.some.inj h
      exact .lastExit hstage
  case done => cases h

/-- The stages that can follow a stage: the control flow of `IOWorker::run`. -/
def successors : Stage → List Stage
  | .start | .expired | .pollFailed | .deadline => [.poll, .last]
  | .poll => [.expired, .pollFailed, .pipe]
  | .pipe => [.socket, .last]
  | .socket => [.socket, .offer, .fetch]
  | .offer => [.offer, .corrupted]
  | .corrupted => [.fetch, .last]
  | .fetch => [.fetch, .send, .order, .last]
  | .send => [.send, .order, .last]
  | .order => [.fetchLast, .leave]
  | .fetchLast => [.fetchLast, .sendLast, .close]
  | .sendLast => [.sendLast, .close]
  | .close => [.leave]
  | .leave => [.deadline, .last]
  | .last => [.done]
  | .done => []

theorem loop_mem (w : IOWorker) : w.loop.stage ∈ [Stage.poll, .last] := by
  rw [loop_stage]
  split <;> simp

theorem behindSend_mem (w : IOWorker) : w.behindSend ∈ [Stage.order, .last] := by
  unfold behindSend
  split <;> simp

/-- A turn follows the control flow, whatever its call answers. -/
theorem Move.successor (h : Move σ ix w act) (b : Bool) :
    (act.next b).stage ∈ successors w.stage := by
  cases h with
  | started pipeFails mainFails hstage => rw [hstage]; exact loop_mem _
  | expired hstage | looped t hstage | overdue hstage => rw [hstage]; exact loop_mem _
  | pollExit hstage =>
      rw [hstage]
      cases b
      · exact loop_mem w
      · simp [successors, Action.next, exit]
  | corruptedExit hstage | leaveExit hstage =>
      rw [hstage]
      cases b <;> simp [successors, Action.next, exit]
  | received c closeFails hstage =>
      have hreceive := w.receive_stage c closeFails
      rw [hstage] at hreceive ⊢
      rcases hreceive with heq | heq <;> simp [successors, Action.next, heq]
  | offerIntro msg rest side hstage | offerTrick msg rest trickNo card hstage =>
      cases b <;> simp [successors, Action.next, hstage]
  | fetched job rest hstage => rcases hstage with hstage | hstage <;> simp [successors, Action.next, hstage]
  -- behind the last job `send` is skipped when there is nothing to send
  | fetchDone hstage =>
      have hbehind := w.behindSend_mem
      rw [hstage, Action.next, goto_stage]
      split
      · exact List.mem_of_mem_drop (i := 2) hbehind
      · simp [successors]
  | fetchLastDone hstage =>
      rw [hstage, Action.next, goto_stage]
      split <;> simp [successors]
  | sendDone hstage =>
      rw [hstage]
      exact List.mem_cons_of_mem _ w.behindSend_mem
  | sent job rest n closeFails hstage =>
      rw [hstage]
      cases b
      · exact List.mem_cons_of_mem _ w.behindSend_mem
      · simp [successors, Action.next, hstage]
  | sentLast job rest n closeFails hstage => cases b <;> simp [successors, Action.next, hstage]
  | _ => simp_all [successors, Action.next]

end IOWorker

end Kierki
