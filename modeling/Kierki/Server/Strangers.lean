import Kierki.Server.Seatless
import Kierki.Server.Ticks
import Kierki.Server.Transmission

/-!
# Threads without a seat

`Server.seatless_unnoticed` compares runs of calls; here the threads that make the calls are compared as
well.  In the second run the threads of the connections that never get a seat are not there, and the
accepting thread finds no connection where it accepted one of them.  Every other thread takes its turns in
both runs, with the same results of its system calls, and stands at the same place after each of them
(`Alike.turn`): it has read, parked, fetched and sent the same.
-/

namespace Kierki

open Execution

namespace Action

/-- The same turn under other indices. -/
def rename (f : Nat → Nat) : Action → Action
  | silent w => silent w
  | call e k => call (e.rename f) k
  | connect fd w => connect fd w

end Action

namespace IOWorker

section Rename

variable {σ τ : Server} {ix : Nat} {f : Nat → Nat} (w : IOWorker) (a : Answer) (closeFails : Bool)

theorem turnPoll_rename (unread : Nat) :
    w.turnPoll unread closeFails a = (w.turnPoll unread closeFails a).map (Action.rename f) := by
  unfold turnPoll
  cases a with
  | pollExpired | pollReady => dsimp only; split_ifs <;> rfl
  | _ => rfl

theorem turnRecv_rename : w.turnRecv closeFails a = (w.turnRecv closeFails a).map (Action.rename f) := by
  unfold turnRecv
  cases a with
  | recvFailed errType => dsimp only; split_ifs <;> rfl
  | _ => split_ifs <;> rfl

theorem turnAccept_rename : w.turnAccept a = (w.turnAccept a).map (Action.rename f) := by
  unfold turnAccept
  cases a with
  | accepted | acceptBlocked => dsimp only; split_ifs <;> rfl
  | _ => rfl

theorem turnOffer_rename : w.turnOffer (f ix) = (w.turnOffer ix).map (Action.rename f) := by
  unfold turnOffer
  cases w.pendingIncoming with
  | nil => rfl
  | cons msg rest =>
      dsimp only
      cases request msg with
      | none => rfl
      | some r => cases r <;> rfl

theorem turnCorrupted_rename : w.turnCorrupted (f ix) = (w.turnCorrupted ix).rename f := by
  unfold turnCorrupted
  split_ifs <;> rfl

theorem turnFetch_rename (jobs : List SendJob) (sending next : Stage) :
    w.turnFetch (f ix) jobs sending next = (w.turnFetch ix jobs sending next).rename f := by
  cases jobs <;> rfl

theorem turnSend_rename (next : Stage) :
    w.turnSend closeFails next a = (w.turnSend closeFails next a).map (Action.rename f) := by
  unfold turnSend
  cases w.pendingOutgoing with
  | nil => rfl
  | cons job rest =>
      cases a with
      | sent n => dsimp only; split_ifs <;> rfl
      | _ => rfl

theorem turnLeave_rename : w.turnLeave (f ix) = (w.turnLeave ix).rename f := by
  unfold turnLeave
  split_ifs <;> rfl

theorem turnDeadline_rename : w.turnDeadline (f ix) a = (w.turnDeadline ix a).map (Action.rename f) := by
  unfold turnDeadline
  cases a with
  | remaining ms => dsimp only; split_ifs <;> rfl
  | _ => split_ifs <;> rfl

/-- **A turn depends on the server by the unread bytes and the job queue of its worker.**  Where they are the
same under another index, the turn is the same, and its call names the other index. -/
theorem turn_rename (hunread : τ.workerMgr.unread (f ix) = σ.workerMgr.unread ix)
    (hqueue : w.Looping → jobQueue τ (f ix) = jobQueue σ ix) :
    w.turn τ (f ix) a closeFails = (w.turn σ ix a closeFails).map (Action.rename f) := by
  have hjobs : w.stage ≠ .last → w.stage ≠ .done → jobQueue τ (f ix) = jobQueue σ ix :=
    fun hlast hdone => hqueue ⟨hlast, hdone⟩
  unfold turn
  cases hstage : w.stage <;> simp only [hstage] at hjobs ⊢
  case start => cases a <;> rfl
  case poll =>
      rw [hunread]
      exact w.turnPoll_rename a closeFails _
  case pipe => cases a <;> rfl
  case socket =>
      cases w.kind
      · exact w.turnAccept_rename a
      · exact w.turnRecv_rename a closeFails
  case offer => exact w.turnOffer_rename
  case corrupted => exact congrArg some w.turnCorrupted_rename
  case fetch =>
      rw [hjobs (by simp) (by simp)]
      exact congrArg some (w.turnFetch_rename _ _ _)
  case send => exact w.turnSend_rename a closeFails _
  case order =>
      rw [hjobs (by simp) (by simp)]
      rfl
  case fetchLast =>
      rw [hjobs (by simp) (by simp)]
      exact congrArg some (w.turnFetch_rename _ _ _)
  case sendLast => exact w.turnSend_rename a closeFails _
  case leave => exact congrArg some w.turnLeave_rename
  case deadline => exact w.turnDeadline_rename a
  all_goals rfl

/-- Without a connection in the backlog, the accepting thread goes on as if it had handed one over. -/
theorem turn_acceptBlocked {fd : Int} {w' : IOWorker} (h : w.turn σ ix a closeFails = some (.connect fd w'))
    (jx : Nat) : w.turn τ jx .acceptBlocked closeFails = some (.silent w') := by
  cases turn_move h with
  | accepted fd hstage hkind hopen =>
      have hturn : w.turn τ jx .acceptBlocked closeFails = w.turnAccept .acceptBlocked := by
        simp only [turn, hstage, hkind]
      rw [hturn, turnAccept, if_neg (by simp [hopen])]
      rfl

end Rename

/-- A call is made by a worker for itself, or is the gate. -/
theorem Move.connection {σ : Server} {ix : Nat} {w : IOWorker} {e : Server.Call} {k : Bool → IOWorker}
    (h : w.Move σ ix (.call e k)) : e = .execMutexed ∨ ∀ nextIx, e.connection nextIx = some ix := by
  cases h with
  | sent | sentLast => exact .inl rfl
  | _ => exact .inr fun _ => rfl

end IOWorker

namespace System

section Turns

variable {keep : Nat → Bool} {S S' T : System} {ix : Nat}

/-- The system `T` is `S` without the threads that are not in `keep`. -/
structure Alike (keep : Nat → Bool) (S T : System) : Prop where
  server : Server.Alike keep S.server T.server
  threads : ∀ ix, keep ix = true → T.threads (rank keep ix) = S.threads ix
  only : ∀ jx w, T.threads jx = some w → ∃ ix, keep ix = true ∧ rank keep ix = jx

theorem Alike.withServer (h : Alike keep S T) {σ τ : Server} (hserver : Server.Alike keep σ τ) :
    Alike keep { S with server := σ } { T with server := τ } :=
  { h with server := hserver }

theorem Alike.withServer_left (h : Alike keep S T) {σ : Server} (hserver : Server.Alike keep σ T.server) :
    Alike keep { S with server := σ } T :=
  { h with server := hserver }

theorem Alike.setThread (h : Alike keep S T) (hk : keep ix = true) (w : IOWorker) :
    Alike keep (S.setThread ix w) (T.setThread (rank keep ix) w) := by
  refine { h with threads := fun jx hj => ?_, only := fun jx w' hw' => ?_ }
  · by_cases heq : jx = ix
    · rw [heq, setThread_self, setThread_self]
    · rw [setThread_of_ne S w heq, setThread_of_ne T w (mt (rank_inj hj hk).mp heq)]
      exact h.threads jx hj
  · by_cases heq : jx = rank keep ix
    · exact ⟨ix, hk, heq.symm⟩
    · rw [setThread_of_ne T w heq] at hw'
      exact h.only jx w' hw'

theorem Alike.setThread_left (h : Alike keep S T) (hk : keep ix = false) (w : IOWorker) :
    Alike keep (S.setThread ix w) T := by
  refine { h with threads := fun jx hj => ?_ }
  rw [setThread_of_ne S w (ne_of_keep hj hk)]
  exact h.threads jx hj

/-- The turn in the run without the other threads: the accepting thread does not find their connections. -/
def keptTurn (keep : Nat → Bool) (S : System) : Event → List Event
  | .cleaner => [.cleaner]
  | .worker ix a closeFails =>
      if keep ix then
        let stranger := S.callOf (.worker ix a closeFails) = some .forwardConnection ∧
          keep S.server.workerMgr.nextIx = false
        [.worker (rank keep ix) (if stranger then .acceptBlocked else a) closeFails]
      else []

/-- A kept thread is about to do the same in both runs. -/
theorem Alike.action (h : Alike keep S T) (hcrew : Crewed S) (hk : keep ix = true) (a : Answer)
    (closeFails : Bool) : T.action (rank keep ix) a closeFails =
      (S.action ix a closeFails).map (Action.rename (rank keep)) := by
  rw [System.action, System.action, h.threads ix hk]
  cases hw : S.threads ix with
  | none => rfl
  | some w =>
      refine w.turn_rename a closeFails (h.server.workerMgr.unread ix hk) fun hloop => ?_
      obtain ⟨q, hq⟩ := Option.isSome_iff_exists.mp (hcrew.present ix w hw hloop).1
      rw [IOWorker.jobQueue, IOWorker.jobQueue, hq, h.server.workerMgr.workers ix hk q hq]

theorem Alike.call (h : Alike keep S T) (hdoor : Server.Doorman S.server.workerMgr) (hk : keep ix = true)
    {e : Server.Call} {k : Bool → IOWorker} (hsafe : ¬ e.Failed)
    (hconn : (e.connection S.server.workerMgr.nextIx).all keep = true) (hcall : S.call ix e k = some S') :
    ∃ T', T.call (rank keep ix) (e.rename (rank keep)) k = some T' ∧ Alike keep S' T' := by
  obtain ⟨b, σ, hσ, rfl⟩ := call_eq_some hcall
  obtain ⟨⟨b', τ⟩, hτ, rfl, halike⟩ := h.server.kept hdoor hsafe hconn _ hσ
  refine ⟨({ T with server := τ }.setThread (rank keep ix) (k b')), ?_, ?_⟩
  · rw [System.call, hτ]
  · exact (h.withServer halike).setThread hk (k b')

/-- The accepting thread hands over a kept connection. -/
theorem Alike.connect (h : Alike keep S T) (hk : keep ix = true)
    (hnew : keep S.server.workerMgr.nextIx = true) (fd : Int) (w : IOWorker) :
    Alike keep (S.connect ix fd w) (T.connect (rank keep ix) fd w) := by
  have hserver := h.withServer (h.server.withMgr (h.server.workerMgr.spawnNewWorker hnew .servingUnknown))
  rw [System.connect, System.connect, h.server.workerMgr.nextIx, h.server.timeout]
  exact (hserver.setThread hnew _).setThread hk w

/-- It hands over another connection in the first run only. -/
theorem Alike.connect_left (h : Alike keep S T) (hk : keep ix = true)
    (hnew : keep S.server.workerMgr.nextIx = false) (fd : Int) (w : IOWorker) :
    Alike keep (S.connect ix fd w) (T.setThread (rank keep ix) w) := by
  have hserver := h.server.withMgr_left (h.server.workerMgr.spawnNewWorker_left hnew .servingUnknown)
  exact ((h.withServer_left hserver).setThread_left hnew _).setThread hk w

/-- **A turn of a kept thread** is taken in both runs. -/
theorem Alike.kept (h : Alike keep S T) (hcrew : Crewed S) (hdoor : Server.Doorman S.server.workerMgr)
    (hk : keep ix = true) {a : Answer} {closeFails : Bool}
    (hsafe : ∀ e, S.callOf (.worker ix a closeFails) = some e → ¬ e.Failed)
    (hstep : S.step (.worker ix a closeFails) = some S') :
    ∃ T', exec step T (keptTurn keep S (.worker ix a closeFails)) = some T' ∧ Alike keep S' T' := by
  cases hact : S.action ix a closeFails with
  | none => simp [step, hact] at hstep
  | some act =>
      obtain ⟨w, hw, hturn⟩ := Option.bind_eq_some_iff.mp hact
      have hmove := IOWorker.turn_move hturn
      have hcallOf : S.callOf (.worker ix a closeFails) = act.call? := by
        rw [callOf, hact]
        rfl
      have hsame := h.action hcrew hk a closeFails
      rw [hact] at hsame
      simp only [step, hact] at hstep
      rw [hcallOf] at hsafe
      cases act with
      | silent w' =>
          obtain rfl := Option.some.inj hstep
          refine ⟨T.setThread (rank keep ix) w', ?_, h.setThread hk w'⟩
          simp [keptTurn, hk, hcallOf, Action.call?, exec, step, hsame, Action.rename]
      | call e k =>
          have hconn : (e.connection S.server.workerMgr.nextIx).all keep = true := by
            rcases hmove.connection with rfl | hown
            · rfl
            · rwa [hown]
          -- a connection is made by another kind of action
          have hne : e ≠ .forwardConnection := by
            rintro rfl
            rcases hmove.connection with hgate | hown
            · cases hgate
            · exact Nat.succ_ne_self ix (Option.some.inj (hown (ix + 1)))
          obtain ⟨T', hT', halike⟩ := h.call hdoor hk (hsafe e rfl) hconn hstep
          refine ⟨T', ?_, halike⟩
          simp [keptTurn, hk, hcallOf, Action.call?, exec, step, hsame, Action.rename, hne, hT']
      | connect fd w' =>
          obtain rfl := Option.some.inj hstep
          cases hnew : keep S.server.workerMgr.nextIx with
          | true =>
              refine ⟨T.connect (rank keep ix) fd w', ?_, h.connect hk hnew fd w'⟩
              simp [keptTurn, hk, hnew, exec, step, hsame, Action.rename]
          | false =>
              -- a stranger that connects is not there in the second run, where `accept` would block
              have hblocked : T.action (rank keep ix) .acceptBlocked closeFails = some (.silent w') := by
                rw [System.action, h.threads ix hk, hw]
                exact IOWorker.turn_acceptBlocked w a closeFails hturn _
              refine ⟨T.setThread (rank keep ix) w', ?_, h.connect_left hk hnew fd w'⟩
              simp [keptTurn, hk, hnew, hcallOf, Action.call?, exec, step, hblocked]

/-- **A turn of another thread** is not taken in the second run. -/
theorem Alike.dropped (h : Alike keep S T) (hbook : Server.SeatBook S.server)
    (hdoor : Server.Doorman S.server.workerMgr) (hzero : keep 0 = true)
    (hporter : ∀ ix w, S.threads ix = some w → w.kind = .connect → ix = 0) (hk : keep ix = false)
    {a : Answer} {closeFails : Bool} (hsafe : ∀ e, S.callOf (.worker ix a closeFails) = some e → ¬ e.Failed)
    (hstep : S.step (.worker ix a closeFails) = some S')
    (hseated : ∀ s, ∀ jx ∈ S'.server.activeSides s, keep jx = true) : Alike keep S' T := by
  cases step_turn hstep with
  | silent ix a closeFails w w' => exact h.setThread_left hk w'
  | connect ix a closeFails w w' fd hw hmove =>
      cases hmove with
      | accepted fd hstage hkind =>
          rw [hporter ix w hw hkind, hzero] at hk
          cases hk
  | call ix a closeFails w e k b σ hw hmove hcall hhandle =>
      have hserver : Server.Alike keep σ T.server := by
        rcases hmove.connection with rfl | hown
        · obtain ⟨-, rfl⟩ := Prod.mk.inj (Except.ok.inj hhandle)
          exact h.server
        · exact h.server.dropped hbook hdoor hzero (hsafe e hcall) (by rwa [hown]) hhandle hseated
      exact (h.withServer_left hserver).setThread_left hk (k b)

end Turns

section Runs

variable {scenario : GameScenario} {timeout fd : Int} {keep : Nat → Bool}

/-- Only worker 0 accepts connections. -/
theorem porter_run {evs : List Event} {S : System} (h : run scenario timeout fd evs = some S) :
    ∀ ix w, S.threads ix = some w → w.kind = .connect → ix = 0 := by
  refine run_invariant (I := fun S => ∀ ix w, S.threads ix = some w → w.kind = .connect → ix = 0)
    (fun S₀ h₀ ix w hw _ => ?_) (fun S ev S' _ hporter hturn ix w' hw' hkind => ?_) h
  · exact (start_thread h₀ hw).1
  · rcases hturn.thread hw' with ⟨hw, -⟩ | ⟨a, closeFails, w, act, b, -, hw, hmove, -, rfl, -⟩ |
      ⟨-, -, fd, rfl⟩
    · exact hporter ix w' hw hkind
    · exact hporter ix w hw ((hmove.fixed b).2.symm.trans hkind)
    · cases hkind

/-- The turns of a run that are left without the threads that are not in `keep`. -/
def keptTurns (keep : Nat → Bool) (scenario : GameScenario) (timeout fd : Int) (evs : List Event) :
    List Event :=
  match start scenario timeout fd with
  | .ok S => record step (fun S ev _ => keptTurn keep S ev) S evs
  | .error _ => []

theorem alike_start (hzero : keep 0 = true) {S : System} (h : start scenario timeout fd = .ok S) :
    Alike keep S S := by
  obtain ⟨hserver, hthreads⟩ := start_eq_ok h
  obtain ⟨r, -, hstarted⟩ := Server.start_eq_ok hserver
  have hrank : rank keep 0 = 0 := by simp [rank]
  refine ⟨?_, fun ix hk => ?_, fun jx w hw => ?_⟩
  · rw [hstarted]
    exact Server.alike_started hzero r
  · by_cases hix : ix = 0
    · rw [hix, hrank]
    · have hne : rank keep ix ≠ 0 := fun heq => hix ((rank_inj hk hzero).mp (heq.trans hrank.symm))
      rw [hthreads, Function.update_of_ne hne, Function.update_of_ne hix]
  · exact ⟨0, hzero, hrank.trans (start_thread h hw).1.symm⟩

/-- One turn more, in both runs. -/
theorem Alike.turn {evs : List Event} {ev : Event} {S S' T : System} (h : Alike keep S T) (hzero : keep 0 = true)
    (hrun : run scenario timeout fd evs = some S) (hstep : S.step ev = some S')
    (hsafe : ∀ e, S.callOf ev = some e → ¬ e.Failed)
    (hseated : ∀ s, ∀ jx ∈ S'.server.activeSides s, keep jx = true) :
    ∃ T', exec step T (keptTurn keep S ev) = some T' ∧ Alike keep S' T' := by
  have hdoor := Server.doorman_run (run_server hrun)
  cases ev with
  | cleaner =>
      obtain rfl := Option.some.inj hstep
      exact ⟨_, rfl, h.withServer (h.server.withMgr h.server.workerMgr.waitForClearing)⟩
  | worker ix a closeFails =>
      cases hk : keep ix with
      | true => exact h.kept (crewed_run hrun) hdoor hk hsafe hstep
      | false =>
          refine ⟨T, by simp [keptTurn, hk], ?_⟩
          exact h.dropped (seatBook_run hrun) hdoor hzero (porter_run hrun) hk hsafe hstep hseated

/-- **Two runs side by side.** -/
theorem alike_run (hzero : keep 0 = true) {evs : List Event} {S : System}
    (h : run scenario timeout fd evs = some S) :
    (∀ e ∈ calls scenario timeout fd evs, ¬ e.Failed) →
      (∀ ix ∈ Server.sitters scenario timeout (calls scenario timeout fd evs), keep ix = true) →
        ∃ T, run scenario timeout fd (keptTurns keep scenario timeout fd evs) = some T ∧ Alike keep S T := by
  obtain ⟨S₀, h₀, hevs⟩ := run_eq_some.mp h
  refine exec_induction (P := fun evs S => (∀ e ∈ calls scenario timeout fd evs, ¬ e.Failed) →
    (∀ ix ∈ Server.sitters scenario timeout (calls scenario timeout fd evs), keep ix = true) →
      ∃ T, run scenario timeout fd (keptTurns keep scenario timeout fd evs) = some T ∧ Alike keep S T)
    (fun _ _ => ⟨S₀, ?_, alike_start hzero h₀⟩) (fun evs S ev S' hes ih hstep hsafe hsit => ?_) evs S hevs
  · simp only [keptTurns, h₀]
    exact run_eq_some.mpr ⟨S₀, h₀, rfl⟩
  · have hrun := run_eq_some.mpr ⟨S₀, h₀, hes⟩
    obtain ⟨hrun', hcalls⟩ := run_concat hrun hstep
    rw [hcalls, List.forall_mem_append] at hsafe
    have hfirst : ∀ ix ∈ Server.sitters scenario timeout (calls scenario timeout fd evs), keep ix = true := by
      rw [hcalls] at hsit
      exact fun ix hix => hsit ix ((Server.runRecord_append _ (run_server hrun)).subset hix)
    obtain ⟨T, hT, halike⟩ := ih hsafe.1 hfirst
    -- the seats after the turn are among those that are kept
    have hseated : ∀ s, ∀ jx ∈ S'.server.activeSides s, keep jx = true := by
      rcases (step_turn hstep).server with ⟨-, hsame⟩ | ⟨e, b, hcall, hhandle⟩
      · rw [hsame]
        exact halike.server.seated
      · intro s jx hjx
        rw [hcall, Option.toList_some] at hcalls
        have hserver := run_server hrun'
        rw [hcalls] at hsit hserver
        rw [Server.sitters, Server.runRecord_concat _ (run_server hrun) hserver] at hsit
        exact hsit jx (List.mem_append_right _ (List.mem_filterMap.mpr ⟨s, Side.mem_sides_ s, hjx⟩))
    obtain ⟨T', hT', halike'⟩ := halike.turn hzero hrun hstep
      (fun e he => hsafe.2 e (by simp [he])) hseated
    refine ⟨T', ?_, halike'⟩
    obtain ⟨T₀, hT₀, hkept⟩ := run_eq_some.mp hT
    refine run_eq_some.mpr ⟨T₀, hT₀, ?_⟩
    simp only [keptTurns, h₀] at hkept ⊢
    rw [record_concat _ hes hstep, exec_append, hkept]
    exact hT'

/-- What is left of a run begins with what is left of its first part. -/
theorem keptTurns_append {evs : List Event} {S : System} (h : run scenario timeout fd evs = some S)
    (evs' : List Event) :
    keptTurns keep scenario timeout fd evs <+: keptTurns keep scenario timeout fd (evs ++ evs') := by
  obtain ⟨S₀, h₀, hevs⟩ := run_eq_some.mp h
  simp only [keptTurns, h₀, record_append _ hevs evs']
  exact List.prefix_append _ _

/-- The calls of a run begin with those of its first part. -/
theorem calls_append {evs : List Event} {S : System} (h : run scenario timeout fd evs = some S)
    (evs' : List Event) :
    calls scenario timeout fd evs <+: calls scenario timeout fd (evs ++ evs') := by
  obtain ⟨S₀, h₀, hevs⟩ := run_eq_some.mp h
  simp only [calls, h₀, record_append _ hevs evs']
  exact List.prefix_append _ _

/-- Worker `ix` accepts the connections, or has had a seat in the run. -/
def everSeated (scenario : GameScenario) (timeout fd : Int) (evs : List Event) : Nat → Bool :=
  Server.everSeated scenario timeout (calls scenario timeout fd evs)

end Runs

/-- A fifth connection asks for the seat of `N`, is told that it is taken, and sends a card out of turn. -/
def strangerMeddles : List Event :=
  accepts [11, 12, 13, 14, 15] ++ speaks 1 "IAMN" ++ speaks 2 "IAMN" ++ speaks 3 "IAME" ++ speaks 4 "IAMS" ++
    speaks 5 "IAMW" ++ settles 2 [7] ++ settles 1 [35, 8] ++ hears 2 "TRICK12C" ++ goes 2 1 ++
    hears 1 "TRICK12C" ++ goes 1 1

/-- The same run without it. -/
def strangerAway : List Event :=
  accepts [11] ++ .worker 0 .acceptBlocked false :: idleRound 0 ++
    [13, 14, 15].flatMap (fun fd => .worker 0 (.accepted fd) false :: idleRound 0) ++ speaks 1 "IAMN" ++
    speaks 2 "IAME" ++ speaks 3 "IAMS" ++ speaks 4 "IAMW" ++ settles 1 [35, 8] ++ hears 1 "TRICK12C" ++ goes 1 1

end System

end Kierki
