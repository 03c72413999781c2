import Kierki.Server.Ticks
import Kierki.Server.Transmission

/-!
# Waking workers up

Three things are refused while fewer than four players are connected: a message stays in `pendingIncoming`, a
job stays in `pendingOutgoing`, and a thread that wants to quit stays in its loop.  It then waits in `poll`
until there is a byte in its pipe.

`playerIntro` writes these bytes when the fourth seat is taken again, to the workers with one of three roles.
With the first deal it writes to the workers with a seat alone, and to a worker with the role `CLEANUP` it never
does.  A byte is also in vain if the thread has a message parked and wants to quit, since `socketAction` then
does not look at the message.  `Forgets` names these steps; all other steps keep every thread awake.
-/

namespace Kierki

open Execution

instance (m : IOWorkerMgr) (ix : Nat) : Decidable (m.Ordered ix) :=
  decidable_of_iff ((m.workers.find? ix).any JobQueue.killFlag = true) (by
    simp [IOWorkerMgr.Ordered, Option.any_eq_true])

namespace Server

open IOWorkerMgr

/-- Worker `ix` sits down on the last free side. -/
def FillsTable (σ : Server) (side : Side) (ix : Nat) : Prop :=
  σ.workerMgr.roles.find? ix = some .servingUnknown ∧ σ.activeSides side = none ∧ σ.playersConnected + 1 = 4

instance (σ : Server) (side : Side) (ix : Nat) : Decidable (σ.FillsTable side ix) :=
  inferInstanceAs (Decidable (_ ∧ _ ∧ _))

/-- Worker `ix` gets a byte when somebody else sits down on the last free side.  Before the first deal these are
the workers whom the cards are dealt to; afterwards `rejoin` signals three roles, and `CLEANUP` is none of them. -/
def Signals (σ : Server) (ix : Nat) : Prop :=
  σ.workerMgr.roles.find? ix = some .servingActive ∨
    (σ.lastDeal ≠ none ∧ (σ.workerMgr.roles.find? ix = some .cleanupUnknown ∨
      σ.workerMgr.roles.find? ix = some .servingUnknown))

instance (σ : Server) (ix : Nat) : Decidable (σ.Signals ix) := inferInstanceAs (Decidable (_ ∨ (_ ∧ (_ ∨ _))))

variable {σ σ' : Server} {e : Call} {b : Bool}

/-- With four players connected nothing is refused but the exit of a worker with work left. -/
theorem Effect.granted (h : Effect σ e b σ') (hpc : σ.playersConnected = 4) (hpc' : σ'.playersConnected = 4) :
    b = true ∨ ∃ errs ix, e = .grandExitCallback errs ix true := by
  cases h with
  | introParked side ix role _ _ hfew | trickParked n card ix hfew | wrongParked ix hfew => omega
  | exitLeave errs ix hasWork s =>
      simp only [unseated] at hpc'
      omega
  | exitRefused errs ix hasWork role _ _ _ hlater =>
      obtain rfl := hlater.resolve_left fun hne => hne hpc
      exact .inr ⟨errs, ix, rfl⟩
  | gate => exact .inl (by simp [execMutexed, hpc])
  | _ => exact .inl rfl

/-- The table is filled by a player who sits down. -/
theorem Effect.fills (h : Effect σ e b σ') (hbook : SeatBook σ) (hpc' : σ'.playersConnected = 4) :
    σ.playersConnected = 4 ∨ ∃ side ix, e = .playerIntro side ix ∧ b = true ∧ σ.FillsTable side ix := by
  have hfew : σ.playersConnected ≤ 4 := by
    rw [hbook.count]
    exact_mod_cast occupied_card_le σ.activeSides
  cases h with
  | introLobby side ix hrole hseat hdeal hpc => exact absurd hpc' hpc
  | introRejoin side ix deal mgr out hrole hseat hdeal hpc => exact absurd hpc' hpc
  | introFirstDeal side ix mgr out hrole hseat hdeal hpc => exact .inr ⟨side, ix, rfl, rfl, hrole, hseat, hpc⟩
  | introResume side ix deal mgr out hrole hseat hdeal hpc => exact .inr ⟨side, ix, rfl, rfl, hrole, hseat, hpc⟩
  | exitLeave errs ix hasWork s | exitLeaveErased errs ix hasWork s =>
      -- somebody has left instead
      change σ.playersConnected - 1 = 4 at hpc'
      omega
  | trickProxy n card ix σ' _ _ hfin => exact .inl (hfin.sameSeats.playersConnected.symm.trans hpc')
  | trickAccepted n card ix side σ' _ _ _ hacc => exact .inl (hacc.sameSeats.playersConnected.symm.trans hpc')
  | exitInternal errs ix hasWork σ' _ hfin => exact .inl (hfin.sameSeats.playersConnected.symm.trans hpc')
  | exitProxy errs ix hasWork σ' _ _ hfin => exact .inl (hfin.sameSeats.playersConnected.symm.trans hpc')
  | _ => exact .inl hpc'

/-- **Who is woken when the table is filled.** -/
theorem Effect.wakes {side : Side} {ix jx : Nat} (h : Effect σ (.playerIntro side jx) b σ') (hbook : SeatBook σ)
    (hfills : σ.FillsTable side jx) (hne : ix ≠ jx) (hsignals : σ.Signals ix) : 0 < σ'.workerMgr.unread ix := by
  obtain ⟨hrole, hfree, hpc⟩ := hfills
  have hroles : ∀ {mgr : IOWorkerMgr} {out}, Posted (σ.seated side jx).workerMgr mgr out →
      mgr.roles.find? ix = σ.workerMgr.roles.find? ix := by
    intro mgr out hpost
    rw [hpost.roles]
    exact withRole_find?_of_ne σ.workerMgr .servingActive hne
  cases h with
  | introParked _ _ role hrole' hknown | introAgain _ _ role mgr hrole' hknown =>
      rw [hrole] at hrole'
      exact absurd (Option.some.inj hrole').symm hknown
  | introBusy _ _ kx mgr _ hseat =>
      rw [hfree] at hseat
      cases hseat
  | introLobby _ _ _ _ _ hpc' | introRejoin _ _ deal mgr out _ _ _ hpc' => exact absurd hpc hpc'
  | introFirstDeal _ _ mgr out _ _ hdeal _ hpost haddr =>
      -- a deal goes out to every seat
      have hactive : σ.workerMgr.roles.find? ix = some .servingActive :=
        hsignals.resolve_right fun hlater => hlater.1 hdeal
      obtain ⟨s, hs⟩ := hbook.active ix hactive
      have hother : s ≠ side := by
        rintro rfl
        rw [hfree] at hs
        cases hs
      have hseat : (σ.seated side jx).activeSides s = some ix := by
        simpa [seated, Function.update_apply, hother] using hs
      have hjob : (ix, σ.game.msgDeal (σ.game.hands s)) ∈ out := by
        refine (haddr.mem_iff _ _).mpr (List.mem_append_left _ ?_)
        exact List.mem_map.mpr ⟨s, by cases s <;> simp [Side.sides_], by rw [hseat]⟩
      exact hpost.woken _ hjob
  | introResume _ _ deal mgr out _ _ _ _ hpost _ hwoken =>
      rcases hsignals with hactive | ⟨-, hclean | hnew⟩
      · exact hwoken ix _ ((hroles hpost).trans hactive) (.inl rfl)
      · exact hwoken ix _ ((hroles hpost).trans hclean) (.inr (.inl rfl))
      · exact hwoken ix _ ((hroles hpost).trans hnew) (.inr (.inr rfl))

end Server

namespace IOWorker

/-- Something was refused: a message, a job on an open connection, or the exit. -/
def Deferred (w : IOWorker) : Prop := w.hasWork = true ∨ w.wantToToQuit = true

instance (w : IOWorker) : Decidable w.Deferred := inferInstanceAs (Decidable (_ ∨ _))

/-- What keeps a thread that stands at a stage of the loop, if it is not asked for again before the next `poll`: the
message is offered at `offer`, the job is sent at `send` (or `sendLast`, after a kill order), and the exit is tried at
`leave` and at `pollFailed`. -/
def IdlesAt (w : IOWorker) (σ : Server) (ix : Nat) : Stage → Prop
  | .start | .poll | .expired | .deadline => w.Deferred
  | .pollFailed | .leave => w.hasWork = true
  | .order => w.pendingIncoming ≠ [] ∨ (w.hasWork = true ∧ ¬ σ.workerMgr.Ordered ix)
  | .corrupted | .fetch | .send | .fetchLast | .sendLast | .close => w.pendingIncoming ≠ []
  | .pipe | .socket => w.pendingIncoming ≠ [] ∧ w.wantToToQuit = true
  | .offer | .last | .done => False

instance (w : IOWorker) (σ : Server) (ix : Nat) : (stage : Stage) → Decidable (w.IdlesAt σ ix stage)
  | .start | .poll | .expired | .deadline => inferInstanceAs (Decidable w.Deferred)
  | .pollFailed | .leave => inferInstanceAs (Decidable (w.hasWork = true))
  | .order => inferInstanceAs (Decidable (w.pendingIncoming ≠ [] ∨ (w.hasWork = true ∧ ¬ σ.workerMgr.Ordered ix)))
  | .corrupted | .fetch | .send | .fetchLast | .sendLast | .close =>
      inferInstanceAs (Decidable (w.pendingIncoming ≠ []))
  | .pipe | .socket => inferInstanceAs (Decidable (w.pendingIncoming ≠ [] ∧ w.wantToToQuit = true))
  | .offer | .last | .done => inferInstanceAs (Decidable False)

/-- The thread is in `poll` with something that was refused, or comes there with it. -/
def Idles (w : IOWorker) (σ : Server) (ix : Nat) : Prop := w.IdlesAt σ ix w.stage

instance (w : IOWorker) (σ : Server) (ix : Nat) : Decidable (w.Idles σ ix) :=
  inferInstanceAs (Decidable (w.IdlesAt σ ix w.stage))

/-- What every turn keeps of the messages. -/
structure Tidy (w : IOWorker) : Prop where
  single : w.pendingIncoming.length ≤ 1
  connect : w.kind = .connect → w.pendingIncoming = []

variable {σ σ' : Server} {ix : Nat} {w : IOWorker} {act : Action} {a : Answer} {closeFails : Bool}

theorem not_idles_new (kind : WorkerKind) (timeout fd : Int) : ¬ (new kind timeout fd).Idles σ ix := by
  rintro (hwork | hquit)
  · cases hwork
  · cases hquit

theorem hasWork_of_message (h : w.pendingIncoming ≠ []) : w.hasWork = true := by simp [hasWork, h]

/-- The thread comes back to its loop with what was refused. -/
theorem Idles.of_loop (h : w.loop.Idles σ ix) : w.Deferred := by
  unfold loop at h
  split at h
  · exact h.elim
  · exact h

/-- A turn that takes a message away or leaves all of them alone. -/
theorem Tidy.of_suffix (h : w.Tidy) {w' : IOWorker} (hkind : w'.kind = w.kind)
    (hsuffix : w'.pendingIncoming <:+ w.pendingIncoming) : w'.Tidy where
  single := hsuffix.length_le.trans h.single
  connect := fun hconnect => by
    have hnone := h.connect (hkind.symm.trans hconnect)
    rw [hnone] at hsuffix
    exact List.suffix_nil.mp hsuffix

/-- **A turn** keeps this. -/
theorem Tidy.turn (h : w.Tidy) (hturn : w.turn σ ix a closeFails = some act) (b : Bool) : (act.next b).Tidy := by
  have hmove := turn_move hturn
  have hkind := (hmove.fixed b).2
  have hsame : (act.next b).pendingIncoming = w.pendingIncoming → (act.next b).Tidy := fun heq =>
    h.of_suffix hkind (heq ▸ List.suffix_rfl)
  -- the accepting worker never has a message, since it reads nothing from its socket
  by_cases haccepts : w.stage = .socket ∧ w.kind = .connect
  · obtain ⟨hstage, hconnect⟩ := haccepts
    simp only [IOWorker.turn, hstage, hconnect] at hturn
    refine hsame ?_
    rw [turnAccept_next hturn]
    rfl
  cases hmove with
  | received c closeFails' hstage hquit hopen hnone =>
      refine ⟨?_, fun hconnect => ?_⟩
      · show (w.receive c closeFails').pendingIncoming.length ≤ 1
        unfold receive
        dsimp only
        split
        · exact hnone ▸ Nat.zero_le 1
        · split
          · simp [hnone, goto]
          · exact hnone ▸ Nat.zero_le 1
      · exact absurd ⟨hstage, hkind.symm.trans hconnect⟩ haccepts
  | offerInvalid msg rest _ hmsg | offerIntro msg rest _ _ hmsg | offerTrick msg rest _ _ _ hmsg =>
      cases b
      · exact hsame rfl
      · exact h.of_suffix hkind (hmsg ▸ List.suffix_cons msg rest)
  | started pipeFails mainFails => exact hsame (by cases pipeFails <;> cases mainFails <;> rfl)
  | sent job rest n closeFails' | sentLast job rest n closeFails' =>
      cases b
      · exact hsame rfl
      · refine hsame ?_
        show (w.transmit job rest n closeFails').pendingIncoming = _
        unfold transmit
        split <;> rfl
  | pollExit | corruptedExit | leaveExit => exact hsame (by cases b <;> rfl)
  | _ => exact hsame rfl

/-- On a closed connection only a message is left. -/
theorem message_of_closed (h : (!w.pendingIncoming.isEmpty || (!w.pendingOutgoing.isEmpty && !true)) = true) :
    w.pendingIncoming ≠ [] := by
  simpa using h

/-- A thread that has just emptied its pipe looks at its messages, if it does not want to quit. -/
theorem Move.not_idles_piped (h : w.Move σ ix act) (he : act.call? = some (.handlePipe ix))
    (hpipe : ¬ (w.pendingIncoming ≠ [] ∧ w.wantToToQuit = true)) (b : Bool) : ¬ (act.next b).Idles σ' ix := by
  cases h with
  | piped => exact hpipe
  | _ => cases he

/-- A player sits down with a message of the own. -/
theorem Move.intro_offer (h : w.Move σ ix act) {side : Side} {jx : Nat}
    (he : act.call? = some (.playerIntro side jx)) : w.stage = .offer := by
  cases h with
  | offerIntro _ _ _ hstage => exact hstage
  | _ => cases he

/-- A player who has sat down looks for the next message. -/
theorem Move.not_idles_intro (h : w.Move σ ix act) {side : Side} {jx : Nat}
    (he : act.call? = some (.playerIntro side jx)) : ¬ (act.next true).Idles σ' ix := by
  cases h with
  | offerIntro msg rest _ hstage => simp [Action.next, answered, Idles, IdlesAt, hstage]
  | _ => cases he

/-- **A turn with four players connected** does not bring a thread to `poll` with anything that was refused,
unless it was on its way there before. -/
theorem Move.idles (h : w.Move σ ix act) (htidy : w.Tidy) (hpc : σ.playersConnected = 4) {b : Bool}
    (heff : ∀ e, act.call? = some e → Server.Effect σ e b σ') (hpc' : σ'.playersConnected = 4)
    (hpipe : act.call? ≠ some (.handlePipe ix)) (hidles : (act.next b).Idles σ' ix) : w.Idles σ ix := by
  have hgranted : ∀ e, act.call? = some e → b = true ∨ ∃ errs jx, e = .grandExitCallback errs jx true :=
    fun e he => (heff e he).granted hpc hpc'
  have hat : ∀ {stage : Stage}, w.stage = stage → (w.goto stage).Idles σ ix → w.Idles σ ix := by
    rintro stage rfl hw
    exact hw
  -- an exit is refused because of the work that is left
  have hexit : ∀ {refused : IOWorker}, act = w.exit ix refused → refused.Idles σ' ix ∧ w.hasWork = true := by
    rintro refused rfl
    rcases hgranted _ rfl with rfl | ⟨errs, jx, heq⟩
    · exact hidles.elim
    · cases b
      · exact ⟨hidles, (Server.Call.grandExitCallback.inj heq).2.2⟩
      · exact hidles.elim
  cases h with
  | started pipeFails mainFails hstage =>
      have hdeferred := Idles.of_loop hidles
      apply hat hstage
      cases pipeFails <;> cases mainFails <;> exact hdeferred
  | pollExpired hstage => exact hat hstage hidles
  | pollFailed closeFails hstage => exact hat hstage (.inl (hasWork_of_message (message_of_closed hidles)))
  | pollReady hstage => exact hat hstage (.inr hidles.2)
  | expired hstage | overdue hstage => exact hat hstage (Idles.of_loop hidles)
  | looped t hstage => exact hat hstage (Idles.of_loop hidles)
  | pollExit hstage | leaveExit hstage => exact hat hstage (hexit rfl).2
  | corruptedExit hstage => exact hat hstage (hexit rfl).1
  | piped => exact absurd rfl hpipe
  | quitting hstage hquit => exact hat hstage ⟨hidles, hquit⟩
  | received c closeFails hstage hquit =>
      change (w.receive c closeFails).Idles σ' ix at hidles
      unfold receive at hidles
      dsimp only at hidles
      split at hidles
      · exact hidles.elim
      split at hidles
      · exact hidles.elim
      · simp [Idles, IdlesAt, hstage, hquit] at hidles
  | acceptBlocked hstage hkind | accepted fd hstage hkind => exact absurd (htidy.connect hkind) hidles
  | offerDone hstage hnone => exact absurd hnone hidles
  | offerInvalid msg rest hstage hmsg =>
      -- there was no other message
      obtain rfl : b = true := (hgranted _ rfl).resolve_right (by simp)
      have hsingle := htidy.single
      rw [hmsg, List.length_cons] at hsingle
      have hnone : rest = [] := List.length_eq_zero_iff.mp (by omega)
      exact absurd hnone hidles
  | offerIntro msg rest side hstage | offerTrick msg rest n card hstage =>
      obtain rfl : b = true := (hgranted _ rfl).resolve_right (by simp)
      simp [Action.next, answered, Idles, IdlesAt, hstage] at hidles
  | sound hstage => exact hat hstage hidles
  | fetched job rest hstage =>
      rcases hstage with hstage | hstage <;> simp only [Action.next, Idles, IdlesAt, hstage] at hidles <;> exact hat hstage hidles
  | fetchDone hstage =>
      apply hat hstage
      by_cases hclosed : w.closedFd = true
      · simp only [Action.next, hclosed, if_true, behindSend] at hidles
        split at hidles
        · exact hidles.elim
        · exact hidles.elim id fun hwork => message_of_closed (hclosed ▸ hwork.1)
      · simp only [Action.next, if_neg hclosed] at hidles
        exact hidles
  | fetchLastDone hstage =>
      apply hat hstage
      simp only [Action.next] at hidles
      split at hidles <;> exact hidles
  | sendDone hstage hnone =>
      apply hat hstage
      simp only [Action.next, behindSend] at hidles
      split at hidles
      · exact hidles.elim
      · refine hidles.elim id fun hwork => ?_
        show w.pendingIncoming ≠ []
        simpa [hasWork, goto, hnone] using hwork.1
  | sendLastDone hstage => exact hat hstage hidles
  | sent job rest n closeFails hstage | sentLast job rest n closeFails hstage =>
      obtain rfl : b = true := (hgranted _ rfl).resolve_right (by simp)
      change (w.transmit job rest n closeFails).Idles σ' ix at hidles
      apply hat hstage
      unfold transmit at hidles
      split at hidles <;> simp only [Idles, IdlesAt, hstage] at hidles <;> exact hidles
  | ordered hstage => exact hat hstage (.inl hidles)
  | unordered hstage hkill =>
      refine hat hstage (.inr ⟨hidles, ?_⟩)
      rintro ⟨q, hq, hflag⟩
      rw [jobQueue, hq] at hkill
      simp [hflag] at hkill
  | closed closeFails hstage => exact hat hstage (message_of_closed hidles)
  | staying hstage hquit =>
      refine hat hstage (hidles.resolve_right fun hwants => ?_)
      have hboth : w.wantToToQuit = true := hwants
      rw [hquit] at hboth
      cases hboth
  | noRecv | recvBlocked | recvEnd | recvFailed | pipeFailed | lastExit => exact hidles.elim

end IOWorker

namespace System

open IOWorker

/-- Thread `ix` idles with an empty pipe, and nobody who sits down writes to it. -/
def Unheard (S : System) (ix : Nat) : Prop :=
  match S.threads ix with
  | some w => w.Idles S.server ix ∧ S.server.workerMgr.unread ix = 0 ∧ ¬ S.server.Signals ix
  | none => False

instance (S : System) (ix : Nat) : Decidable (S.Unheard ix) :=
  match h : S.threads ix with
  | some w => decidable_of_iff (w.Idles S.server ix ∧ S.server.workerMgr.unread ix = 0 ∧ ¬ S.server.Signals ix)
      (by simp [Unheard, h])
  | none => .isFalse (by simp [Unheard, h])

/-- Thread `ix` has a message parked and wants to quit, so that it will not look at the message again. -/
def Overlooks (S : System) (ix : Nat) : Prop :=
  match S.threads ix with
  | some w => w.pendingIncoming ≠ [] ∧ w.wantToToQuit = true
  | none => False

instance (S : System) (ix : Nat) : Decidable (S.Overlooks ix) :=
  match h : S.threads ix with
  | some w => decidable_of_iff (w.pendingIncoming ≠ [] ∧ w.wantToToQuit = true) (by simp [Overlooks, h])
  | none => .isFalse (by simp [Overlooks, h])

/-- **The steps that lose a wake-up**: the table is filled and nobody writes to a thread that idles, or a thread
reads its wake-up and goes on without looking at its message. -/
def Forgets (S : System) (ev : Event) : Prop :=
  S.server.exiting = false ∧
    match S.callOf ev with
    | some (.playerIntro side jx) => S.server.FillsTable side jx ∧ ∃ ix < S.server.workerMgr.nextIx, S.Unheard ix
    | some (.handlePipe ix) => S.server.playersConnected = 4 ∧ S.Overlooks ix
    | _ => False

instance (S : System) (ev : Event) : Decidable (Forgets S ev) :=
  match h : S.callOf ev with
  | some (.playerIntro side jx) =>
      decidable_of_iff (S.server.exiting = false ∧ S.server.FillsTable side jx ∧
        ∃ ix < S.server.workerMgr.nextIx, S.Unheard ix) (by simp [Forgets, h])
  | some (.handlePipe ix) =>
      decidable_of_iff (S.server.exiting = false ∧ S.server.playersConnected = 4 ∧ S.Overlooks ix)
        (by simp [Forgets, h])
  | none | some (.playerTricked ..) | some (.handleTimeout _) | some (.handleWrongMessage _)
  | some (.grandExitCallback ..) | some .execMutexed | some .forwardConnection | some (.popNextJob _)
  | some .waitForClearing => .isFalse (by simp [Forgets, h])

/-- A thread in `poll` has something to read, if anything was refused to it. -/
def NoLostWakeUp (S : System) : Prop :=
  S.server.playersConnected = 4 → S.server.exiting = false →
    ∀ ix w, S.threads ix = some w → w.stage = .poll → w.Deferred → 0 < S.server.workerMgr.unread ix

/-- The invariant: the threads on their way to `poll` count as well. -/
structure Awake (S : System) : Prop where
  tidy : ∀ ix w, S.threads ix = some w → w.Tidy
  woken : S.server.playersConnected = 4 → S.server.exiting = false →
    ∀ ix w, S.threads ix = some w → w.Idles S.server ix → 0 < S.server.workerMgr.unread ix

theorem Awake.noLostWakeUp {S : System} (h : Awake S) : NoLostWakeUp S := by
  intro hpc hexit ix w hw hpoll hdeferred
  refine h.woken hpc hexit ix w hw ?_
  rw [Idles, hpoll]
  exact hdeferred

theorem awake_start {scenario : GameScenario} {timeout tcpListenSock : Int} {S₀ : System}
    (h : start scenario timeout tcpListenSock = .ok S₀) : Awake S₀ := by
  obtain ⟨r, -, hstarted⟩ := Server.start_eq_ok (start_eq_ok h).1
  constructor
  case tidy =>
    intro ix w hw
    obtain ⟨-, rfl⟩ := start_thread h hw
    exact ⟨Nat.zero_le 1, fun _ => rfl⟩
  case woken =>
    intro hpc
    rw [hstarted] at hpc
    cases hpc

/-- The turn of a thread that does not read its pipe leaves it its bytes. -/
theorem Turn.unread {S S' : System} {ev : Event} (h : Turn S ev S') {ix : Nat} (hix : ix < S.server.workerMgr.nextIx)
    (hpipe : S.callOf ev ≠ some (.handlePipe ix)) :
    S.server.workerMgr.unread ix ≤ S'.server.workerMgr.unread ix := by
  rcases h.effect with hsame | ⟨e, b, hcall, heff⟩
  · rw [hsame]
  · refine heff.keeps.unread ix hix fun hreader => hpipe ?_
    cases e with
    | handlePipe jx =>
        obtain rfl := Option.some.inj hreader
        exact hcall
    | _ => cases hreader

/-- The turn that fills the table. -/
theorem Turn.fills {S S' : System} {ev : Event} (h : Turn S ev S') (hbook : Server.SeatBook S.server)
    (hpc : S.server.playersConnected ≠ 4) (hpc' : S'.server.playersConnected = 4) :
    ∃ side jx, S.callOf ev = some (.playerIntro side jx) ∧
      S.server.handle (.playerIntro side jx) = .ok (true, S'.server) ∧ S.server.FillsTable side jx := by
  rcases h.server with ⟨-, hsame⟩ | ⟨e, b, hcall, hhandle⟩
  · rw [hsame] at hpc'
    exact absurd hpc' hpc
  · obtain ⟨side, jx, rfl, rfl, hfills⟩ := ((Server.handle_effect hhandle).fills hbook hpc').resolve_left hpc
    exact ⟨side, jx, hcall, hhandle, hfills⟩

/-- A kill order stays with a thread that is in its loop. -/
theorem Turn.ordered {S S' : System} {ev : Event} (h : Turn S ev S') (hcrew : Crewed S) {ix : Nat} {w : IOWorker}
    (hw : S.threads ix = some w) (hloop : Looping w) (hordered : S.server.workerMgr.Ordered ix) :
    S'.server.workerMgr.Ordered ix := by
  rcases h.effect with hsame | ⟨e, b, -, heff⟩
  · rwa [hsame]
  · have hgone : ix ∉ S.server.gone e := by
      unfold Server.gone
      split
      · exact (hcrew.present ix w hw hloop).2
      · exact List.not_mem_nil
    exact heff.keeps.ordered ix (hcrew.known ix w hw) hgone hordered

/-- What others do does not bring a thread to `poll`. -/
theorem Turn.idles {S S' : System} {ev : Event} (h : Turn S ev S') (hcrew : Crewed S) {ix : Nat} {w : IOWorker}
    (hw : S.threads ix = some w) (hidles : w.Idles S'.server ix) : w.Idles S.server ix := by
  by_cases horder : w.stage = .order
  · simp only [Idles, IdlesAt, horder] at hidles ⊢
    refine hidles.imp_right fun hwork => ⟨hwork.1, fun hordered => hwork.2 ?_⟩
    exact h.ordered hcrew hw (by simp [Looping, horder]) hordered
  · cases hstage : w.stage <;> simp only [Idles, IdlesAt, hstage] at hidles ⊢ <;> first | exact hidles | exact absurd hstage horder

/-- **Every step** keeps the messages of all threads tidy. -/
theorem tidy_step {S S' : System} {ev : Event} (h : ∀ ix w, S.threads ix = some w → w.Tidy)
    (hstep : step S ev = some S') (ix : Nat) (w' : IOWorker) (hw' : S'.threads ix = some w') : w'.Tidy := by
  rcases (step_turn hstep).thread hw' with ⟨hw, -⟩ | ⟨a, closeFails, -, -, -, rfl, -⟩ | ⟨-, -, fd, rfl⟩
  · exact h ix w' hw
  · obtain ⟨w, act, b, hw, hact, hnext, -⟩ := own_turn hstep
    obtain rfl : act.next b = w' := Option.some.inj (hnext.symm.trans hw')
    exact (h ix w hw).turn hact b
  · exact ⟨Nat.zero_le 1, fun _ => rfl⟩

/-- **Every step that is not one of these** keeps the threads awake. -/
theorem Awake.step {S S' : System} {ev : Event} (h : Awake S) (hcrew : Crewed S) (hbook : Server.SeatBook S.server)
    (hkeeps : ¬ Forgets S ev) (hstep : step S ev = some S') : Awake S' := by
  have hturn := step_turn hstep
  constructor
  case tidy => exact tidy_step h.tidy hstep
  case woken =>
    intro hpc' hexit' ix w' hw' hidles
    have hexit : S.server.exiting = false := by
      by_contra hend
      exact Bool.false_ne_true (hexit'.symm.trans (hturn.exiting (Bool.not_eq_false _ ▸ hend)))
    -- a thread that idled before has its byte already, or gets it now
    have hbefore : ∀ w, S.threads ix = some w → w.Idles S.server ix → S.callOf ev ≠ some (.handlePipe ix) →
        0 < S'.server.workerMgr.unread ix := by
      intro w hw hold hpipe
      have hix := hcrew.known ix w hw
      by_cases hpc : S.server.playersConnected = 4
      · exact (h.woken hpc hexit ix w hw hold).trans_le (hturn.unread hix hpipe)
      · obtain ⟨side, jx, hcall, hhandle, hfills⟩ := hturn.fills hbook hpc hpc'
        by_contra hnone
        refine hkeeps ⟨hexit, ?_⟩
        rw [hcall]
        refine ⟨hfills, ix, hix, ?_⟩
        have hne : ix ≠ jx := by
          rintro rfl
          obtain ⟨a, closeFails, rfl⟩ := hturn.owner hcall rfl
          obtain ⟨w₁, act, hw₁, hmove, he⟩ := callOf_eq_some hcall
          obtain rfl := Option.some.inj (hw.symm.trans hw₁)
          simp [Idles, IdlesAt, hmove.intro_offer he] at hold
        simp only [Unheard, hw]
        refine ⟨hold, ?_, fun hsignals => hnone ?_⟩
        · have hle := hturn.unread hix hpipe
          omega
        · exact (Server.handle_effect hhandle).wakes hbook hfills hne hsignals
    rcases hturn.thread hw' with ⟨hw, hother⟩ | ⟨a, closeFails, w, act, b, rfl, hw, hmove, hcall, rfl, hact⟩ | ⟨-, -, fd, rfl⟩
    · refine hbefore w' hw (hturn.idles hcrew hw hidles) fun hcall => ?_
      obtain ⟨a, closeFails, hev⟩ := hturn.owner hcall rfl
      exact hother a closeFails hev
    · by_cases hpipe : act.call? = some (.handlePipe ix)
      · -- it has just emptied its pipe, and looks at its message next
        have hpc : S.server.playersConnected = 4 := by
          have hserver := congrArg Prod.snd (Except.ok.inj (hact _ hpipe))
          exact (congrArg Server.playersConnected hserver).trans hpc'
        refine absurd hidles (hmove.not_idles_piped hpipe (fun hboth => hkeeps ⟨hexit, ?_⟩) b)
        rw [hcall, hpipe]
        refine ⟨hpc, ?_⟩
        simp only [Overlooks, hw]
        exact hboth
      by_cases hpc : S.server.playersConnected = 4
      · have heff : ∀ e, act.call? = some e → Server.Effect S.server e b S'.server :=
          fun e he => Server.handle_effect (hact e he)
        have hold := hmove.idles (h.tidy ix w hw) hpc heff hpc' hpipe hidles
        exact hbefore w hw hold (hcall ▸ hpipe)
      · -- it has sat down itself, and looks for the next message
        obtain ⟨side, jx, hcall', hhandle, -⟩ := hturn.fills hbook hpc hpc'
        have he := hcall.symm.trans hcall'
        obtain rfl := hmove.owner he rfl
        obtain rfl : b = true := congrArg Prod.fst (Except.ok.inj ((hact _ he).symm.trans hhandle))
        exact absurd hidles (hmove.not_idles_intro he)
    · exact absurd hidles (not_idles_new _ _ _)

/-- **No wake-up is lost** in a run without these steps: with four players connected, a thread in `poll` that was
refused anything has a byte in its pipe. -/
theorem woken_of_guarded {scenario : GameScenario} {timeout tcpListenSock : Int} {evs : List Event} {S₀ S : System}
    (h₀ : start scenario timeout tcpListenSock = .ok S₀) (hevs : exec step S₀ evs = some S)
    (hguard : Guarded step (fun S ev => ¬ Forgets S ev) S₀ evs) : NoLostWakeUp S :=
  (guarded_invariant (I := Awake) h₀ hevs hguard (awake_start h₀)
    fun _ _ _ hcrew hbook ih hkeeps hstep => ih.step hcrew hbook hkeeps hstep).noLostWakeUp

/-- Four players sit down.  The send to worker 2 fails, which frees its seat, and worker 1 goes to `poll` with
two jobs it may not send; its pipe is empty. -/
def heldBack : List Event :=
  accepts [11, 12, 13, 14, 15] ++ speaks 1 "IAMN" ++ speaks 2 "IAME" ++ speaks 3 "IAMS" ++ speaks 4 "IAMW" ++
    goes 2 4 ++ .worker 2 (.sent 0) false :: goes 2 2 ++ goes 1 5 ++ .worker 1 (.sent 0) false :: goes 1 3 ++
    [.worker 1 .pollReady false, .worker 1 .pipeEmpty false, .worker 1 .recvBlocked false] ++ goes 1 3 ++
    .worker 1 (.sent 0) false :: goes 1 3

theorem woken_of_guarded_heldBack :
    ∃ S w, exec step (started [suitRound] 5 3 suitRound) (heldBack ++ speaks 5 "IAME") = some S ∧
      S.threads 1 = some w ∧ w.Deferred ∧ 0 < S.server.workerMgr.unread 1 := by
  have hfacts : (exec step (started [suitRound] 5 3 suitRound) (heldBack ++ speaks 5 "IAME")).bind (fun S =>
      (S.threads 1).map fun w => (S.server.playersConnected, S.server.exiting, w.stage, decide w.Deferred)) =
      some (4, false, .poll, true) := by decide +kernel
  obtain ⟨S, hS, hthread⟩ := Option.bind_eq_some_iff.mp hfacts
  obtain ⟨w, hw, heq⟩ := Option.map_eq_some_iff.mp hthread
  simp only [Prod.mk.injEq, decide_eq_true_eq] at heq
  obtain ⟨hpc, hexit, hpoll, hdeferred⟩ := heq
  have hwoken := woken_of_guarded (start_cons suitRound [] 5 3) hS (by decide +kernel)
  exact ⟨S, w, hS, hw, hdeferred, hwoken hpc hexit 1 w hw hpoll hdeferred⟩

/-- Two players ask for `N`.  The second one's `BUSY` may not be sent, and its thread has emptied its pipe when the
three others come. -/
def busyForgotten : List Event :=
  accepts [11, 12, 13, 14, 15] ++ speaks 1 "IAMN" ++ speaks 2 "IAMN" ++ goes 2 4 ++
    .worker 2 (.sent 7) false :: goes 2 3 ++
    [.worker 2 .pollReady false, .worker 2 .pipeEmpty false, .worker 2 .recvBlocked false] ++ goes 2 3 ++
    .worker 2 (.sent 7) false :: goes 2 3 ++ speaks 3 "IAME" ++ speaks 4 "IAMS" ++ speaks 5 "IAMW"

/-- With the first deal nobody writes to the worker whose `BUSY` waits. -/
theorem not_woken_busyForgotten :
    ∃ S, run [suitRound] 5 3 busyForgotten = some S ∧ ¬ NoLostWakeUp S := by
  have hfacts : (run [suitRound] 5 3 busyForgotten).bind (fun S => (S.threads 2).map fun w =>
      (S.server.playersConnected, S.server.exiting, w.stage, decide w.Deferred, S.server.workerMgr.unread 2)) =
      some (4, false, .poll, true, 0) := by decide +kernel
  obtain ⟨S, hS, hthread⟩ := Option.bind_eq_some_iff.mp hfacts
  obtain ⟨w, hw, heq⟩ := Option.map_eq_some_iff.mp hthread
  simp only [Prod.mk.injEq, decide_eq_true_eq] at heq
  obtain ⟨hpc, hexit, hpoll, hdeferred, hnone⟩ := heq
  refine ⟨S, hS, fun hwoken => ?_⟩
  have hpos := hwoken hpc hexit 2 w hw hpoll hdeferred
  omega

end System

end Kierki
