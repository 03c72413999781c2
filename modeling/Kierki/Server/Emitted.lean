import Kierki.Server.Effect

/-!
# What a call sends

`sent` only ever grows.  `Emits σ e σ' msg` lists the messages that the call `e` can hand to a job queue
on its way from `σ` to `σ'`, with what is known where each of them is built.
-/

namespace Kierki
namespace Server

open IOWorkerMgr

/-- The messages of a call, by the place that builds them. -/
inductive Emits (σ : Server) : Call → Server → SendJob → Prop
  | busy (side : Side) (ix jx : Nat) (σ' : Server) (hseat : σ.activeSides side = some jx) :
      Emits σ (.playerIntro side ix) σ' (.busy σ.sidesBusy)
  | firstDeal (side : Side) (ix : Nat) (s : Side) (σ' : Server) (hdeal : σ.lastDeal = none) :
      Emits σ (.playerIntro side ix) σ' (σ.game.msgDeal (σ.game.hands s))
  | dealAgain (side : Side) (ix : Nat) (deal : TableState) (s : Side) (σ' : Server)
      (hdeal : σ.lastDeal = some deal) :
      Emits σ (.playerIntro side ix) σ' (σ.game.msgDeal (deal s))
  | takenAgain (side : Side) (ix : Nat) (msg : SendJob) (σ' : Server)
      (hmsg : msg ∈ σ.game.takenInRound) : Emits σ (.playerIntro side ix) σ' msg
  | introPrompt (side : Side) (ix : Nat) (σ' : Server)
      (hrole : σ.workerMgr.roles.find? ix = some .servingUnknown)
      (hseat : σ.activeSides side = none) (hpc : σ.playersConnected + 1 = 4) :
      Emits σ (.playerIntro side ix) σ' σ.game.msgTrick
  | wrong (n : Nat) (card : Card) (ix : Nat) (side : Side) (σ' : Server)
      (hpc : 4 ≤ σ.playersConnected) (hside : σ.sideOf ix = some side)
      (hbad : ¬ σ.admits n card side) :
      Emits σ (.playerTricked n card ix) σ' (.wrong σ.game.trickNo)
  | timeout (ix : Nat) (σ' : Server) (hexit : σ.exiting = false) :
      Emits σ (.handleTimeout ix) σ' σ.game.msgTrick
  | taken (n : Nat) (card : Card) (ix : Nat) (side : Side) (σ' : Server)
      (haccept : σ.accepts (.playerTricked n card ix) = some (side, card))
      (hlen : (σ.game.putCard side card).table.length = 4) :
      Emits σ (.playerTricked n card ix) σ' (σ.game.putCard side card).msgTaken
  | score (n : Nat) (card : Card) (ix : Nat) (m : Side × Card) (g : Game) (σ' : Server)
      (haccept : σ.accepts (.playerTricked n card ix) = some m) :
      Emits σ (.playerTricked n card ix) σ' (.score g.updatePenalties.penaltiesRound.entries)
  | total (n : Nat) (card : Card) (ix : Nat) (m : Side × Card) (g : Game) (σ' : Server)
      (haccept : σ.accepts (.playerTricked n card ix) = some m) :
      Emits σ (.playerTricked n card ix) σ' (.total g.updatePenalties.penalties.entries)
  | nextDeal (n : Nat) (card : Card) (ix : Nat) (m : Side × Card) (s : Side) (r : Round)
      (σ' : Server) (haccept : σ.accepts (.playerTricked n card ix) = some m)
      (hmode : σ'.game.roundMode = r.mode) :
      Emits σ (.playerTricked n card ix) σ' (σ'.game.msgDeal (r.deal s))
  | prompt (n : Nat) (card : Card) (ix : Nat) (side : Side) (σ' : Server)
      (haccept : σ.accepts (.playerTricked n card ix) = some (side, card))
      (hno : σ'.game.trickNo ≠ TRICKS_PER_ROUND + 1) :
      Emits σ (.playerTricked n card ix) σ' σ'.game.msgTrick

theorem mem_toAll {σ : Server} {msg msg' : SendJob} {ix : Option Nat}
    (h : (ix, msg') ∈ σ.toAll msg) : msg' = msg := by
  obtain ⟨s, -, heq⟩ := List.mem_map.mp h
  exact (Prod.mk.inj heq).2.symm

theorem mem_scoreJobs {σ : Server} {g : Game} {msg : SendJob} {ix : Option Nat}
    (h : (ix, msg) ∈ σ.scoreJobs g) :
    msg = .score g.penaltiesRound.entries ∨ msg = .total g.penalties.entries := by
  obtain ⟨s, -, hmem⟩ := List.mem_flatMap.mp h
  rcases List.mem_cons.mp hmem with heq | hmem
  · exact .inl (Prod.mk.inj heq).2
  · exact .inr (Prod.mk.inj (List.mem_singleton.mp hmem)).2

theorem mem_dealJobs {σ : Server} {g : Game} {msg : SendJob} {ix : Option Nat}
    (h : (ix, msg) ∈ σ.dealJobs g) : ∃ s, msg = g.msgDeal (g.hands s) := by
  obtain ⟨s, -, heq⟩ := List.mem_map.mp h
  exact ⟨s, (Prod.mk.inj heq).2.symm⟩

theorem mem_promptJobs {σ : Server} {g : Game} {msg : SendJob} {ix : Option Nat}
    (h : (ix, msg) ∈ σ.promptJobs g) : msg = g.msgTrick :=
  (Prod.mk.inj (List.mem_singleton.mp h)).2

/-- The messages of an accepted card. -/
theorem Accepted.emits {σ σ' : Server} {n : Nat} {card : Card} {ix : Nat} {side : Side}
    (h : Accepted σ side card σ')
    (haccept : σ.accepts (.playerTricked n card ix) = some (side, card))
    (hno : σ.game.trickNo ≠ TRICKS_PER_ROUND + 1) :
    ∃ out, σ'.workerMgr.sent = σ.workerMgr.sent ++ out ∧
      ∀ p ∈ out, Emits σ (.playerTricked n card ix) σ' p.2 := by
  cases h with
  | inTrick g mgr out hg _ hpost haddr =>
      refine ⟨out, hpost.sent, fun p hp => ?_⟩
      rw [mem_promptJobs ((haddr.mem_iff p.1 p.2).mp hp)]
      exact .prompt n card ix side _ haccept (by rw [hg]; exact hno)
  | trickDone g₀ g mgr out hg₀ hlen hg hnext hpost haddr =>
      refine ⟨out, hpost.sent, fun p hp => ?_⟩
      rcases List.mem_append.mp ((haddr.mem_iff p.1 p.2).mp hp) with hmem | hmem
      · rw [mem_toAll hmem, hg₀]
        exact .taken n card ix side _ haccept (hg₀ ▸ hlen)
      · rw [mem_promptJobs hmem]
        exact .prompt n card ix side _ haccept hnext
  | roundDone g₀ g₁ g r mgr out hg₀ hlen hg₁ _ _ hr hg hpost haddr =>
      refine ⟨out, hpost.sent, fun p hp => ?_⟩
      rcases List.mem_append.mp ((haddr.mem_iff p.1 p.2).mp hp) with hmem | hmem
      · rw [mem_toAll hmem, hg₀]
        exact .taken n card ix side _ haccept (hg₀ ▸ hlen)
      rcases List.mem_append.mp hmem with hmem | hmem
      · rcases mem_scoreJobs hmem with heq | heq <;> rw [heq, hg₁]
        · exact .score n card ix _ _ _ haccept
        · exact .total n card ix _ _ _ haccept
      rcases List.mem_append.mp hmem with hmem | hmem
      · obtain ⟨s, heq⟩ := mem_dealJobs hmem
        have hhands : g.hands s = r.deal s := by rw [hg]; rfl
        rw [heq, hhands]
        exact .nextDeal n card ix _ s r _ haccept (by rw [hg]; rfl)
      · rw [mem_promptJobs hmem]
        refine .prompt n card ix side _ haccept ?_
        -- the new round begins with the first trick
        have hone : g.trickNo = 1 := by rw [hg]; rfl
        change g.trickNo ≠ _
        rw [hone]
        decide
  | gameDone g₀ g₁ g mgr out σ' hg₀ hlen hg₁ _ _ hg hpost haddr hfin =>
      refine ⟨out, hfin.frame.2.2.trans hpost.sent, fun p hp => ?_⟩
      rcases List.mem_append.mp ((haddr.mem_iff p.1 p.2).mp hp) with hmem | hmem
      · rw [mem_toAll hmem, hg₀]
        exact .taken n card ix side _ haccept (hg₀ ▸ hlen)
      · rcases mem_scoreJobs hmem with heq | heq <;> rw [heq, hg₁]
        · exact .score n card ix _ _ _ haccept
        · exact .total n card ix _ _ _ haccept

/-- **What a call sends**, away from the state after the last trick. -/
theorem Effect.emits {σ σ' : Server} {e : Call} {b : Bool} (h : Effect σ e b σ')
    (hno : ∀ n card ix side, e = .playerTricked n card ix → σ.admits n card side →
      σ.game.trickNo ≠ TRICKS_PER_ROUND + 1) :
    ∃ out, σ'.workerMgr.sent = σ.workerMgr.sent ++ out ∧ ∀ p ∈ out, Emits σ e σ' p.2 := by
  cases h with
  | introBusy side ix jx mgr _ hseat hpost =>
      exact ⟨_, hpost.sent, by simpa using Emits.busy side ix jx _ hseat⟩
  | introFirstDeal side ix mgr out hrole hseat hdeal hpc hpost haddr =>
      refine ⟨out, hpost.sent, fun p hp => ?_⟩
      rcases List.mem_append.mp ((haddr.mem_iff p.1 p.2).mp hp) with hmem | hmem
      · obtain ⟨s, heq⟩ := mem_dealJobs hmem
        rw [heq]
        exact .firstDeal side ix s _ hdeal
      · rw [mem_promptJobs hmem]
        exact .introPrompt side ix _ hrole hseat hpc
  | introRejoin side ix deal mgr out _ _ hdeal _ hpost haddr =>
      refine ⟨out, hpost.sent, fun p hp => ?_⟩
      rcases List.mem_cons.mp ((haddr.mem_iff p.1 p.2).mp hp) with heq | hmem
      · rw [(Prod.mk.inj heq).2]
        exact .dealAgain side ix deal side _ hdeal
      · obtain ⟨msg, hmsg, heq⟩ := List.mem_map.mp hmem
        rw [← (Prod.mk.inj heq).2]
        exact .takenAgain side ix msg _ hmsg
  | introResume side ix deal mgr out hrole hseat hdeal hpc hpost haddr _ =>
      refine ⟨out, hpost.sent, fun p hp => ?_⟩
      rcases List.mem_cons.mp ((haddr.mem_iff p.1 p.2).mp hp) with heq | hmem
      · rw [(Prod.mk.inj heq).2]
        exact .dealAgain side ix deal side _ hdeal
      rcases List.mem_append.mp hmem with hmem | hmem
      · obtain ⟨msg, hmsg, heq⟩ := List.mem_map.mp hmem
        rw [← (Prod.mk.inj heq).2]
        exact .takenAgain side ix msg _ hmsg
      · rw [mem_promptJobs hmem]
        exact .introPrompt side ix _ hrole hseat hpc
  | trickRejected n card ix jx side mgr hpc hside hbad _ hpost =>
      exact ⟨_, hpost.sent, by simpa using Emits.wrong n card ix side _ hpc hside hbad⟩
  | trickAccepted n card ix side σ' hpc hside hgood hacc =>
      exact hacc.emits (by simp [accepts, hpc, hside, hgood]) (hno n card ix side rfl hgood)
  | timeoutPrompt ix mgr hexit _ _ _ hpost =>
      exact ⟨_, hpost.sent, by simpa using Emits.timeout ix _ hexit⟩
  -- from here on nothing is sent: kill orders, changed roles, workers that come and go
  | introAgain side ix role mgr _ _ _ hpost _ _ => exact ⟨[], hpost.sent, by simp⟩
  | trickUnknown n card ix mgr _ _ hpost _ _ => exact ⟨[], hpost.sent, by simp⟩
  | trickProxy n card ix σ' _ _ hfin => exact ⟨[], by rw [hfin.frame.2.2]; simp [withRole], by simp⟩
  | timeoutKill ix mgr _ _ hpost _ _ => exact ⟨[], hpost.sent, by simp⟩
  | wrongKill ix mgr _ hpost _ _ => exact ⟨[], hpost.sent, by simp⟩
  | exitInternal errs ix hasWork σ' _ hfin => exact ⟨[], by rw [hfin.frame.2.2]; simp, by simp⟩
  | exitUnknown errs ix hasWork _ _ | exitErased errs ix hasWork _ _ _ _ _ =>
      exact ⟨[], by simp, by simp⟩
  | exitProxy errs ix hasWork σ' _ _ hfin => exact ⟨[], by rw [hfin.frame.2.2]; simp, by simp⟩
  | exitLeaveErased errs ix hasWork s _ _ _ _ => exact ⟨[], by simp [unseated], by simp⟩
  | _ => exact ⟨[], by simp [seated, withRole, forwardConnection, spawnNewWorker,
      IOWorkerMgr.handlePipe], by simp⟩

/-- The messages that went into the mail between two states. -/
def mailed (σ σ' : Server) : List (Nat × SendJob) :=
  σ'.workerMgr.sent.drop σ.workerMgr.sent.length

theorem mailed_eq {σ σ' : Server} {out : List (Nat × SendJob)}
    (h : σ'.workerMgr.sent = σ.workerMgr.sent ++ out) : mailed σ σ' = out := by
  rw [mailed, h, List.drop_left]

end Server
end Kierki
