import Kierki.Common.Codec
import Kierki.Server.Tricks

/-!
# What the client can read

Every message that a call sends is one that the client's parser takes back to its fields, with one
exception.  After the last trick of the game the trick number is fourteen, and two calls still print
it: a `TRICK` from a player is answered by `WRONG14`, and a player who takes the last free seat again
is prompted by `TRICK14`.  `Overrun` names these two calls.
-/

namespace Kierki

open TrickGame

/-- The client's parser takes the message to its type and its fields. -/
def Understood (job : SendJob) : Prop :=
  ∃ k : MsgKind, k.forServer = false ∧ k.Valid job ∧
    parseNetMsg (job.genMsg.take (job.genMsg.length - 2)) false =
      .ok (("type", k.typeName) :: job.fields)

theorem MsgKind.Valid.understood {k : MsgKind} {job : SendJob} (h : k.Valid job)
    (hdir : k.forServer = false) : Understood job :=
  ⟨k, hdir, h, by rw [SendJob.genMsg_strip, ← hdir, parse_body h]⟩

/-- A message whose text the client refuses. -/
theorem not_understood {job : SendJob} (h : parseNetMsg job.body false = .ok []) :
    ¬ Understood job := by
  rintro ⟨k, -, -, hparse⟩
  rw [SendJob.genMsg_strip, h] at hparse
  cases hparse

theorem not_understood_wrong : ¬ Understood (.wrong 14) :=
  not_understood (by decide +kernel)

theorem not_understood_trick : ¬ Understood (.trick [] 14) :=
  not_understood (by decide +kernel)

/-- After `updatePenalties` both score maps have one entry for each side. -/
theorem entries_length {m : ScoreMap} (h : ∀ s, (m.find? s).isSome) : m.entries.length = 4 := by
  have hperm : m.keys.Perm Side.sides_ := by
    refine (List.perm_ext_iff_of_nodup m.keys_nodup Side.sides_nodup).mpr fun s => ?_
    simp [← m.find?_isSome_iff, h, Side.mem_sides_]
  have hlen := hperm.length_eq
  rwa [UnorderedMap.keys, List.length_map] at hlen

section Mirror

variable {scenario : GameScenario} {σ : Server} {S : CardGame}

/-- Numbers above the last trick are not reached: the number after it means that the game is over. -/
theorem Mirrors.trickNumber (h : Mirrors scenario σ S)
    (hno : σ.game.trickNo ≠ TRICKS_PER_ROUND + 1) : TrickNumber σ.game.trickNo := by
  have hdone : S.done.length ≤ TRICKS_PER_ROUND := by
    have hsize := h.hand_size .N
    omega
  rw [h.game.trickNo] at hno ⊢
  exact ⟨by omega, by omega⟩

/-- A prompt has room for the card it asks for. -/
theorem Mirrors.table_short (h : Mirrors scenario σ S) : σ.game.table.length ≤ 3 := by
  have hshort : S.plays.length < 4 := h.sound.short
  rw [h.game.table, List.length_map]
  omega

theorem Mirrors.understood_prompt (h : Mirrors scenario σ S)
    (hno : σ.game.trickNo ≠ TRICKS_PER_ROUND + 1) : Understood σ.game.msgTrick :=
  MsgKind.Valid.understood (k := .trickS) ⟨h.trickNumber hno, h.table_short⟩ rfl

/-- The number after the last trick means that the game is over. -/
theorem Mirrors.closed_of_trickNo (h : Mirrors scenario σ S)
    (hno : σ.game.trickNo = TRICKS_PER_ROUND + 1) : S.closed = true := by
  by_contra hopen
  have hdone : S.done.length < TRICKS_PER_ROUND := h.unfinished (by simpa using hopen)
  rw [h.game.trickNo] at hno
  omega

/-- The prompt after the last trick. -/
theorem Mirrors.msgTrick_over (h : Mirrors scenario σ S)
    (hno : σ.game.trickNo = TRICKS_PER_ROUND + 1) : σ.game.msgTrick = .trick [] 14 := by
  have htable : σ.game.table = [] := by
    rw [h.game.table, (h.sound.ended (h.closed_of_trickNo hno)).1]
    rfl
  rw [Game.msgTrick, htable, hno]
  rfl

/-- A trick that is announced again. -/
theorem Mirrors.understood_taken (h : Mirrors scenario σ S) {msg : SendJob}
    (hmsg : msg ∈ σ.game.takenInRound) : Understood msg := by
  rw [h.game.takenInRound] at hmsg
  obtain ⟨t, ht, rfl⟩ := List.mem_map.mp hmsg
  obtain ⟨leader, hfair⟩ := h.sound.course.fair kierki ht
  have hcards : t.cards.length = 4 := by
    rw [Trick.cards, List.length_map, ← List.length_map (f := Play.seat), hfair.order,
      List.length_iterate]
    rfl
  have hnumber : TrickNumber t.number := by
    have hmem : t.number ∈ List.range' 1 S.done.length := by
      rw [← h.sound.course.numbers kierki]
      exact List.mem_map_of_mem ht
    have hsize := h.hand_size .N
    rw [List.mem_range'_1] at hmem
    exact ⟨hmem.1, by omega⟩
  exact MsgKind.Valid.understood (k := .taken) ⟨hnumber, hcards⟩ rfl

end Mirror

namespace Server

open IOWorkerMgr Execution

/-- The deals that may still be sent have thirteen cards a hand, and the trick number is out of range
only once the server is exiting. -/
structure Dealt (σ : Server) : Prop where
  again : ∀ deal, σ.lastDeal = some deal → ∀ s, (deal s).length = TRICKS_PER_ROUND
  first : σ.lastDeal = none →
    σ.playersConnected ≤ 3 ∧ ∀ s, (σ.game.hands s).length = TRICKS_PER_ROUND
  ended : σ.game.trickNo = TRICKS_PER_ROUND + 1 → σ.exiting = true

theorem Dealt.finalized {σ σ' : Server} (h : Dealt σ) (hfin : Finalized σ σ') : Dealt σ' := by
  obtain ⟨hdeal, hpc, hexit⟩ := hfin.rest
  refine ⟨fun deal hd => h.again deal (hdeal ▸ hd), fun hd => ?_, fun _ => hexit⟩
  rw [hpc, hfin.frame.1]
  exact h.first (hdeal ▸ hd)

theorem Dealt.accepted {σ σ' : Server} {side : Side} {card : Card} (h : Dealt σ)
    (hpc : 4 ≤ σ.playersConnected) (hacc : Accepted σ side card σ') : Dealt σ' := by
  have hsome : σ.lastDeal ≠ none := by
    intro hnone
    have hfew := (h.first hnone).1
    omega
  cases hacc with
  | inTrick g mgr out hg _ _ _ =>
      subst hg
      exact ⟨h.again, fun hnone => absurd hnone hsome, h.ended⟩
  | trickDone g₀ g mgr out _ _ _ hno _ _ =>
      exact ⟨h.again, fun hnone => absurd hnone hsome, fun hover => absurd hover hno⟩
  | roundDone g₀ g₁ g r mgr out _ _ _ _ _ _ hg _ _ =>
      subst hg
      refine ⟨?_, by simp, fun hover => ?_⟩
      · rintro _ ⟨rfl⟩
        exact r.dealt
      · exact absurd (show (1 : Nat) = TRICKS_PER_ROUND + 1 from hover) (by decide)
  | gameDone g₀ g₁ g mgr out σ' _ _ _ _ _ _ _ _ hfin =>
      obtain ⟨hdeal, -, hexit⟩ := hfin.rest
      refine ⟨fun deal hd => h.again deal (hdeal ▸ hd), fun hnone => ?_, fun _ => hexit⟩
      exact absurd (hdeal ▸ hnone) hsome

theorem Dealt.effect {σ σ' : Server} {e : Call} {b : Bool} (h : Dealt σ) (heff : Effect σ e b σ') :
    Dealt σ' := by
  cases heff with
  | introLobby side ix _ _ hdeal hpc =>
      refine ⟨h.again, fun hnone => ?_, h.ended⟩
      obtain ⟨hfew, hhands⟩ := h.first hnone
      exact ⟨show σ.playersConnected + 1 ≤ 3 by omega, hhands⟩
  | introFirstDeal side ix mgr out _ _ hdeal _ _ _ =>
      refine ⟨?_, by simp, h.ended⟩
      rintro _ ⟨rfl⟩
      exact (h.first hdeal).2
  | introRejoin side ix deal mgr out _ _ hdeal _ _ _ =>
      exact ⟨h.again, fun hnone => absurd (hdeal.symm.trans hnone) (by simp), h.ended⟩
  | introResume side ix deal mgr out _ _ hdeal _ _ _ _ =>
      exact ⟨h.again, fun hnone => absurd (hdeal.symm.trans hnone) (by simp), h.ended⟩
  | trickAccepted n card ix side σ' hpc _ _ hacc => exact h.accepted hpc hacc
  | trickProxy n card ix σ' _ _ hfin | exitInternal errs ix hasWork σ' _ hfin
  | exitProxy errs ix hasWork σ' _ _ hfin =>
      refine Dealt.finalized ?_ hfin
      exact ⟨h.again, h.first, h.ended⟩
  | exitLeave errs ix hasWork s _ _ _ _ | exitLeaveErased errs ix hasWork s _ _ _ _ =>
      refine ⟨h.again, fun hnone => ?_, h.ended⟩
      obtain ⟨hfew, hhands⟩ := h.first hnone
      exact ⟨show σ.playersConnected - 1 ≤ 3 by omega, hhands⟩
  | _ => exact ⟨h.again, h.first, h.ended⟩

theorem run_dealt {scenario : GameScenario} {timeout : Int} {es : List Call} {σ : Server}
    (h : run scenario timeout es = some σ) : Dealt σ :=
  run_invariant (fun r _ => ⟨by simp [started, new], fun _ => ⟨show (0 : Int) ≤ 3 by decide, r.dealt⟩,
    fun hover => absurd (show (1 : Nat) = TRICKS_PER_ROUND + 1 from hover) (by decide)⟩)
    (fun _ _ _ _ hinv heff => hinv.effect heff) h

/-- The two calls that print the number after the last trick: a `TRICK` from a player, and an `IAM`
that takes the last free seat. -/
def Overrun (σ : Server) : Call → Prop
  | .playerTricked _ _ ix => σ.game.trickNo = TRICKS_PER_ROUND + 1 ∧ 4 ≤ σ.playersConnected ∧
      (σ.sideOf ix).isSome
  | .playerIntro side ix => σ.game.trickNo = TRICKS_PER_ROUND + 1 ∧ σ.playersConnected + 1 = 4 ∧
      σ.workerMgr.roles.find? ix = some .servingUnknown ∧ σ.activeSides side = none
  | _ => False

instance (σ : Server) : (e : Call) → Decidable (σ.Overrun e)
  | .playerTricked _ _ ix => inferInstanceAs (Decidable (σ.game.trickNo = TRICKS_PER_ROUND + 1 ∧
      4 ≤ σ.playersConnected ∧ (σ.sideOf ix).isSome))
  | .playerIntro side ix => inferInstanceAs (Decidable (σ.game.trickNo = TRICKS_PER_ROUND + 1 ∧
      σ.playersConnected + 1 = 4 ∧ σ.workerMgr.roles.find? ix = some .servingUnknown ∧
      σ.activeSides side = none))
  | .handleTimeout _ | .handleWrongMessage _ | .grandExitCallback _ _ _ | .execMutexed | .forwardConnection
  | .popNextJob _ | .handlePipe _ | .waitForClearing => inferInstanceAs (Decidable False)

theorem sidesBusy_length {σ : Server} {side : Side} {ix : Nat} (h : σ.activeSides side = some ix) :
    1 ≤ σ.sidesBusy.length ∧ σ.sidesBusy.length ≤ 4 := by
  have hmem : side ∈ σ.sidesBusy := by
    refine List.mem_filter.mpr ⟨by cases side <;> simp, ?_⟩
    rw [h]
    rfl
  exact ⟨List.length_pos_of_mem hmem, List.length_filter_le _ _⟩

theorem accepts_eq_some {σ : Server} {n : Nat} {card : Card} {ix : Nat} {m : Side × Card}
    (h : σ.accepts (.playerTricked n card ix) = some m) :
    4 ≤ σ.playersConnected ∧ σ.sideOf ix = some m.1 ∧ σ.admits n card m.1 ∧ m.2 = card := by
  by_cases hpc : 4 ≤ σ.playersConnected
  · cases hside : σ.sideOf ix with
    | none => simp [accepts, hpc, hside] at h
    | some side =>
        by_cases hgood : σ.admits n card side
        · obtain rfl : (side, card) = m := by simpa [accepts, hpc, hside, hgood] using h
          exact ⟨hpc, rfl, hgood, rfl⟩
        · simp [accepts, hpc, hside, hgood] at h
  · simp [accepts, hpc] at h

/-- **Every place that builds a message** builds one that the client understands, away from the two
calls that overrun. -/
theorem Emits.understood {scenario : GameScenario} {σ σ' : Server} {S S' : CardGame} {e : Call}
    {msg : SendJob} (h : Emits σ e σ' msg) (hmirrors : Mirrors scenario σ S)
    (hmirrors' : Mirrors scenario σ' S') (hdealt : Dealt σ) (hgo : ¬ σ.Overrun e) :
    Understood msg := by
  cases h with
  | busy side ix jx σ' hseat =>
      exact MsgKind.Valid.understood (k := .busy) (sidesBusy_length hseat) rfl
  | firstDeal side ix s σ' hdeal =>
      exact MsgKind.Valid.understood (k := .deal) ((hdealt.first hdeal).2 s) rfl
  | dealAgain side ix deal s σ' hdeal =>
      exact MsgKind.Valid.understood (k := .deal) (hdealt.again deal hdeal s) rfl
  | takenAgain side ix msg σ' hmsg => exact hmirrors.understood_taken hmsg
  | introPrompt side ix σ' hrole hseat hpc =>
      exact hmirrors.understood_prompt fun hno => hgo ⟨hno, hpc, hrole, hseat⟩
  | wrong n card ix side σ' hpc hside _ =>
      have hno : σ.game.trickNo ≠ TRICKS_PER_ROUND + 1 :=
        fun hno => hgo ⟨hno, hpc, by rw [hside]; rfl⟩
      exact MsgKind.Valid.understood (k := .wrong) (hmirrors.trickNumber hno) rfl
  -- after the last trick the server is exiting, and a timeout asks nobody
  | timeout ix σ' hexit =>
      refine hmirrors.understood_prompt fun hno => ?_
      rw [hdealt.ended hno] at hexit
      cases hexit
  | taken n card ix side σ' haccept hlen =>
      obtain ⟨hpc, hside, -⟩ := accepts_eq_some haccept
      have hno : σ.game.trickNo ≠ TRICKS_PER_ROUND + 1 :=
        fun hno => hgo ⟨hno, hpc, by rw [hside]; rfl⟩
      exact MsgKind.Valid.understood (k := .taken) ⟨hmirrors.trickNumber hno, hlen⟩ rfl
  | score n card ix m g σ' _ =>
      refine MsgKind.Valid.understood (k := .score) (entries_length fun s => ?_) rfl
      rw [(updatePenalties_find? g s).1]
      rfl
  | total n card ix m g σ' _ =>
      refine MsgKind.Valid.understood (k := .total) (entries_length fun s => ?_) rfl
      rw [(updatePenalties_find? g s).2]
      rfl
  -- the next deal is one of the scenario, which has thirteen cards for everyone
  | nextDeal n card ix m s r σ' _ _ =>
      exact MsgKind.Valid.understood (k := .deal) (r.dealt s) rfl
  | prompt n card ix side σ' _ hno => exact hmirrors'.understood_prompt hno

/-- The two calls do print the number, and the client does not understand it. -/
theorem Effect.overrun {scenario : GameScenario} {σ σ' : Server} {S : CardGame} {e : Call} {b : Bool}
    (heff : Effect σ e b σ') (hmirrors : Mirrors scenario σ S) (hdealt : Dealt σ)
    (hover : σ.Overrun e) : ∃ p ∈ mailed σ σ', ¬ Understood p.2 := by
  cases heff with
  | trickRejected n card ix jx side mgr hpc hside _ _ hpost =>
      -- the answer is a `WRONG` with the number behind the last trick
      obtain ⟨hno, -, -⟩ := hover
      rw [mailed_eq hpost.sent, hno]
      exact ⟨_, List.mem_singleton_self _, not_understood_wrong⟩
  | trickAccepted n card ix side σ' hpc hside hgood hacc =>
      exact absurd hover.1 (hmirrors.trickNo_ne hgood)
  | introFirstDeal side ix mgr out _ _ hdeal _ hpost haddr =>
      -- no deal is out, so that the hands are full and there has been no trick
      have hfull := (hdealt.first hdeal).2 .N
      rw [hmirrors.game.hands, hmirrors.no_card (hmirrors.closed_of_trickNo hover.1)] at hfull
      cases hfull
  | introResume side ix deal mgr out _ _ _ _ hpost haddr _ =>
      -- the resumed turn prints the number in its prompt
      obtain ⟨p, hp, -, heq⟩ := haddr.exists_mem (List.mem_cons_of_mem _
        (List.mem_append_right _ (List.mem_singleton_self _)))
      rw [mailed_eq hpost.sent]
      refine ⟨p, hp, ?_⟩
      rw [heq, hmirrors.msgTrick_over hover.1]
      exact not_understood_trick
  | introLobby side ix _ _ _ hpc | introRejoin side ix deal mgr out _ _ _ hpc _ _ =>
      exact absurd hover.2.1 hpc
  | introParked side ix role hrole hne hpc | introAgain side ix role mgr hrole hne _ _ _ _ =>
      exact absurd (Option.some.inj (hrole.symm.trans hover.2.2.1)) hne
  | introBusy side ix jx mgr _ hseat _ =>
      exact absurd (hseat.symm.trans hover.2.2.2) (by simp)
  | trickParked n card ix hpc => exact absurd hover.2.1 (not_le.mpr hpc)
  | trickUnknown n card ix mgr _ hrole _ _ _ | trickProxy n card ix σ' _ hrole _ =>
      simp [Overrun, sideOf, hrole] at hover
  | trickIgnored n card ix role _ hrole hdone =>
      rcases hdone with rfl | rfl <;> simp [Overrun, sideOf, hrole] at hover
  | _ => exact hover.elim

/-- **What the client can read.**  In every state a run can reach, a call sends only messages that the
client understands exactly if it is not one of the two calls that overrun; and in a run without such a
call, everything that was ever sent is understood. -/
theorem understood_iff {scenario : GameScenario} {timeout : Int} {es : List Call} {σ₀ σ : Server}
    (h₀ : start scenario timeout = .ok σ₀) (hes : exec step σ₀ es = some σ) :
    (∀ e b σ', σ.handle e = .ok (b, σ') →
      ((∀ p ∈ mailed σ σ', Understood p.2) ↔ ¬ σ.Overrun e)) ∧
    (Guarded step (fun σ e => ¬ σ.Overrun e) σ₀ es →
      ∀ p ∈ σ.workerMgr.sent, Understood p.2) := by
  -- one call that does not overrun, in any state of a run
  have hcall {es : List Call} {σ σ' : Server} {e : Call} {b : Bool}
      (hes : exec step σ₀ es = some σ) (h : Effect σ e b σ') (hstep : σ.step e = some σ')
      (hgo : ¬ σ.Overrun e) :
      ∃ out, σ'.workerMgr.sent = σ.workerMgr.sent ++ out ∧ ∀ p ∈ out, Understood p.2 := by
    have hrun : run scenario timeout es = some σ := run_eq_some.mpr ⟨σ₀, h₀, hes⟩
    have hrun' : run scenario timeout (es ++ [e]) = some σ' :=
      run_eq_some.mpr ⟨σ₀, h₀, exec_concat_eq_some.mpr ⟨σ, hes, hstep⟩⟩
    obtain ⟨S, hmirrors, -⟩ := run_reference hrun
    obtain ⟨S', hmirrors', -⟩ := run_reference hrun'
    obtain ⟨out, hsent, hout⟩ := h.emits fun n card ix side _ hgood => hmirrors.trickNo_ne hgood
    exact ⟨out, hsent, fun p hp =>
      (hout p hp).understood hmirrors hmirrors' (run_dealt hrun) hgo⟩
  refine ⟨fun e b σ' h => ⟨fun hall hover => ?_, fun hgo => ?_⟩, fun hguard => ?_⟩
  · have hrun : run scenario timeout es = some σ := run_eq_some.mpr ⟨σ₀, h₀, hes⟩
    obtain ⟨S, hmirrors, -⟩ := run_reference hrun
    obtain ⟨p, hp, hnot⟩ := (handle_effect h).overrun hmirrors (run_dealt hrun) hover
    exact hnot (hall p hp)
  · obtain ⟨out, hsent, hout⟩ := hcall hes (handle_effect h) (step_eq_some.mpr ⟨b, h⟩) hgo
    rwa [mailed_eq hsent]
  · refine exec_induction
      (P := fun es σ => Guarded step (fun σ e => ¬ σ.Overrun e) σ₀ es →
        ∀ p ∈ σ.workerMgr.sent, Understood p.2)
      (fun _ => ?_) (fun es σ e σ' hes ih he hg => ?_) es σ hes hguard
    · obtain ⟨r, -, rfl⟩ := start_eq_ok h₀
      simp [started, spawnNewWorker, IOWorkerMgr.new]
    · obtain ⟨hinit, hgo⟩ := guarded_concat hes hg
      obtain ⟨b, heff⟩ := step_effect he
      obtain ⟨out, hsent, hout⟩ := hcall hes heff he hgo
      rw [hsent]
      exact fun p hp => (List.mem_append.mp hp).elim (ih hinit p) (hout p)

/-- The whole of `suitRound` avoids the two calls, and the client understands all of it. -/
theorem understood_iff_wholeRound :
    ∃ σ, exec step (started [suitRound] 5 suitRound) wholeRound = some σ ∧
      ∀ p ∈ σ.workerMgr.sent, Understood p.2 := by
  have hsome : (exec step (started [suitRound] 5 suitRound) wholeRound).isSome := by
    decide +kernel
  obtain ⟨σ, hσ⟩ := Option.isSome_iff_exists.mp hsome
  exact ⟨σ, hσ, (understood_iff (start_cons suitRound [] 5) hσ).2 (by decide +kernel)⟩

/-- After the last trick a late `TRICK` is answered by a message the client cannot read. -/
theorem not_understood_lateTrick :
    ∃ σ σ', run [suitRound] 5 wholeRound = some σ ∧ σ.exiting = true ∧
      σ.handle (.playerTricked 13 ⟨.A, .colorC⟩ 1) = .ok (true, σ') ∧
      mailed σ σ' = [(1, .wrong 14)] ∧
      parseNetMsg (SendJob.wrong 14).body false = .ok [] ∧ ¬ Understood (.wrong 14) := by
  have hfacts : (run [suitRound] 5 wholeRound).map (fun σ => (σ.exiting,
      (σ.handle (.playerTricked 13 ⟨.A, .colorC⟩ 1)).map fun p => (p.1, mailed σ p.2))) =
      some (true, .ok (true, [(1, .wrong 14)])) := by
    decide +kernel
  obtain ⟨σ, hσ, heq⟩ := Option.map_eq_some_iff.mp hfacts
  obtain ⟨hexit, hmap⟩ := Prod.mk.inj heq
  cases htrick : σ.handle (.playerTricked 13 ⟨.A, .colorC⟩ 1) with
  | error f => simp [htrick, Except.map] at hmap
  | ok p =>
      obtain ⟨b, σ'⟩ := p
      obtain ⟨rfl, hmailed⟩ : b = true ∧ mailed σ σ' = [(1, .wrong 14)] := by
        simpa [htrick, Except.map] using hmap
      exact ⟨σ, σ', hσ, hexit, htrick, hmailed, by decide +kernel, not_understood_wrong⟩

end Server

end Kierki
