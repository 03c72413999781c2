import Kierki.Server.Reference
import Kierki.Server.Transmission

/-!
# While a player is missing

With fewer than four players the server accepts no card and lets nothing be sent, and a `TRICK` that is
offered waits at its thread.  So the accepted cards alone decide what the game has come to: a run with
absences in it and one without end in the same game, when the same cards were accepted.
-/

namespace Kierki

open Execution TrickGame

/-- A player is missing and the game goes on. -/
def Server.Paused (σ : Server) : Prop := σ.playersConnected < 4 ∧ σ.exiting = false

instance (σ : Server) : Decidable σ.Paused := by
  unfold Server.Paused
  infer_instance

theorem Server.Paused.accepts {σ : Server} (h : σ.Paused) (e : Server.Call) : σ.accepts e = none := by
  cases e with
  | playerTricked n card ix => exact if_neg (not_le.mpr h.1)
  | _ => rfl

namespace IOWorker

/-- The message that a thread offers next is a `TRICK`. -/
def TrickParked (w : IOWorker) : Prop :=
  ∃ msg rest n card, w.pendingIncoming = msg :: rest ∧ request msg = some (.trick n card)

/-- **A turn in a pause** sends nothing and leaves a `TRICK` where it waits. -/
theorem Move.paused {σ : Server} {ix : Nat} {w : IOWorker} {act : Action} (h : w.Move σ ix act)
    (hpause : σ.Paused) {b : Bool}
    (hcall : ∀ e, act.call? = some e → ∃ σ', σ.handle e = .ok (b, σ')) :
    (act.next b).wire = w.wire ∧
      (w.TrickParked → (act.next b).pendingIncoming = w.pendingIncoming) := by
  -- in a pause `execMutexed` answers no, and nothing is sent
  have hgate : ∀ e, act.call? = some e → e = .execMutexed → b = false := by
    rintro e he rfl
    obtain ⟨σ', hσ'⟩ := hcall _ he
    have hb : σ.execMutexed = b := congrArg Prod.fst (Except.ok.inj hσ')
    rw [← hb, Server.execMutexed]
    simp [hpause.1, hpause.2]
  cases h with
  | sent job rest n closeFails =>
      obtain rfl := hgate _ rfl rfl
      exact ⟨rfl, fun _ => rfl⟩
  | sentLast job rest n closeFails =>
      obtain rfl := hgate _ rfl rfl
      exact ⟨rfl, fun _ => rfl⟩
  | offerTrick msg rest n card _ hmsg hreq =>
      obtain ⟨σ', hσ'⟩ := hcall _ rfl
      -- the card is refused, so that it stays at the head of the parked messages
      rw [Server.handle, Server.playerTricked, if_pos hpause.1] at hσ'
      obtain rfl : false = b := congrArg Prod.fst (Except.ok.inj hσ')
      exact ⟨rfl, fun _ => rfl⟩
  | offerInvalid msg rest _ hmsg hreq =>
      refine ⟨by cases b <;> rfl, ?_⟩
      rintro ⟨msg', rest', n, card, hmsg', hreq'⟩
      obtain ⟨rfl, -⟩ := List.cons.inj (hmsg.symm.trans hmsg')
      cases hreq.symm.trans hreq'
  | offerIntro msg rest side _ hmsg hreq =>
      refine ⟨by cases b <;> rfl, ?_⟩
      rintro ⟨msg', rest', n, card, hmsg', hreq'⟩
      obtain ⟨rfl, -⟩ := List.cons.inj (hmsg.symm.trans hmsg')
      cases hreq.symm.trans hreq'
  | received c closeFails _ _ _ hnone =>
      have hwire : (w.receive c closeFails).wire = w.wire := by
        unfold receive
        dsimp only
        split
        · rfl
        · split <;> rfl
      refine ⟨hwire, ?_⟩
      rintro ⟨msg, rest, n, card, hmsg, -⟩
      rw [hnone] at hmsg
      cases hmsg
  | started pipeFails mainFails => cases pipeFails <;> cases mainFails <;> exact ⟨rfl, fun _ => rfl⟩
  | pollExit | corruptedExit | leaveExit => cases b <;> exact ⟨rfl, fun _ => rfl⟩
  | _ => exact ⟨rfl, fun _ => rfl⟩

end IOWorker

/-- The nine fields of the game, with the score maps as they are read. -/
structure SameGame (g g' : Game) : Prop where
  board : SameBoard g g'
  penalties : ∀ s, g'.penalties.find? s = g.penalties.find? s
  penaltiesRound : ∀ s, g'.penaltiesRound.find? s = g.penaltiesRound.find? s

/-- A state of the reference game is one of the server's games. -/
theorem Matches.same {g g' : Game} {G : CardGame} (h : Matches g G) (h' : Matches g' G) : SameGame g g' where
  board := ⟨h'.hands.trans h.hands.symm, h'.table.trans h.table.symm, h'.nextMove.trans h.nextMove.symm,
    h'.trickNo.trans h.trickNo.symm, h'.roundNumber.trans h.roundNumber.symm,
    h'.roundMode.trans h.roundMode.symm, h'.takenInRound.trans h.takenInRound.symm⟩
  penalties := fun s => (h'.penalties s).trans (h.penalties s).symm
  penaltiesRound := fun s => (h'.penaltiesRound s).trans (h.penaltiesRound s).symm

namespace System

variable {scenario : GameScenario} {timeout fd : Int}

/-- What a pause has left untouched since `S`. -/
structure Frozen (S S' : System) : Prop where
  game : S'.server.game = S.server.game
  wire : ∀ ix w', S'.threads ix = some w' → w'.wire = (S.threads ix).elim [] IOWorker.wire
  parked : ∀ ix w, S.threads ix = some w → ∃ w', S'.threads ix = some w' ∧
    (w.TrickParked → w'.pendingIncoming = w.pendingIncoming)

theorem Frozen.refl (S : System) : Frozen S S where
  game := rfl
  wire := fun ix w' hw' => by rw [hw']; rfl
  parked := fun ix w hw => ⟨w, hw, fun _ => rfl⟩

theorem Frozen.trans {S₁ S₂ S₃ : System} (h : Frozen S₁ S₂) (h' : Frozen S₂ S₃) : Frozen S₁ S₃ where
  game := h'.game.trans h.game
  wire := by
    intro ix w₃ hw₃
    rw [h'.wire ix w₃ hw₃]
    cases hw₂ : S₂.threads ix with
    | some w₂ => exact h.wire ix w₂ hw₂
    | none =>
        cases hw₁ : S₁.threads ix with
        | none => rfl
        | some w₁ =>
            obtain ⟨w₂, hw₂', -⟩ := h.parked ix w₁ hw₁
            rw [hw₂] at hw₂'
            cases hw₂'
  parked := by
    intro ix w₁ hw₁
    obtain ⟨w₂, hw₂, hkeep⟩ := h.parked ix w₁ hw₁
    obtain ⟨w₃, hw₃, hkeep'⟩ := h'.parked ix w₂ hw₂
    refine ⟨w₃, hw₃, fun hparked => ?_⟩
    have heq := hkeep hparked
    obtain ⟨msg, rest, n, card, hmsg, hreq⟩ := hparked
    exact (hkeep' ⟨msg, rest, n, card, heq.trans hmsg, hreq⟩).trans heq

/-- A thread stays on the list. -/
theorem Turn.thread_stays {S S' : System} {ev : Event} (h : Turn S ev S') {ix : Nat}
    (hix : (S.threads ix).isSome) : (S'.threads ix).isSome := by
  have hset : ∀ (T : System) (jx : Nat) (w : IOWorker), (T.threads ix).isSome →
      ((T.setThread jx w).threads ix).isSome := by
    intro T jx w hT
    by_cases hjx : ix = jx
    · subst hjx
      rw [setThread_self]
      rfl
    · rwa [setThread_of_ne T w hjx]
  cases h with
  | cleaner => exact hix
  | silent => exact hset _ _ _ hix
  | call => exact hset _ _ _ hix
  | connect => exact hset _ _ _ (hset _ _ _ hix)

/-- One turn in a pause. -/
theorem Turn.frozen {S S' : System} {ev : Event} (h : Turn S ev S') (hcrew : Crewed S)
    (hpause : S.server.Paused) : Frozen S S' where
  game := by
    rcases h.server with ⟨-, hsame⟩ | ⟨e, b, -, hhandle⟩
    · rw [hsame]
    · rcases (Server.handle_effect hhandle).accepts_cases with ⟨-, hgame, -⟩ | ⟨n, card, ix, side, -, hacc, -⟩
      · exact hgame
      · rw [hpause.accepts] at hacc
        cases hacc
  wire := by
    intro ix w' hw'
    rcases h.thread hw' with ⟨hw, -⟩ | ⟨a, closeFails, w, act, b, -, hw, hmove, -, rfl, hcall⟩ |
      ⟨rfl, -, fd, rfl⟩
    · rw [hw]
      rfl
    · rw [hw]
      exact (hmove.paused hpause fun e he => ⟨_, hcall e he⟩).1
    · -- a new worker
      have hnone : S.threads S.server.workerMgr.nextIx = none := by
        rw [Option.eq_none_iff_forall_ne_some]
        exact fun w hw => absurd (hcrew.known _ w hw) (lt_irrefl _)
      rw [hnone]
      rfl
  parked := by
    intro ix w hw
    obtain ⟨w', hw'⟩ := Option.isSome_iff_exists.mp (h.thread_stays (by rw [hw]; rfl))
    refine ⟨w', hw', ?_⟩
    rcases h.thread hw' with ⟨hsame, -⟩ | ⟨a, closeFails, v, act, b, -, hv, hmove, -, rfl, hcall⟩ |
      ⟨rfl, -⟩
    · obtain rfl : w = w' := Option.some.inj (hw.symm.trans hsame)
      exact fun _ => rfl
    · obtain rfl : w = v := Option.some.inj (hw.symm.trans hv)
      exact (hmove.paused hpause fun e he => ⟨_, hcall e he⟩).2
    · exact absurd (hcrew.known _ w hw) (lt_irrefl _)

/-- The cards that were accepted in a run of the system. -/
def moves (scenario : GameScenario) (timeout fd : Int) (evs : List Event) : List (Side × Card) :=
  Server.moves scenario timeout (calls scenario timeout fd evs)

theorem run_append {evs evs' : List Event} {S S' : System} (h : run scenario timeout fd evs = some S)
    (h' : exec step S evs' = some S') : run scenario timeout fd (evs ++ evs') = some S' := by
  obtain ⟨S₀, h₀, hevs⟩ := run_eq_some.mp h
  refine run_eq_some.mpr ⟨S₀, h₀, ?_⟩
  rw [exec_append, hevs]
  exact h'

/-- A turn in a pause accepts no card. -/
theorem moves_paused {evs : List Event} {ev : Event} {S S' : System}
    (h : run scenario timeout fd evs = some S) (hstep : S.step ev = some S')
    (hpause : S.server.Paused) :
    moves scenario timeout fd (evs ++ [ev]) = moves scenario timeout fd evs := by
  obtain ⟨h', hcalls⟩ := run_concat h hstep
  have hserver := run_server h'
  rw [moves, hcalls] at *
  cases hcall : S.callOf ev with
  | none => rw [Option.toList_none, List.append_nil, moves]
  | some e =>
      rw [hcall] at hserver
      rw [Option.toList_some, Server.moves_concat (run_server h) hserver, hpause.accepts e]
      simp [moves]

/-- **A pause freezes the game.** -/
theorem frozen_of_paused {evs evs' : List Event} {S S' : System}
    (h : run scenario timeout fd evs = some S) (h' : exec step S evs' = some S')
    (hpause : Guarded step (fun S _ => S.server.Paused) S evs') :
    Frozen S S' ∧ moves scenario timeout fd (evs ++ evs') = moves scenario timeout fd evs := by
  refine exec_induction (P := fun evs' S' => Guarded step (fun S _ => S.server.Paused) S evs' →
    Frozen S S' ∧ moves scenario timeout fd (evs ++ evs') = moves scenario timeout fd evs)
    (fun _ => ⟨Frozen.refl S, by rw [List.append_nil]⟩) (fun evs' S' ev S'' hevs' ih hstep hguard => ?_)
    evs' S' h' hpause
  obtain ⟨hinit, hlast⟩ := guarded_concat hevs' hguard
  obtain ⟨hfrozen, hmoves⟩ := ih hinit
  have hrun := run_append h hevs'
  refine ⟨hfrozen.trans ((step_turn hstep).frozen (crewed_run hrun) hlast), ?_⟩
  rw [← List.append_assoc, moves_paused hrun hstep hlast, hmoves]

/-- **The server refines a pure card game.**  After every run of the system its game is the state of the
reference game to which the accepted cards lead.  As long as a player is missing and the game goes on, no
card is accepted, no byte is sent on any connection, and a `TRICK` that is offered stays where it is.  So
two runs in which the same cards were accepted have come to the same game, whoever left and came back in
between. -/
theorem refines_cardGame {evs : List Event} {S : System} (h : run scenario timeout fd evs = some S) :
    (∃ r G, scenario[0]? = some r ∧ exec (State.play kierki (deals scenario)) (State.start r.toDeal)
      (moves scenario timeout fd evs) = some G ∧ Matches S.server.game G) ∧
    (∀ evs' S', exec step S evs' = some S' →
      Guarded step (fun S _ => S.server.Paused) S evs' →
        Frozen S S' ∧ moves scenario timeout fd (evs ++ evs') = moves scenario timeout fd evs) ∧
    ∀ timeout' fd' evs' S', run scenario timeout' fd' evs' = some S' →
      moves scenario timeout' fd' evs' = moves scenario timeout fd evs →
        SameGame S.server.game S'.server.game := by
  obtain ⟨G, hmirrors, r, hr, hexec⟩ := Server.run_reference (run_server h)
  refine ⟨⟨r, G, hr, hexec, hmirrors.game⟩, fun evs' S' => frozen_of_paused h, ?_⟩
  intro timeout' fd' evs' S' h' hmoves
  obtain ⟨G', hmirrors', r', hr', hexec'⟩ := Server.run_reference (run_server h')
  obtain rfl : r = r' := Option.some.inj (hr.symm.trans hr')
  rw [moves, moves] at hmoves
  rw [hmoves, hexec] at hexec'
  obtain rfl := Option.some.inj hexec'
  exact hmirrors.game.same hmirrors'.game

/-- Four players sit down, and `N` puts a card. -/
def firstCard : List Event :=
  accepts [11, 12, 13, 14, 15] ++ speaks 1 "IAMN" ++ speaks 2 "IAME" ++ speaks 3 "IAMS" ++ speaks 4 "IAMW" ++
    settles 1 [35, 8] ++ hears 1 "TRICK12C" ++ goes 1 1

/-- `E` puts the next one. -/
def twoCardsPut : List Event := firstCard ++ settles 2 [35, 10] ++ hears 2 "TRICK12D" ++ goes 2 1

/-- The sends to `E` fail instead, which frees its seat, and `S` sends a card in the pause. -/
def cardInPause : List Event :=
  firstCard ++ goes 2 5 ++ [.worker 2 (.sent 0) false, .worker 2 (.sent 0) false] ++ goes 2 2 ++
    goes 3 4 ++ .worker 3 (.sent 0) false :: goes 3 3 ++ hears 3 "TRICK12H"

/-- The card is refused, and so is the deal that waits for `S`. -/
def waitsInPause : List Event := goes 3 3 ++ .worker 3 (.sent 0) false :: goes 3 3

/-- Somebody else sits down for `E` and puts its card. -/
def comesBack : List Event :=
  cardInPause ++ waitsInPause ++ speaks 5 "IAME" ++ settles 5 [35, 10] ++ hears 5 "TRICK12D" ++ goes 5 1

theorem refines_cardGame_comesBack :
    ∃ S P w w' T U, run [suitRound] 5 3 cardInPause = some S ∧ exec step S waitsInPause = some P ∧
      S.threads 3 = some w ∧ P.threads 3 = some w' ∧ w'.stage = .poll ∧
      w'.pendingIncoming = ["TRICK12H".toList] ∧ w'.wire = [] ∧ P.server.game = S.server.game ∧
      run [suitRound] 5 3 comesBack = some T ∧ run [suitRound] 5 3 twoCardsPut = some U ∧
      T.server.game.table = [⟨.v2, .colorC⟩, ⟨.v2, .colorD⟩] ∧ SameGame T.server.game U.server.game := by
  have hfacts : (run [suitRound] 5 3 cardInPause).bind (fun S => (exec step S waitsInPause).bind
      fun P => (S.threads 3).bind fun w => (P.threads 3).map fun w' =>
        decide (Guarded step (fun S _ => S.server.Paused) S waitsInPause ∧
          w.pendingIncoming = ["TRICK12H".toList] ∧ w.wire = [] ∧
          request "TRICK12H".toList = some (.trick 1 ⟨.v2, .colorH⟩) ∧ w'.stage = .poll)) =
      some true := by decide +kernel
  have hmoves : moves [suitRound] 5 3 twoCardsPut = moves [suitRound] 5 3 comesBack := by decide +kernel
  have htable : (run [suitRound] 5 3 comesBack).map (fun T => T.server.game.table) =
      some [⟨.v2, .colorC⟩, ⟨.v2, .colorD⟩] := by decide +kernel
  have hstays : (run [suitRound] 5 3 twoCardsPut).isSome := by decide +kernel
  obtain ⟨S, hS, hfacts⟩ := Option.bind_eq_some_iff.mp hfacts
  obtain ⟨P, hP, hfacts⟩ := Option.bind_eq_some_iff.mp hfacts
  obtain ⟨w, hw, hfacts⟩ := Option.bind_eq_some_iff.mp hfacts
  obtain ⟨w', hw', hfacts⟩ := Option.map_eq_some_iff.mp hfacts
  obtain ⟨hguard, hparked, hwire, hreq, hpoll⟩ := of_decide_eq_true hfacts
  obtain ⟨hfrozen, -⟩ := (refines_cardGame hS).2.1 waitsInPause P hP hguard
  obtain ⟨v, hv, hkeep⟩ := hfrozen.parked 3 w hw
  obtain rfl : v = w' := Option.some.inj (hv.symm.trans hw')
  have hsame := hfrozen.wire 3 v hv
  rw [hw] at hsame
  obtain ⟨T, hT, htable⟩ := Option.map_eq_some_iff.mp htable
  obtain ⟨U, hU⟩ := Option.isSome_iff_exists.mp hstays
  exact ⟨S, P, w, v, T, U, hS, hP, hw, hw', hpoll, (hkeep ⟨_, _, _, _, hparked, hreq⟩).trans hparked,
    hsame.trans hwire, hfrozen.game, hT, hU, htable, (refines_cardGame hT).2.2 5 3 twoCardsPut U hU hmoves⟩

end System

end Kierki
