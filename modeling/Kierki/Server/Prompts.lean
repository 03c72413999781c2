import Kierki.Server.Deals

/-!
# Prompts

The player to move is prompted at four places: with the first deal, after a card, when the fourth seat
is filled again, and on a timeout.  A call renews the turn when it accepts a card or fills the fourth
seat (`Renews`); it then prompts, and until the next such call the turn, the table and the seats stay
as they are as long as four players are connected.
-/

namespace Kierki

open TrickGame Execution

namespace Server

open IOWorkerMgr

/-- The call accepts a card, or fills the fourth seat. -/
def Renews (σ : Server) : Call → Prop
  | .playerIntro side ix => σ.workerMgr.roles.find? ix = some .servingUnknown ∧
      σ.activeSides side = none ∧ σ.playersConnected + 1 = 4
  | e => (σ.accepts e).isSome

/-- A prompt among the jobs of a call reaches the player to move. -/
theorem prompted_of_jobs {σ σ' : Server} {g : Game} {out : List (Nat × SendJob)}
    {jobs : List (Option Nat × SendJob)} (hsent : σ'.workerMgr.sent = σ.workerMgr.sent ++ out)
    (haddr : Addressed jobs out) (hgame : σ'.game = g) (hjob : σ'.promptJobs g ⊆ jobs) :
    ∃ ix, σ'.activeSides σ'.game.nextMove = some ix ∧ (ix, σ'.game.msgTrick) ∈ mailed σ σ' := by
  subst hgame
  have hmem : (σ'.activeSides σ'.game.nextMove, σ'.game.msgTrick) ∈ jobs :=
    hjob (List.mem_singleton_self _)
  obtain ⟨⟨ix, msg⟩, hout, hix, hmsg⟩ := haddr.exists_mem hmem
  refine ⟨ix, hix.symm, ?_⟩
  rw [mailed_eq hsent, ← hmsg]
  exact hout

/-- **A renewed turn is prompted**, unless the game is over. -/
theorem Effect.prompts {σ σ' : Server} {e : Call} {b : Bool} (h : Effect σ e b σ')
    (hrenews : Renews σ e) (hgo : σ'.game.roundNumber ≠ σ'.gameScenario.length) :
    ∃ ix, σ'.activeSides σ'.game.nextMove = some ix ∧ (ix, σ'.game.msgTrick) ∈ mailed σ σ' := by
  rcases h.accepts_cases with ⟨hnone, -⟩ | ⟨n, card, jx, side, rfl, -, -, -, -, hacc⟩
  -- an accepted card ends with the prompt, unless it ends the game
  case inr =>
    cases hacc with
    | inTrick g mgr out hg hlen hpost haddr =>
        exact prompted_of_jobs hpost.sent haddr rfl (List.Subset.refl _)
    | trickDone g₀ g mgr out hg₀ hlen hg hno hpost haddr =>
        exact prompted_of_jobs hpost.sent haddr rfl (List.subset_append_right _ _)
    | roundDone g₀ g₁ g r mgr out hg₀ hlen hg₁ hno hlast hr hg hpost haddr =>
        refine prompted_of_jobs hpost.sent haddr rfl (List.Subset.trans ?_
          (List.subset_append_right _ _))
        exact List.Subset.trans (List.subset_append_right _ _) (List.subset_append_right _ _)
    | gameDone g₀ g₁ g mgr out σ' hg₀ hlen hg₁ hno hlast hg hpost haddr hfin =>
        refine absurd ?_ hgo
        rw [hfin.frame.1, hfin.frame.2.1, hg]
        exact hlast
  -- otherwise it is an `IAM` that makes the table full
  cases e with
  | playerIntro side ix =>
      obtain ⟨hrole, hfree, hpc⟩ := hrenews
      cases h with
      | introParked _ _ _ hrole' hne | introAgain _ _ _ _ hrole' hne =>
          exact absurd (Option.some.inj (hrole'.symm.trans hrole)) hne
      | introBusy _ _ jx _ _ hjx =>
          rw [hfree] at hjx
          cases hjx
      | introLobby _ _ _ _ _ hpc' => exact absurd hpc hpc'
      | introRejoin _ _ _ _ _ _ _ _ hpc' => exact absurd hpc hpc'
      | introFirstDeal _ _ mgr out _ _ hdeal _ hpost haddr =>
          exact prompted_of_jobs hpost.sent haddr rfl (List.subset_append_right _ _)
      | introResume _ _ deal mgr out _ _ hdeal _ hpost haddr hwoken =>
          refine prompted_of_jobs hpost.sent haddr rfl (List.Subset.trans ?_
            (List.subset_cons_self _ _))
          exact List.subset_append_right _ _
  | _ => simp [Renews, hnone] at hrenews

/-- Between two renewals a full table stays as it is. -/
theorem Effect.still {σ σ' : Server} {e : Call} {b : Bool} (h : Effect σ e b σ')
    (hbook : SeatBook σ) (hstill : ¬ Renews σ e) (hpc : σ'.playersConnected = 4) :
    σ.playersConnected = 4 ∧ σ'.activeSides = σ.activeSides ∧ σ'.game = σ.game := by
  have hle := hbook.count_le
  cases h with
  | introLobby side ix hrole hfree hdeal hpc' => exact absurd hpc hpc'
  | introRejoin side ix deal mgr out hrole hfree hdeal hpc' hpost haddr => exact absurd hpc hpc'
  | introFirstDeal side ix mgr out hrole hfree hdeal hpc' hpost haddr =>
      exact absurd ⟨hrole, hfree, hpc'⟩ hstill
  | introResume side ix deal mgr out hrole hfree hdeal hpc' hpost haddr hwoken =>
      exact absurd ⟨hrole, hfree, hpc'⟩ hstill
  | trickAccepted n card ix side σ' hpc' hside hgood hacc =>
      simp [Renews, accepts, hpc', hside, hgood] at hstill
  | trickProxy n card ix σ' _ _ hfin | exitInternal errs ix hasWork σ' _ hfin
  | exitProxy errs ix hasWork σ' _ _ hfin =>
      exact ⟨hfin.sameSeats.playersConnected.symm.trans hpc, hfin.sameSeats.activeSides, hfin.frame.1⟩
  | exitLeave errs ix hasWork s _ _ _ _ | exitLeaveErased errs ix hasWork s _ _ _ _ =>
      have hless : σ.playersConnected - 1 = 4 := hpc
      omega
  | _ => exact ⟨hpc, rfl, rfl⟩

/-- A prompt is for the player to move, and shows the table and the number of the trick. -/
theorem Delivers.prompt {scenario : GameScenario} {σ σ' : Server} {S : CardGame} {s : Side} {ix : Nat}
    {e : Call} {msgs : List SendJob} (h : Delivers σ s ix e σ' msgs) (hmirrors : Mirrors scenario σ S)
    {cards : Table} {n : Nat} (hmsg : .trick cards n ∈ msgs) :
    σ'.game.nextMove = s ∧ .trick cards n = σ'.game.msgTrick := by
  have hprompt : ∀ {g : Game}, .trick cards n ∈ promptFor g s →
      g.nextMove = s ∧ .trick cards n = g.msgTrick := by
    intro g
    exact mem_promptFor.mp
  have htaken : .trick cards n ∉ σ.game.takenInRound := by
    rw [hmirrors.game.takenInRound]
    intro hmem
    obtain ⟨t, -, ht⟩ := List.mem_map.mp hmem
    cases ht
  -- in each list the one prompt stands behind messages of other kinds
  cases h with
  | quiet | lobby => cases hmsg
  | firstDeal side jx σ' hrole hfree hpc hgame hold hdeal hmine =>
      rw [hgame]
      rcases List.mem_cons.mp hmsg with heq | hmem
      · cases heq
      · exact hprompt hmem
  | rejoin deal σ' hseat hrole hgame hold hdeal =>
      rw [hgame]
      rcases List.mem_cons.mp hmsg with heq | hmem
      · cases heq
      rcases List.mem_append.mp hmem with hmem | hmem
      · exact absurd hmem htaken
      · split at hmem
        · exact hprompt hmem
        · cases hmem
  | resume side jx deal σ' hne hseat hrole hfree hpc hgame hold hdeal =>
      rw [hgame]
      exact hprompt hmsg
  | wrong => cases List.mem_singleton.mp hmsg
  | timeout σ' hseat hpc hexit hturn hgame hdeal =>
      rw [hgame]
      exact ⟨hturn, List.mem_singleton.mp hmsg⟩
  | accepted n card jx side σ' msgs hseat hpc hside hgood hacc hmsgs =>
      cases hmsgs with
      | inTrick => exact hprompt hmsg
      | trickDone =>
          rcases List.mem_cons.mp hmsg with heq | hmem
          · cases heq
          · exact hprompt hmem
      | roundDone =>
          simp only [List.mem_cons] at hmsg
          rcases hmsg with heq | heq | heq | heq | hmem
          · cases heq
          · cases heq
          · cases heq
          · cases heq
          · exact hprompt hmem
      | gameDone =>
          simp only [List.mem_cons, List.not_mem_nil, or_false] at hmsg
          rcases hmsg with heq | heq | heq <;> cases heq

/-- Without a renewal, the seats and the game are the ones with which the run began, if four players are there. -/
theorem still_of_guarded {es : List Call} {σ₀ σ : Server} (hes : exec step σ₀ es = some σ)
    (hg : Guarded step (fun σ e => ¬ Renews σ e) σ₀ es) (hbook : SeatBook σ₀) (hpc : σ.playersConnected = 4) :
    σ₀.playersConnected = 4 ∧ σ.activeSides = σ₀.activeSides ∧ σ.game = σ₀.game := by
  have hkept : SeatBook σ ∧ (σ.playersConnected = 4 →
      σ₀.playersConnected = 4 ∧ σ.activeSides = σ₀.activeSides ∧ σ.game = σ₀.game) := by
    refine hg.invariant (P := fun σ => SeatBook σ ∧ (σ.playersConnected = 4 →
      σ₀.playersConnected = 4 ∧ σ.activeSides = σ₀.activeSides ∧ σ.game = σ₀.game)) hes
      ⟨hbook, fun hpc => ⟨hpc, rfl, rfl⟩⟩ ?_
    intro σ e σ' hinv hstill hstep
    obtain ⟨b, heff⟩ := step_effect hstep
    refine ⟨hinv.1.effect heff, fun hpc' => ?_⟩
    obtain ⟨hpc, hsides, hgame⟩ := heff.still hinv.1 hstill hpc'
    obtain ⟨hfull, hsides₀, hgame₀⟩ := hinv.2 hpc
    exact ⟨hfull, hsides.trans hsides₀, hgame.trans hgame₀⟩
  exact hkept.2 hpc

/-- **The player to move is prompted, and nobody else.**  With four players connected and rounds to go,
the run has a call after which no card was accepted and no fourth seat filled, and this call enqueued a
`TRICK` with the present table and number for the worker that sits at `nextMove`.  And whatever the
call, a `TRICK` goes to the worker at `nextMove` and shows the table and the number of that moment. -/
theorem prompted {scenario : GameScenario} {timeout : Int} {es : List Call} {σ₀ σ : Server}
    (h₀ : start scenario timeout = .ok σ₀) (hes : exec step σ₀ es = some σ) :
    (σ.playersConnected = 4 → σ.game.roundNumber < scenario.length →
      ∃ es₁ e es₂ σ₁ σ₂ ix, es = es₁ ++ e :: es₂ ∧ exec step σ₀ es₁ = some σ₁ ∧
        σ₁.step e = some σ₂ ∧ exec step σ₂ es₂ = some σ ∧
        Guarded step (fun σ e => ¬ Renews σ e) σ₂ es₂ ∧
        σ.activeSides σ.game.nextMove = some ix ∧
        (ix, .trick σ.game.table σ.game.trickNo) ∈ mailed σ₁ σ₂) ∧
    ∀ e σ', σ.step e = some σ' → ∀ ix cards n, (ix, .trick cards n) ∈ mailed σ σ' →
      σ'.activeSides σ'.game.nextMove = some ix ∧ cards = σ'.game.table ∧ n = σ'.game.trickNo := by
  have hrun := run_eq_some.mpr ⟨σ₀, h₀, hes⟩
  obtain ⟨S, hmirrors, -⟩ := run_dealKept hrun
  have hbook := seatBook_run hrun
  constructor
  · intro hpc hgo
    have hstart : σ₀.playersConnected = 0 := by
      obtain ⟨r, -, rfl⟩ := start_eq_ok h₀
      rfl
    rcases exec_since Renews hes with hnever | ⟨es₁, e, es₂, σ₁, σ₂, rfl, hes₁, hrenews, he, hes₂, hg⟩
    · -- without a renewal the table was never full
      have hrun₀ : run scenario timeout [] = some σ₀ := run_eq_some.mpr ⟨σ₀, h₀, rfl⟩
      have hfull := (still_of_guarded hes hnever (seatBook_run hrun₀) hpc).1
      omega
    · -- what the last one enqueued is still up to date
      have hrun₁ := run_eq_some.mpr ⟨σ₀, h₀, hes₁⟩
      obtain ⟨b, heff⟩ := step_effect he
      obtain ⟨S₁, hmirrors₁, -⟩ := run_dealKept hrun₁
      obtain ⟨-, hsides, hgame⟩ := still_of_guarded hes₂ hg ((seatBook_run hrun₁).effect heff) hpc
      have hscenario : σ₂.gameScenario = scenario := by
        rcases hmirrors₁.effect heff with ⟨-, hm⟩ | ⟨_, _, -, -, hm⟩ <;> exact hm.scenario_eq
      obtain ⟨ix, hix, hmem⟩ := heff.prompts hrenews (by rw [← hgame, hscenario]; omega)
      refine ⟨es₁, e, es₂, σ₁, σ₂, ix, rfl, hes₁, he, hes₂, hg, ?_, ?_⟩
      · rw [hsides, hgame]
        exact hix
      · rw [hgame]
        exact hmem
  · -- only who has a side is sent a `TRICK`
    intro e σ' hstep ix cards n hmsg
    obtain ⟨b, heff⟩ := step_effect hstep
    obtain ⟨s, hs⟩ : ∃ s, σ'.activeSides s = some ix := by
      by_contra hnobody
      have hfree : ∀ t, σ'.activeSides t ≠ some ix := fun t ht => hnobody ⟨t, ht⟩
      obtain ⟨sides, heq, -⟩ := heff.received_free hbook hfree _ (mem_inbox.mpr hmsg)
      cases heq
    obtain ⟨hturn, heq⟩ := (heff.delivers hbook hs).prompt hmirrors (mem_inbox.mpr hmsg)
    obtain ⟨hcards, hn⟩ := SendJob.trick.inj heq
    exact ⟨hturn ▸ hs, hcards, hn⟩

/-- After the first trick `S` has left and come back: the call that seats it again prompts the taker. -/
theorem prompted_comesBack :
    ∃ σ, exec step (started [suitRound] 5 suitRound) comesBack = some σ ∧
      ∃ es₁ e es₂ σ₁ σ₂ ix, comesBack = es₁ ++ e :: es₂ ∧ σ₁.step e = some σ₂ ∧
        exec step σ₂ es₂ = some σ ∧ σ.activeSides σ.game.nextMove = some ix ∧
        (ix, .trick σ.game.table σ.game.trickNo) ∈ mailed σ₁ σ₂ := by
  have hfacts : (exec step (started [suitRound] 5 suitRound) comesBack).map
      (fun σ => (σ.playersConnected, σ.game.roundNumber)) = some (4, 0) := by decide +kernel
  obtain ⟨σ, hσ, heq⟩ := Option.map_eq_some_iff.mp hfacts
  obtain ⟨hpc, hround⟩ := Prod.mk.inj heq
  have hprompted := (prompted (start_cons suitRound [] 5) hσ).1 hpc (by rw [hround]; decide)
  obtain ⟨es₁, e, es₂, σ₁, σ₂, ix, hes, -, he, hes₂, -, hix, hmem⟩ := hprompted
  exact ⟨σ, hσ, es₁, e, es₂, σ₁, σ₂, ix, hes, he, hes₂, hix, hmem⟩

end Server

end Kierki
