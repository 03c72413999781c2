import Kierki.Client.Consistency

/-!
# The hand of a console player

A user may put a card while an earlier one lies on the table, in answer to a prompt that was sent twice.
`Crosses` says that the server takes up such a card.  It is refused, and the `WRONG` makes the client take
back the front of `lastCards`, which is the card on the table.  In every run in which that does not happen,
client and server agree whenever nothing is on its way (`agrees_of_guarded`).
-/

namespace Kierki

open TrickGame Execution

namespace Session

/-- The server takes up a card of side `s` while another one is on the table. -/
def Crosses {α : Type} (s : Side) (W : Session α) : Event → Prop
  | .call e => TakesUp s W.server e ∧ W.server.game.laid s ≠ []
  | .receive | .command _ => False

instance {α : Type} (s : Side) (W : Session α) : (ev : Event) → Decidable (W.Crosses s ev)
  | .call e => inferInstanceAs (Decidable (TakesUp s W.server e ∧ W.server.game.laid s ≠ []))
  | .receive | .command _ => inferInstanceAs (Decidable False)

/-- A client that has been there since a `DEAL` has the hand that the server has for its side, if nothing is
on its way between the two. -/
def Agrees (s : Side) (W : Session PlayerConsole) : Prop :=
  ∀ L, W.link = some L → L.live = true → W.server.lastDeal ≠ none → L.down = [] → L.up = [] →
    L.client.player.localHand.Perm (W.server.game.hands s)

/-- A `WRONG` puts back the card that it was sent for. -/
def PutsBack (W : Session PlayerConsole) : Prop :=
  ∀ L n cause down client out, W.link = some L → L.down = (.wrong n, cause) :: down →
    L.client.recv (.wrong n) = .ok (client, out) → ∃ card, cause = some (.refused card) ∧
      client.player.localHand = L.client.player.localHand ++ [card] ∧
      L.client.player.lastCards = card :: client.player.lastCards

variable {α : Type} [Player α] {fresh : α} {s : Side}

/-- A client none of whose cards crosses another one. -/
theorem crossed_of_guarded {σ₀ : Server} {evs : List Event} {W : Session α}
    (h : exec (step fresh s) (opened σ₀) evs = some W)
    (hguard : Guarded (step fresh s) (fun W ev => ¬ W.Crosses s ev) (opened σ₀) evs) :
    ∀ L, W.link = some L → L.crossed = false := by
  refine hguard.invariant (P := fun W : Session α => ∀ L, W.link = some L → L.crossed = false) h ?_ ?_
  · rintro L ⟨⟩
  · intro W ev W' hold hev hstep
    cases ev with
    | call e =>
        obtain ⟨-, b, σ', -, rfl⟩ := step_call hstep
        intro L hL
        change W.relink fresh s e σ' = some L at hL
        unfold relink at hL
        split at hL
        · cases hL
        · cases hL
          rfl
        · rename_i L₀ _ hlink
          cases hL
          simp only [stay, hold L₀ hlink, Bool.false_or, decide_eq_false_iff_not]
          exact hev
    | receive =>
        obtain ⟨L₀, msg, cause, down, client, out, hL₀, -, -, rfl⟩ := step_receive hstep
        rintro L ⟨⟩
        exact hold L₀ hL₀
    | command cmd =>
        obtain ⟨L₀, client, out, hL₀, -, rfl⟩ := step_command hstep
        rintro L ⟨⟩
        exact hold L₀ hL₀

/-- The two agreements of a client that has not lost count. -/
theorem Consistent.agrees {scenario : GameScenario} {S : CardGame} {W : Session PlayerConsole}
    (h : W.Consistent scenario s S) (hstand : Standing scenario W.server S)
    (hcrossed : ∀ L, W.link = some L → L.crossed = false) : W.Agrees s ∧ W.PutsBack := by
  constructor
  · intro L hL hlive hdealt hdown hup
    have hsound := h.sound L hL (hcrossed L hL)
    have htally := hsound.tally hdealt
    have hahead : L.ahead = (L.client.stage, L.client.ledger) := by
      rw [Link.ahead, hdown]
      rfl
    have hhands : W.server.game.hands s = S.hands s := by rw [hstand.mirrors.game.hands]
    rw [hhands, ← Multiset.coe_eq_coe]
    show L.client.ledger.hand = _
    cases htally with
    | catchingUp lost hlost hstage _ _ hhand =>
        -- the client has heard no `TRICK`, and its side has not put a card
        have hlaid : S.laid s = [] := hsound.live hlive hstage
        rw [hlost (.inr hlive), hlaid, hahead] at hhand
        simpa using hhand
    | inStep lost hlost _ _ hhand =>
        rw [hlost (.inr hlive), Link.sent, hup, hahead] at hhand
        simpa using hhand
  · intro L n cause down client out hL hdown hrecv
    have hsmooth := (h.sound L hL (hcrossed L hL)).smooth
    rw [hdown] at hsmooth
    obtain ⟨⟨card, hcause, hhead⟩, -⟩ := hsmooth
    refine ⟨card, hcause, ?_⟩
    obtain ⟨rest, hlast⟩ := List.head?_eq_some_iff.mp hhead
    change L.client.player.lastCards = card :: rest at hlast
    have hplayer : client.player = L.client.player.wrongMsg n := by
      unfold Client.recv at hrecv
      split at hrecv <;> cases hrecv
      rfl
    rw [hplayer, PlayerConsole.wrongMsg, hlast]
    exact ⟨rfl, rfl⟩

/-- **Client and server agree on the hand** in every run in which no card crosses another one. -/
theorem agrees_of_guarded {scenario : GameScenario} {timeout : Int} {σ₀ : Server} {evs : List Event}
    {W : Session PlayerConsole} (h₀ : Server.start scenario timeout = .ok σ₀)
    (h : exec (step (PlayerConsole.new s) s) (opened σ₀) evs = some W)
    (hguard : Guarded (step (PlayerConsole.new s) s) (fun W ev => ¬ W.Crosses s ev) (opened σ₀) evs) :
    W.Agrees s ∧ W.PutsBack := by
  obtain ⟨r, hr, rfl⟩ := Server.start_eq_ok h₀
  obtain ⟨S, hstand, hconsistent⟩ :=
    consistent_run rfl (standing_started timeout hr) (consistent_opened rfl) h
  exact hconsistent.agrees hstand (crossed_of_guarded h hguard)

/-- The player on `N` plays the two of clubs in answer to the first prompt. -/
def answers : List Event :=
  Server.fourPlayers.map .call ++ [.receive, .receive, .command "!2C".toList,
    .call (.playerTricked 1 ⟨.v2, .colorC⟩ 1)]

theorem agrees_of_guarded_answers :
    ∃ W L, exec (step (PlayerConsole.new .N) .N) (opened (Server.started [suitRound] 5 suitRound)) answers = some W ∧
      W.link = some L ∧ L.live = true ∧ L.down = [] ∧ L.up = [] ∧
      L.client.player.localHand.Perm (W.server.game.hands .N) ∧ L.client.player.localHand.length = 12 ∧
      W.PutsBack := by
  have hfacts : (exec (step (PlayerConsole.new .N) .N) (opened (Server.started [suitRound] 5 suitRound))
      answers).bind (fun W => W.link.map fun L =>
        (L.live, W.server.lastDeal.isSome, L.down.length, L.up.length, L.client.player.localHand.length)) =
      some (true, true, 0, 0, 12) := by decide +kernel
  obtain ⟨W, hW, hlink⟩ := Option.bind_eq_some_iff.mp hfacts
  obtain ⟨L, hL, heq⟩ := Option.map_eq_some_iff.mp hlink
  simp only [Prod.mk.injEq, List.length_eq_zero_iff] at heq
  obtain ⟨hlive, hdealt, hdown, hup, hlen⟩ := heq
  obtain ⟨hagrees, hback⟩ := agrees_of_guarded (Server.start_cons suitRound [] 5) hW (by decide +kernel)
  have hperm := hagrees L hL hlive (Option.isSome_iff_ne_none.mp hdealt) hdown hup
  exact ⟨W, L, hW, hL, hlive, hdown, hup, hperm, hlen, hback⟩

/-- The prompt is sent twice, and the player answers it with the two and with the three of clubs.  The first
is accepted; the second is refused and, when the trick is taken, struck out of `lastCards`. -/
def answersTwice : List Event :=
  Server.fourPlayers.map .call ++ [.call (.handleTimeout 1), .receive, .receive, .command "!2C".toList,
    .receive, .command "!3C".toList, .call (.playerTricked 1 ⟨.v2, .colorC⟩ 1),
    .call (.playerTricked 1 ⟨.v3, .colorC⟩ 1), .call (.playerTricked 1 ⟨.v2, .colorD⟩ 2),
    .call (.playerTricked 1 ⟨.v2, .colorH⟩ 3), .call (.playerTricked 1 ⟨.v2, .colorS⟩ 4), .receive, .receive,
    .receive]

/-- In the end nothing is on its way; the client holds the two of clubs, which has been played, and the
server the three. -/
theorem not_agrees_answersTwice :
    ∃ W, exec (step (PlayerConsole.new .N) .N) (opened (Server.started [suitRound] 5 suitRound)) answersTwice =
      some W ∧ ¬ W.Agrees .N := by
  have hfacts : (exec (step (PlayerConsole.new .N) .N) (opened (Server.started [suitRound] 5 suitRound))
      answersTwice).bind (fun W => W.link.map fun L =>
        (L.live, W.server.lastDeal.isSome, L.down.length, L.up.length,
          decide (⟨.v3, .colorC⟩ ∈ L.client.player.localHand),
          decide (⟨.v3, .colorC⟩ ∈ W.server.game.hands .N))) =
      some (true, true, 0, 0, false, true) := by decide +kernel
  obtain ⟨W, hW, hlink⟩ := Option.bind_eq_some_iff.mp hfacts
  obtain ⟨L, hL, heq⟩ := Option.map_eq_some_iff.mp hlink
  simp only [Prod.mk.injEq, List.length_eq_zero_iff, decide_eq_true_eq, decide_eq_false_iff_not] at heq
  obtain ⟨hlive, hdealt, hdown, hup, hclient, hserver⟩ := heq
  refine ⟨W, hW, fun hagrees => ?_⟩
  have hperm := hagrees L hL hlive (Option.isSome_iff_ne_none.mp hdealt) hdown hup
  exact hclient (hperm.mem_iff.mpr hserver)

end Session

end Kierki
