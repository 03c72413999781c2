import Kierki.Server.Reference
import Kierki.Server.Seats

/-!
# Where the cards are

In every state of a game whose deals split the deck, each of the 52 cards is in one hand, on the table
or in one trick of the round, and the sizes of the hands, of the table and of the list of tricks follow
from the number of the trick and from whose turn it is.  The reference game conserves cards; here that
is read off the fields of the server.
-/

namespace Kierki

open TrickGame

/-- The table of a `TAKEN` message. -/
def SendJob.takenTable : SendJob → Table
  | .taken cards _ _ => cards
  | _ => []

/-- Side `s` is one of the `k` sides before `t`. -/
def Before (k : Nat) (s t : Side) : Prop := ∃ j ∈ Finset.Icc 1 k, nxtSide^[j] s = t

instance (k : Nat) (s t : Side) : Decidable (Before k s t) := by
  unfold Before
  infer_instance

namespace Game

/-- All cards of the round are accounted for. -/
structure Complete (g : Game) : Prop where
  cards : (∑ s, (g.hands s : Multiset Card)) +
    ((g.table ++ g.takenInRound.flatMap SendJob.takenTable : List Card) : Multiset Card) = deck
  table : g.table.length ≤ 3
  taken : g.takenInRound.length + 1 = g.trickNo
  messages : ∀ msg ∈ g.takenInRound, ∃ cards s n, msg = .taken cards s n
  hand : ∀ s, (g.hands s).length + (g.trickNo - 1) +
    (if Before g.table.length s g.nextMove then 1 else 0) = 13

end Game

/-- Going round the circle from the leader, the first `k` players are those `k` places or less before
the next one. -/
theorem count_iterate_nxtSide (leader s : Side) {k : Nat} (hk : k < 4) :
    (List.iterate nxtSide leader k).count s =
      if Before k s (nxtSide^[k] leader) then 1 else 0 := by
  interval_cases k <;> revert leader s <;> decide

theorem Mirrors.complete {scenario : GameScenario} {σ : Server} {S : CardGame}
    (h : Mirrors scenario σ S) (hdeck : ∀ r ∈ scenario, r.SplitsDeck) : σ.game.Complete where
  cards := by
    obtain ⟨i, hi⟩ := h.deal
    obtain ⟨r, hr, hdeal⟩ := deals_getElem?_eq_some.mp hi
    have hsplit : r.SplitsDeck := hdeck r (List.mem_of_getElem? hr)
    have hcards := h.conserves
    rw [State.Conserves, ← hdeal] at hcards
    rw [h.game.hands, h.game.table, h.game.takenInRound, ← hsplit, List.flatMap_map]
    exact hcards
  table := by
    have hshort : S.plays.length < 4 := h.sound.short
    rw [h.game.table, List.length_map]
    omega
  taken := by rw [h.game.takenInRound, h.game.trickNo, List.length_map]
  messages := by
    intro msg hmsg
    rw [h.game.takenInRound] at hmsg
    obtain ⟨t, -, rfl⟩ := List.mem_map.mp hmsg
    exact ⟨_, _, _, rfl⟩
  hand := by
    intro s
    have hshort : S.plays.length < 4 := h.sound.short
    have hsize := h.hand_size s
    have hcount := count_iterate_nxtSide S.leader s hshort
    have horder : S.plays.map Play.seat = List.iterate nxtSide S.leader S.plays.length :=
      h.sound.order
    rw [horder, hcount] at hsize
    rw [h.game.hands, h.game.trickNo, h.game.table, h.game.nextMove, List.length_map]
    exact hsize

/-- **No card is lost or doubled**, in any run over deals that split the deck. -/
theorem cards_complete {scenario : GameScenario} {timeout : Int} {es : List Server.Call} {σ : Server}
    (hdeck : ∀ r ∈ scenario, r.SplitsDeck) (h : Server.run scenario timeout es = some σ) :
    σ.game.Complete := by
  obtain ⟨S, hmirrors, -⟩ := Server.run_history h
  exact hmirrors.complete hdeck

/-- A first trick and two more cards, with a card out of turn, a worker that leaves and one that comes
back. -/
def sixCards : List Server.Call :=
  Server.fourPlayers ++ [.playerTricked 1 ⟨.v2, .colorC⟩ 1, .playerTricked 1 ⟨.v3, .colorS⟩ 4,
    .playerTricked 1 ⟨.v2, .colorD⟩ 2, .playerTricked 1 ⟨.v2, .colorH⟩ 3,
    .playerTricked 1 ⟨.v2, .colorS⟩ 4, .playerTricked 2 ⟨.A, .colorC⟩ 1,
    .grandExitCallback [] 3 false, .forwardConnection, .playerIntro .S 5,
    .playerTricked 2 ⟨.A, .colorD⟩ 2]

theorem cards_complete_sixCards :
    ∃ σ, Server.run [suitRound] 5 sixCards = some σ ∧ σ.game.Complete := by
  have hsome : (Server.run [suitRound] 5 sixCards).isSome := by decide +kernel
  obtain ⟨σ, hσ⟩ := Option.isSome_iff_exists.mp hsome
  refine ⟨σ, hσ, cards_complete (fun r hr => ?_) hσ⟩
  rw [List.mem_singleton.mp hr]
  decide +kernel

end Kierki
