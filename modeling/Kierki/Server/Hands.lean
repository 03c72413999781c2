import Kierki.Library.Shares
import Kierki.Server.Deals

/-!
# What a side holds and has laid

`Game.laid g s` is the card of side `s` on the table, read off the fields of the server: the table was
begun by the side that sits as many places before `nextMove` as there are cards on it.

`Standing scenario σ S` collects what is known of a server in the state `S` of the reference game: the
game, the deal that is kept, the shares of the players and the seats.  It holds at the start and every
call keeps it (`Standing.effect`).
-/

namespace Kierki

open TrickGame

namespace Game

/-- The cards on the table with the sides that put them. -/
def onTable (g : Game) : List (Side × Card) :=
  (List.iterate nxtSide (nxtSide^[4 - g.table.length] g.nextMove) g.table.length).zip g.table

/-- The card of side `s` on the table, if it has put one in this trick. -/
def laid (g : Game) (s : Side) : List Card :=
  (g.onTable.filter fun p => p.1 = s).map Prod.snd

end Game

theorem Mirrors.laid {scenario : GameScenario} {σ : Server} {S : CardGame} (h : Mirrors scenario σ S)
    (s : Side) : σ.game.laid s = S.laid s := by
  have hshort : S.plays.length < 4 := h.sound.short
  have hlen : σ.game.table.length = S.plays.length := by rw [h.game.table, List.length_map]
  have hleader : nxtSide^[4 - σ.game.table.length] σ.game.nextMove = S.leader := by
    rw [h.game.nextMove, hlen]
    show nxtSide^[4 - S.plays.length] (nxtSide^[S.plays.length] S.leader) = S.leader
    rw [← Function.iterate_add_apply, Nat.sub_add_cancel hshort.le]
    exact nxtSide_four S.leader
  have htable : σ.game.onTable = S.plays.map fun q => (q.seat, q.card) := by
    have horder : S.plays.map Play.seat = List.iterate nxtSide S.leader S.plays.length := h.sound.order
    rw [Game.onTable, hleader, hlen, ← horder, h.game.table, List.zip_map']
  rw [Game.laid, htable, List.filter_map, List.map_map]
  rfl

/-- A deal that splits the deck gives no card to two sides. -/
theorem Round.SplitsDeck.apart {r : Round} (h : r.SplitsDeck) : r.toDeal.Apart := by
  intro s t c hs ht
  by_contra hne
  have hnodup : (∑ s, (r.deal s : Multiset Card)).Nodup := by
    rw [h]
    exact Finset.univ.nodup
  rw [← Finset.add_sum_erase _ _ (Finset.mem_univ s),
    ← Finset.add_sum_erase _ _ (Finset.mem_erase.mpr ⟨Ne.symm hne, Finset.mem_univ t⟩)] at hnodup
  have hdisjoint := (Multiset.nodup_add.mp hnodup).2.2
  exact Multiset.disjoint_left.mp hdisjoint (Multiset.mem_coe.mpr hs)
    (Multiset.mem_add.mpr (.inl (Multiset.mem_coe.mpr ht)))

theorem Mirrors.apart {scenario : GameScenario} {σ : Server} {S : CardGame} (h : Mirrors scenario σ S)
    (hdeck : ∀ r ∈ scenario, r.SplitsDeck) : S.deal.Apart := by
  obtain ⟨i, hi⟩ := h.deal
  obtain ⟨r, hr, hdeal⟩ := deals_getElem?_eq_some.mp hi
  rw [← hdeal]
  exact (hdeck r (List.mem_of_getElem? hr)).apart

/-- A server in mid-game. -/
structure Standing (scenario : GameScenario) (σ : Server) (S : CardGame) : Prop where
  mirrors : Mirrors scenario σ S
  kept : DealKept σ S
  shares : S.Shares
  book : Server.SeatBook σ
  dealt : Server.Dealt σ

theorem standing_started {scenario : GameScenario} (timeout : Int) {r : Round}
    (hr : scenario[0]? = some r) :
    Standing scenario (Server.started scenario timeout r) (State.start r.toDeal) where
  mirrors := by
    have hdeal : (deals scenario)[0]? = some r.toDeal := deals_getElem?_eq_some.mpr ⟨r, hr, rfl⟩
    exact ⟨rfl, State.sound_start (by decide) hdeal, fun _ => (by decide : 0 < TRICKS_PER_ROUND),
      State.conserves_start _, matches_start r⟩
  kept := ⟨by simp [Server.started, Server.new], fun _ => rfl⟩
  shares := State.shares_start _
  book := Server.seatBook_started scenario timeout r
  dealt := ⟨by simp [Server.started, Server.new], fun _ => ⟨show (0 : Int) ≤ 3 by decide, r.dealt⟩,
    fun hover => absurd (show (1 : Nat) = TRICKS_PER_ROUND + 1 from hover) (by decide)⟩

/-- **Every call keeps the standing**: it leaves the reference game alone, or makes one move of it. -/
theorem Standing.effect {scenario : GameScenario} {σ σ' : Server} {S : CardGame} {e : Server.Call}
    {b : Bool} (h : Standing scenario σ S) (heff : Server.Effect σ e b σ') :
    (σ.accepts e = none ∧ σ'.game = σ.game ∧ Standing scenario σ' S) ∨
      ∃ n card ix side S', e = .playerTricked n card ix ∧ 4 ≤ σ.playersConnected ∧
        σ.sideOf ix = some side ∧ σ.admits n card side ∧ Server.Accepted σ side card σ' ∧
        S.play kierki (deals scenario) (side, card) = some S' ∧ Standing scenario σ' S' := by
  rcases heff.accepts_cases with ⟨hnone, hgame, hscenario⟩ |
    ⟨n, card, ix, side, rfl, haccept, hpc, hside, hgood, hacc⟩
  · refine .inl ⟨hnone, hgame, ?_, h.kept.quiet h.mirrors heff hnone, h.shares, h.book.effect heff,
      h.dealt.effect heff⟩
    obtain ⟨hscen, hsound, hunfinished, hconserves, hmatch⟩ := h.mirrors
    exact ⟨hscenario.trans hscen, hsound, hunfinished, hconserves, hgame ▸ hmatch⟩
  · obtain ⟨S', hplay, hmirrors⟩ := h.mirrors.accepted hgood hacc
    obtain ⟨jx, hjx⟩ := h.book.full hpc .N
    have hkept := h.kept.move h.mirrors h.dealt hpc hplay (hacc.announces (h.book.side_unique hjx))
    exact .inr ⟨n, card, ix, side, S', rfl, hpc, hside, hgood, hacc, hplay, hmirrors, hkept,
      h.shares.play hplay, h.book.effect heff, h.dealt.effect heff⟩

/-- After every run. -/
theorem standing_run {scenario : GameScenario} {timeout : Int} {es : List Server.Call} {σ : Server}
    (h : Server.run scenario timeout es = some σ) : ∃ S, Standing scenario σ S := by
  refine Server.run_induction (P := fun _ σ => ∃ S, Standing scenario σ S)
    (fun r hr => ⟨_, standing_started timeout hr⟩) (fun _ σ e b σ' _ _ hstand heff => ?_) h
  obtain ⟨S, hS⟩ := hstand
  rcases hS.effect heff with ⟨-, -, hS'⟩ | ⟨-, -, -, -, S', -, -, -, -, -, -, hS'⟩
  · exact ⟨S, hS'⟩
  · exact ⟨S', hS'⟩

end Kierki
