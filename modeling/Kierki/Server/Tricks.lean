import Kierki.Library.Shares
import Kierki.Server.Emitted
import Kierki.Server.Reference
import Kierki.Server.Seats

/-!
# Who played what

The server keeps no record of who put which card on the table.  The reference game does, and every
`TAKEN` message in the mail, also one that is repeated for a player who comes back, is about a trick it
has on record.
-/

namespace Kierki

open TrickGame

section Mirror

variable {scenario : GameScenario} {σ : Server} {S : CardGame}

/-- A card is only admitted while there is a trick to play. -/
theorem Mirrors.trickNo_ne (h : Mirrors scenario σ S) {n : Nat} {card : Card} {side : Side}
    (hgood : σ.admits n card side) : σ.game.trickNo ≠ TRICKS_PER_ROUND + 1 := by
  have hlegal : S.Legal kierki side card := (h.legal_iff side card).mpr hgood.2
  have hlast : S.done.length < TRICKS_PER_ROUND := h.unfinished hlegal.1
  rw [h.game.trickNo]
  omega

/-- The announcement of a full table is about the trick that the move puts on record. -/
theorem Mirrors.msgTaken (h : Mirrors scenario σ S) {side : Side} {card : Card}
    (hlegal : S.Legal kierki side card) (hlen : (σ.game.putCard side card).table.length = 4) :
    (σ.game.putCard side card).msgTaken = takenMsg ⟨S.done.length + 1, (S.put side card).plays,
      kierki.taker S.leader (S.put side card).plays⟩ := by
  have hput := h.game.putCard side card
  have hwho := hput.whoTakes hlen (h.sound.put_order hlegal)
  rw [Game.msgTaken, hwho, hput.table, hput.trickNo]
  rfl

/-- Everything in the mail of the next state: it was there before, or this call has sent it. -/
theorem Mirrors.mem_sent {σ' : Server} {e : Server.Call} {b : Bool} (h : Mirrors scenario σ S)
    (heff : Server.Effect σ e b σ') {p : Nat × SendJob} (hp : p ∈ σ'.workerMgr.sent) :
    p ∈ σ.workerMgr.sent ∨ Server.Emits σ e σ' p.2 := by
  obtain ⟨out, hsent, hout⟩ := heff.emits fun n card ix side _ hgood => h.trickNo_ne hgood
  rw [hsent, List.mem_append] at hp
  exact hp.imp_right (hout p)

end Mirror

namespace Server

/-- Every `TAKEN` in the mail is about a trick of the reference game. -/
def TakenOnRecord (σ : Server) (S : CardGame) : Prop :=
  ∀ ix cards s n, (ix, SendJob.taken cards s n) ∈ σ.workerMgr.sent →
    ∃ t ∈ S.tricks, SendJob.taken cards s n = takenMsg t

/-- A message of a call that accepts no card announces no new trick. -/
theorem Emits.taken_quiet {scenario : GameScenario} {σ σ' : Server} {S : CardGame} {e : Call}
    {cards : Table} {s : Side} {n : Nat} (h : Emits σ e σ' (.taken cards s n))
    (hmirrors : Mirrors scenario σ S) (hquiet : σ.accepts e = none) :
    ∃ t ∈ S.tricks, SendJob.taken cards s n = takenMsg t := by
  generalize hmsg : SendJob.taken cards s n = msg at h
  cases h with
  | takenAgain side ix msg σ' hmem =>
      rw [hmirrors.game.takenInRound] at hmem
      obtain ⟨t, ht, rfl⟩ := List.mem_map.mp hmem
      exact ⟨t, hmirrors.sound.done_subset ht, rfl⟩
  | taken n card ix side σ' haccept _ => rw [haccept] at hquiet; cases hquiet
  | _ => cases hmsg

/-- A message of an accepted card announces at most the trick it has filled. -/
theorem Emits.taken_move {scenario : GameScenario} {σ σ' : Server} {S S' : CardGame} {e : Call}
    {cards : Table} {s : Side} {n : Nat} {m : Side × Card} (h : Emits σ e σ' (.taken cards s n))
    (hmirrors : Mirrors scenario σ S) (haccept : σ.accepts e = some m)
    (hplay : S.play kierki (deals scenario) m = some S') :
    ∃ t ∈ S'.tricks, SendJob.taken cards s n = takenMsg t := by
  generalize hmsg : SendJob.taken cards s n = msg at h
  cases h with
  | taken n card ix side σ' haccept' hlen =>
      obtain rfl : m = (side, card) := Option.some.inj (haccept.symm.trans haccept')
      obtain ⟨hlegal, -⟩ := State.play_eq_some hplay
      have hfull : kierki.seats ≤ (S.put side card).plays.length := by
        rw [(hmirrors.game.putCard side card).table, List.length_map] at hlen
        exact hlen.ge
      refine ⟨_, ?_, hmirrors.msgTaken hlegal hlen⟩
      rw [State.play_tricks hplay, if_pos hfull]
      exact List.mem_append_right _ List.mem_cons_self
  | takenAgain side ix msg σ' _ => simp [accepts] at haccept
  | _ => cases hmsg

/-- The tricks on record account for every card that was accepted and for every `TAKEN` in the mail, and a card is
put by the player it was dealt to. -/
theorem run_tricks {scenario : GameScenario} {timeout : Int} {es : List Call} {σ : Server}
    (h : run scenario timeout es = some σ) :
    ∃ S, Mirrors scenario σ S ∧ S.history = plays scenario timeout es ∧ TakenOnRecord σ S ∧
      S.Shares ∧ S.PastDealt := by
  refine reference_induction
    (P := fun es σ S => S.history = plays scenario timeout es ∧ TakenOnRecord σ S ∧ S.Shares ∧ S.PastDealt)
    (fun r _ => ?_) (fun es σ e b σ' S hrun hrun' hmirrors hP heff hnone => ?_)
    (fun es σ e b σ' S S' m hrun hrun' hmirrors hP heff haccept hplay _ => ?_) h
  · refine ⟨by simp [plays, State.history, State.tricks, State.start], fun ix cards s n hmem => ?_,
      State.shares_start _, ?_⟩
    · simp [started, IOWorkerMgr.spawnNewWorker, IOWorkerMgr.new] at hmem
    · simp [State.PastDealt, State.start]
  · obtain ⟨hhistory, htaken, hdealt⟩ := hP
    refine ⟨by simpa [plays_concat hrun hrun', hnone] using hhistory, fun ix cards s n hmem => ?_, hdealt⟩
    rcases hmirrors.mem_sent heff hmem with hold | hnew
    · exact htaken ix cards s n hold
    · exact hnew.taken_quiet hmirrors hnone
  · obtain ⟨hhistory, htaken, hshares, hpast⟩ := hP
    refine ⟨?_, fun ix cards s n hmem => ?_, hshares.play hplay, hpast.play hshares hplay⟩
    · rw [plays_concat hrun hrun', haccept, State.play_history hplay, hhistory, hmirrors.game.hands]
      rfl
    · rcases hmirrors.mem_sent heff hmem with hold | hnew
      · obtain ⟨t, ht, heq⟩ := htaken ix cards s n hold
        refine ⟨t, ?_, heq⟩
        rw [State.play_tricks hplay]
        exact List.mem_append_left _ ht
      · exact hnew.taken_move hmirrors haccept hplay

/-- The tricks of each round, the present one included. -/
def roundTricks (S : CardGame) : List (List (Trick Side Card)) :=
  S.past.map Finished.tricks ++ if S.closed then [] else [S.done]

theorem roundTricks_flatten (S : CardGame) : (roundTricks S).flatten = S.tricks := by
  cases hclosed : S.closed <;>
    simp [roundTricks, State.tricks, hclosed, List.flatMap]

/-- Every round that is over is there, and at most one more. -/
theorem roundTricks_length (S : CardGame) :
    S.past.length ≤ (roundTricks S).length ∧ (roundTricks S).length ≤ S.past.length + 1 := by
  cases hclosed : S.closed <;> simp [roundTricks, hclosed]

/-- The tricks of a round that is over, or of the present one. -/
theorem roundTricks_getElem? {S : CardGame} {i : Nat} {tricks : List (Trick Side Card)}
    (hi : (roundTricks S)[i]? = some tricks) :
    (i < S.past.length ∧ ∃ f, S.past[i]? = some f ∧ f.tricks = tricks) ∨
      (i = S.past.length ∧ S.closed = false ∧ S.done = tricks) := by
  unfold roundTricks at hi
  rcases Nat.lt_or_ge i (S.past.map Finished.tricks).length with hlt | hge
  · rw [List.getElem?_append_left hlt, List.getElem?_map, Option.map_eq_some_iff] at hi
    exact .inl ⟨by simpa using hlt, hi⟩
  · rw [List.getElem?_append_right hge, List.length_map] at hi
    rw [List.length_map] at hge
    cases hclosed : S.closed with
    | true =>
        rw [hclosed] at hi
        cases hi
    | false =>
        rw [hclosed, if_neg (by simp), List.getElem?_singleton] at hi
        split at hi
        · exact .inr ⟨by omega, rfl, Option.some.inj hi⟩
        · cases hi

/-- **The tricks of round `i`** follow each other from the starting side of the scenario; there are thirteen when
the round is over, and fewer before; and their cards were dealt in that round to the players who put them. -/
theorem roundTricks_spec {scenario : GameScenario} {σ : Server} {S : CardGame} (h : Mirrors scenario σ S)
    (hshares : S.Shares) (hpast : S.PastDealt) {i : Nat} {tricks : List (Trick Side Card)}
    (hi : (roundTricks S)[i]? = some tricks) :
    ∃ r, scenario[i]? = some r ∧ Course kierki 1 r.starting tricks ∧
      (i < σ.game.roundNumber ↔ tricks.length = TRICKS_PER_ROUND) ∧
      ∀ t ∈ tricks, ∀ q ∈ t.plays, q.card ∈ r.deal q.seat := by
  rw [h.game.roundNumber]
  rcases roundTricks_getElem? hi with ⟨hlt, f, hf, rfl⟩ | ⟨rfl, hopen, rfl⟩
  · obtain ⟨hdeal, hlen, hcourse⟩ := h.sound.past i f hf
    obtain ⟨r, hr, heq⟩ := deals_getElem?_eq_some.mp hdeal
    have hdealt := hpast f (List.mem_of_getElem? hf)
    rw [← heq] at hcourse hdealt
    exact ⟨r, hr, hcourse, iff_of_true hlt hlen, hdealt⟩
  · obtain ⟨r, hr, heq⟩ := deals_getElem?_eq_some.mp (h.sound.live hopen)
    have hcourse := h.sound.course
    have hdealt : ∀ t ∈ S.done, ∀ q ∈ t.plays, q.card ∈ S.deal.hands q.seat :=
      fun t ht q hq => hshares.mem_deal (.inr (List.mem_flatMap.mpr ⟨t, ht, hq⟩))
    rw [← heq] at hcourse hdealt
    exact ⟨r, hr, hcourse, iff_of_false (lt_irrefl _) (h.unfinished hopen).ne, hdealt⟩

/-- The players of a fair trick are four different sides. -/
theorem fair_seats_nodup {leader : Side} {t : Trick Side Card} (h : t.Fair kierki leader) :
    (t.plays.map Play.seat).Nodup := by
  have hcircle : ∀ leader, (List.iterate nxtSide leader 4).Nodup := by decide
  rw [h.order]
  exact hcircle leader

/-- **Turn order and ownership of tricks.**  The cards accepted in a run are cut into tricks, round by
round, and a rest of less than a trick.  The tricks of a round that is over are thirteen, those of the
present round are fewer, and their cards come from the deal of that round.  In each trick four sides play
in the order of `nxtSide`, the first trick of a round is led by the starting side of the scenario and
every other one by the taker before it, nobody who could follow suit did not, and the taker played the
highest card of the colour led (`Course`, `Trick.Fair`).
Every `TAKEN` that was ever sent is about one of these tricks. -/
theorem taken_ownership {scenario : GameScenario} {timeout : Int} {es : List Call} {σ : Server}
    (h : run scenario timeout es = some σ) :
    ∃ (rounds : List (List (Trick Side Card))) (rest : List (Play Side Card)),
      rounds.flatten.flatMap Trick.plays ++ rest = plays scenario timeout es ∧
      rest.length < 4 ∧
      (σ.game.roundNumber ≤ rounds.length ∧ rounds.length ≤ σ.game.roundNumber + 1) ∧
      (∀ (i : Nat) (tricks : List (Trick Side Card)), rounds[i]? = some tricks →
        ∃ r, scenario[i]? = some r ∧ Course kierki 1 r.starting tricks ∧
          (i < σ.game.roundNumber ↔ tricks.length = TRICKS_PER_ROUND) ∧
          ∀ t ∈ tricks, ∀ q ∈ t.plays, q.card ∈ r.deal q.seat) ∧
      (∀ t ∈ rounds.flatten, (t.plays.map Play.seat).Nodup) ∧
      ∀ ix cards s n, (ix, SendJob.taken cards s n) ∈ σ.workerMgr.sent →
        ∃ t ∈ rounds.flatten, cards = t.cards ∧ s = t.taker ∧ n = t.number := by
  obtain ⟨S, hmirrors, hhistory, htaken, hshares, hpast⟩ := run_tricks h
  have hlength := roundTricks_length S
  rw [← hmirrors.game.roundNumber] at hlength
  refine ⟨roundTricks S, S.plays, ?_, hmirrors.sound.short, hlength,
    fun i tricks hi => roundTricks_spec hmirrors hshares hpast hi, ?_, ?_⟩
  · rw [roundTricks_flatten, ← hhistory, State.history]
  · intro t ht
    obtain ⟨tricks, hmem, ht⟩ := List.mem_flatten.mp ht
    obtain ⟨i, hi⟩ := List.mem_iff_getElem?.mp hmem
    obtain ⟨r, -, hcourse, -⟩ := roundTricks_spec hmirrors hshares hpast hi
    obtain ⟨leader, hfair⟩ := hcourse.fair kierki ht
    exact fair_seats_nodup hfair
  · intro ix cards s n hmem
    rw [roundTricks_flatten]
    obtain ⟨t, ht, heq⟩ := htaken ix cards s n hmem
    obtain ⟨hcards, hs, hn⟩ : cards = t.cards ∧ s = t.taker ∧ n = t.number := by
      simpa [takenMsg] using heq
    exact ⟨t, ht, hcards, hs, hn⟩

/-- The first trick, which `N` leads and takes. -/
def oneTrick : List Call :=
  fourPlayers ++ [.playerTricked 1 ⟨.v2, .colorC⟩ 1, .playerTricked 1 ⟨.v2, .colorD⟩ 2,
    .playerTricked 1 ⟨.v2, .colorH⟩ 3, .playerTricked 1 ⟨.v2, .colorS⟩ 4]

/-- Worker 1 is told who takes which cards. -/
theorem taken_ownership_oneTrick :
    ∃ σ, run [suitRound] 5 oneTrick = some σ ∧
      (1, .taken [⟨.v2, .colorC⟩, ⟨.v2, .colorD⟩, ⟨.v2, .colorH⟩, ⟨.v2, .colorS⟩] .N 1) ∈ σ.workerMgr.sent ∧
      ∃ (rounds : List (List (Trick Side Card))) (rest : List (Play Side Card)),
        rounds.flatten.flatMap Trick.plays ++ rest = plays [suitRound] 5 oneTrick ∧ rest.length < 4 ∧
        ∃ t ∈ rounds.flatten,
          t.cards = [⟨.v2, .colorC⟩, ⟨.v2, .colorD⟩, ⟨.v2, .colorH⟩, ⟨.v2, .colorS⟩] ∧
          t.taker = .N ∧ t.number = 1 := by
  have hfacts : (run [suitRound] 5 oneTrick).map (fun σ => σ.workerMgr.sent.find? fun p =>
      p = (1, .taken [⟨.v2, .colorC⟩, ⟨.v2, .colorD⟩, ⟨.v2, .colorH⟩, ⟨.v2, .colorS⟩] .N 1)) =
      some (some (1, .taken [⟨.v2, .colorC⟩, ⟨.v2, .colorD⟩, ⟨.v2, .colorH⟩, ⟨.v2, .colorS⟩] .N 1)) := by
    decide +kernel
  obtain ⟨σ, hσ, hfind⟩ := Option.map_eq_some_iff.mp hfacts
  obtain ⟨rounds, rest, hplays, hrest, -, -, -, htaken⟩ := taken_ownership hσ
  have hsent := List.mem_of_find?_eq_some hfind
  obtain ⟨t, ht, hcards, htaker, hnumber⟩ := htaken _ _ _ _ hsent
  exact ⟨σ, hσ, hsent, rounds, rest, hplays, hrest, t, ht, hcards.symm, htaker.symm, hnumber.symm⟩

end Server
end Kierki
