import Kierki.Library.TrickGame
import Kierki.Server.Effect

/-!
# The server plays a trick-taking game

`kierki` gives the rules of the game as an instance of `TrickGame.Rules`, with a scorer of its own:
`price` counts cards and adds up, and never walks over a table with an accumulator.

`Mirrors scenario σ S` says that the server `σ` is in the state `S` of that game: all nine game fields
are what `S` says.  Every outcome of a call either leaves the game alone or accepts one card, and then
the card is a legal move of the reference game and leads to the state the server is in
(`Mirrors.effect`).  `reference_induction` is the induction rule this gives for runs.
-/

namespace Kierki

open TrickGame GameRules

/-- One point for each heart. -/
def costOfHearts (cards : List Card) : Nat := cards.countP fun c => c.col = .colorH

/-- Five points for each queen. -/
def costOfQueens (cards : List Card) : Nat := 5 * cards.countP fun c => c.value = .Q

/-- Two points for each king and each jack. -/
def costOfKingsAndJacks (cards : List Card) : Nat := 2 * cards.countP fun c => c.value = .K ∨ c.value = .J

/-- Eighteen points for the king of hearts. -/
def costOfKingOfHearts (cards : List Card) : Nat := 18 * cards.count ⟨.K, .colorH⟩

/-- Ten points for the seventh and for the thirteenth trick. -/
def costOfNumber (n : Nat) : Nat := if n = 7 ∨ n = 13 then 10 else 0

/-- What a trick costs its taker, from its number and its cards. -/
def price : RoundType → Nat → List Card → Nat
  | .trickPenalty, _, _ => 1
  | .heartPenalty, _, cards => costOfHearts cards
  | .queenPenalty, _, cards => costOfQueens cards
  | .kingJackPenalty, _, cards => costOfKingsAndJacks cards
  | .heartKingPenalty, _, cards => costOfKingOfHearts cards
  | .seventhLastTrickPenalty, n, _ => costOfNumber n
  | .everything, n, cards =>
      1 + costOfNumber n + costOfHearts cards + costOfQueens cards + costOfKingsAndJacks cards +
        costOfKingOfHearts cards

/-- The round of everything costs what the six other rounds cost together. -/
theorem price_everything (n : Nat) (cards : List Card) :
    price .everything n cards = price .trickPenalty n cards + price .seventhLastTrickPenalty n cards +
      price .heartPenalty n cards + price .queenPenalty n cards + price .kingJackPenalty n cards +
      price .heartKingPenalty n cards := rfl

theorem sumOver_eq (table : Table) (cond : Card → Bool) (val : Nat) :
    sumOver table cond val = val * table.countP cond := by
  have hloop (pen : Nat) (table : Table) :
      table.foldl (fun pen c => if cond c then pen + val else pen) pen =
        pen + val * table.countP cond := by
    induction table generalizing pen with
    | nil => simp
    | cons c rest ih =>
        rw [List.foldl_cons, ih, List.countP_cons]
        by_cases h : cond c <;> simp [h]
        ring
  rw [sumOver, hloop, zero_add]

/-- The accumulator of the `EVERYTHING` branch. -/
theorem foldl_everythingCard (pen : Nat) (table : Table) :
    table.foldl everythingCard pen = pen + HEART_PENALTY_VAL * table.countP isHeart +
      QUEEN_PENALTY_VAL * table.countP isQueen + KING_JACK_PENALTY_VAL * table.countP isKingOrJack +
      KING_HEART_PENALTY_VAL * table.countP isKingOfHearts := by
  induction table generalizing pen with
  | nil => simp
  | cons c rest ih =>
      have hcard : everythingCard pen c = pen + (if isHeart c then HEART_PENALTY_VAL else 0) +
          (if isQueen c then QUEEN_PENALTY_VAL else 0) +
          (if isKingOrJack c then KING_JACK_PENALTY_VAL else 0) +
          (if isKingOfHearts c then KING_HEART_PENALTY_VAL else 0) := by
        unfold everythingCard
        dsimp only
        split_ifs <;> rfl
      have hcount (cond : Card → Bool) (val : Nat) : val * (c :: rest).countP cond =
          val * rest.countP cond + if cond c then val else 0 := by
        rw [List.countP_cons]
        by_cases h : cond c <;> simp [h]
        ring
      rw [List.foldl_cons, ih, hcard, hcount, hcount, hcount, hcount]
      ring

/-- The tests of `GameRules` find the cards that cost something. -/
theorem heartPenalty_eq_cost (cards : List Card) : HEART_PENALTY_VAL * cards.countP isHeart = costOfHearts cards :=
  Nat.one_mul _

theorem queenPenalty_eq_cost (cards : List Card) : QUEEN_PENALTY_VAL * cards.countP isQueen = costOfQueens cards :=
  rfl

theorem kingJackPenalty_eq_cost (cards : List Card) :
    KING_JACK_PENALTY_VAL * cards.countP isKingOrJack = costOfKingsAndJacks cards := by
  have htest : isKingOrJack = fun c => decide (c.value = .K ∨ c.value = .J) := by
    funext c
    exact (Bool.decide_or _ _).symm
  rw [htest]
  rfl

theorem kingHeartPenalty_eq_cost (cards : List Card) :
    KING_HEART_PENALTY_VAL * cards.countP isKingOfHearts = costOfKingOfHearts cards := by
  have htest : isKingOfHearts = (· == (⟨.K, .colorH⟩ : Card)) := by
    funext c
    revert c
    decide
  rw [htest]
  rfl

theorem numberPenalty_eq_cost (n : Nat) :
    (if isSeventhOrLast n then SEVENTH_LAST_TRICK_PENALTY_VAL else 0) = costOfNumber n := by
  simp [isSeventhOrLast, costOfNumber, TRICKS_PER_ROUND, SEVENTH_LAST_TRICK_PENALTY_VAL]

/-- The `switch` of `whoTakes` computes the price. -/
theorem penalty_eq_price (table : Table) (mode : RoundType) (n : Nat) :
    penalty table mode n = price mode n table := by
  cases mode with
  | trickPenalty => rfl
  | seventhLastTrickPenalty => exact numberPenalty_eq_cost n
  | heartPenalty => exact (sumOver_eq _ _ _).trans (heartPenalty_eq_cost table)
  | queenPenalty => exact (sumOver_eq _ _ _).trans (queenPenalty_eq_cost table)
  | kingJackPenalty => exact (sumOver_eq _ _ _).trans (kingJackPenalty_eq_cost table)
  | heartKingPenalty => exact (sumOver_eq _ _ _).trans (kingHeartPenalty_eq_cost table)
  | everything =>
      rw [penalty, foldl_everythingCard, numberPenalty_eq_cost, heartPenalty_eq_cost, queenPenalty_eq_cost,
        kingJackPenalty_eq_cost, kingHeartPenalty_eq_cost]
      rfl

/-- The rules of the game. -/
def kierki : Rules Side Card Color RoundType where
  seats := 4
  next := nxtSide
  next_reach := by decide
  next_apart := by
    intro p j hpos hlt
    interval_cases j <;> revert p <;> decide
  suit := Card.col
  rank := Card.trueVal
  size := TRICKS_PER_ROUND
  penalty := price

/-- A round of the scenario as a deal. -/
def Round.toDeal (r : Round) : Deal Side Card RoundType := ⟨r.mode, r.deal, r.starting⟩

/-- The deals of a scenario. -/
def deals (scenario : GameScenario) : List (Deal Side Card RoundType) := scenario.map Round.toDeal

/-- The states of the reference game. -/
abbrev CardGame := TrickGame.State Side Card RoundType

theorem deals_getElem?_eq_some {scenario : GameScenario} {i : Nat} {d : Deal Side Card RoundType} :
    (deals scenario)[i]? = some d ↔ ∃ r, scenario[i]? = some r ∧ r.toDeal = d := by
  simp [deals, Option.map_eq_some_iff]

/-- `whoTakes` walks from the leader to the player of the best card. -/
theorem takerLoop_best (start : Side) (k : Color) (b : Play Side Card) (ix i : Nat)
    (qs : List (Play Side Card)) (hb : nxtSide^[ix] start = b.seat)
    (hqs : qs.map Play.seat = List.iterate nxtSide (nxtSide^[i] start) qs.length) :
    nxtSide^[takerLoop k b.card ix i (qs.map Play.card)] start = (kierki.best k b qs).seat := by
  induction qs generalizing b ix i with
  | nil => exact hb
  | cons q qs ih =>
      simp only [List.map_cons, List.length_cons, List.iterate, List.cons.injEq] at hqs
      have hrest : qs.map Play.seat = List.iterate nxtSide (nxtSide^[i + 1] start) qs.length := by
        rw [Function.iterate_succ_apply']
        exact hqs.2
      have hiff : (q.card.col = k ∧ q.card.gt b.card = true) ↔
          (kierki.suit q.card = k ∧ kierki.rank b.card < kierki.rank q.card) := by
        rw [Card.gt_iff]
        rfl
      rw [List.map_cons, takerLoop, Rules.best]
      by_cases hbetter : q.card.col = k ∧ q.card.gt b.card = true
      · rw [if_pos hbetter, if_pos (hiff.mp hbetter)]
        exact ih q i (i + 1) hqs.1.symm hrest
      · rw [if_neg hbetter, if_neg fun h => hbetter (hiff.mpr h)]
        exact ih b ix (i + 1) hb hrest

theorem takerIx_taker (leader nobody : Side) (plays : List (Play Side Card)) (hne : plays ≠ [])
    (horder : plays.map Play.seat = List.iterate nxtSide leader plays.length) :
    nxtSide^[takerIx (plays.map Play.card)] leader = kierki.taker nobody plays := by
  cases plays with
  | nil => exact absurd rfl hne
  | cons first rest =>
      simp only [List.map_cons, List.length_cons, List.iterate, List.cons.injEq] at horder
      exact takerLoop_best leader first.card.col first 0 1 rest horder.1.symm horder.2

/-- The message for a trick that was taken. -/
def takenMsg (t : Trick Side Card) : SendJob := .taken t.cards t.taker t.number

/-- The nine game fields of the server are what the reference game says. -/
structure Matches (g : Game) (S : CardGame) : Prop where
  hands : g.hands = S.hands
  table : g.table = S.plays.map Play.card
  nextMove : g.nextMove = S.turn kierki
  trickNo : g.trickNo = S.done.length + 1
  roundNumber : g.roundNumber = S.past.length
  roundMode : g.roundMode = S.deal.mode
  penaltiesRound : ∀ s, g.penaltiesRound.find? s =
    if S.past ≠ [] ∨ s ∈ S.done.map Trick.taker then some (S.roundPoints kierki s) else none
  penalties : ∀ s, g.penalties.find? s = some (S.total kierki s)
  takenInRound : g.takenInRound = S.done.map takenMsg

theorem Matches.value {g : Game} {S : CardGame} (h : Matches g S) (s : Side) :
    g.penaltiesRound.value s = S.roundPoints kierki s := by
  rw [ScoreMap.value, h.penaltiesRound]
  by_cases hkey : S.past ≠ [] ∨ s ∈ S.done.map Trick.taker
  · rw [if_pos hkey]
    rfl
  · -- nobody has paid yet, and this side has taken no trick
    rw [if_neg hkey]
    simp only [not_or, not_not, List.mem_map, not_exists, not_and] at hkey
    have hnone : S.done.filter (fun t => t.taker = s) = [] := by
      rw [List.filter_eq_nil_iff]
      exact fun t ht => by simpa using hkey.2 t ht
    simp [State.roundPoints, Rules.points, hnone]

theorem matches_start (r : Round) : Matches (Game.new.prepare r) (State.start r.toDeal) where
  hands := rfl
  table := rfl
  nextMove := rfl
  trickNo := rfl
  roundNumber := rfl
  roundMode := rfl
  penaltiesRound := by simp [Game.new, Game.prepare, State.start]
  penalties := by
    intro s
    cases s <;> rfl
  takenInRound := rfl

/-- A card on the table. -/
theorem Matches.putCard {g : Game} {S : CardGame} (h : Matches g S) (side : Side) (card : Card) :
    Matches (g.putCard side card) (S.put side card) where
  hands := by simp [Game.putCard, State.put, h.hands, rmCardIfPresent_eq_erase]
  table := by simp [Game.putCard, h.table]
  nextMove := by
    rw [Game.putCard, h.nextMove]
    simp [State.turn, Function.iterate_succ_apply', kierki]
  trickNo := h.trickNo
  roundNumber := h.roundNumber
  roundMode := h.roundMode
  penaltiesRound := h.penaltiesRound
  penalties := h.penalties
  takenInRound := h.takenInRound

/-- A full table: `whoTakes` starts from the player who comes after the fourth, and that is the one
who led. -/
theorem Matches.whoTakes {g : Game} {S : CardGame} (h : Matches g S)
    (hfull : g.table.length = 4)
    (horder : S.plays.map Play.seat = List.iterate nxtSide S.leader S.plays.length) :
    g.whoTakes = (kierki.taker S.leader S.plays,
      price S.deal.mode (S.done.length + 1) (S.plays.map Play.card)) := by
  have hlen : S.plays.length = 4 := by simpa [h.table] using hfull
  have hlead : g.nextMove = S.leader := by
    rw [h.nextMove, State.turn, hlen]
    exact nxtSide_four S.leader
  have hne : S.plays ≠ [] := by
    rintro he
    simp [he] at hlen
  rw [Game.whoTakes, GameRules.whoTakes, hlead, penalty_eq_price, h.table, h.roundMode, h.trickNo,
    takerIx_taker S.leader S.leader S.plays hne horder]

/-- A trick goes to its taker. -/
theorem Matches.takeTrick {g : Game} {S : CardGame} (h : Matches g S)
    (hfull : g.table.length = 4) (hopen : S.closed = false)
    (horder : S.plays.map Play.seat = List.iterate nxtSide S.leader S.plays.length) :
    Matches g.takeTrick (S.collect kierki) := by
  have hwho := h.whoTakes hfull horder
  refine ⟨h.hands, rfl, ?_, ?_, h.roundNumber, h.roundMode, fun s => ?_, h.penalties, ?_⟩
  · simp [Game.takeTrick, hwho, State.turn, State.collect]
  · simp [Game.takeTrick, State.collect, h.trickNo]
  · have hpoints : (S.collect kierki).roundPoints kierki s =
        S.roundPoints kierki s + if kierki.taker S.leader S.plays = s then
          price S.deal.mode (S.done.length + 1) (S.plays.map Play.card) else 0 := by
      simp only [State.roundPoints, State.collect, hopen, Bool.false_eq_true, if_false]
      exact kierki.points_concat _ _ _ _
    rw [Game.takeTrick, hwho, ScoreMap.add, UnorderedMap.find?_insert, h.value, hpoints]
    by_cases hs : s = kierki.taker S.leader S.plays
    · simp [State.collect, hs]
    · rw [if_neg hs, h.penaltiesRound, if_neg (Ne.symm hs)]
      simp [State.collect, hs]
  · simp [Game.takeTrick, Game.msgTaken, State.collect, takenMsg, hwho, h.takenInRound, h.table,
      h.trickNo, Trick.cards]

/-- The penalties of a round are added to the totals, and every side has an entry afterwards. -/
theorem updatePenalties_find? (g : Game) (s : Side) :
    g.updatePenalties.penaltiesRound.find? s = some (g.penaltiesRound.value s) ∧
      g.updatePenalties.penalties.find? s =
        some (g.penalties.value s + g.penaltiesRound.value s) := by
  constructor <;> cases s <;>
    simp [Game.updatePenalties, Side.sides_, ScoreMap.touch, ScoreMap.add, ScoreMap.value]

theorem leaveRound_find? (g : Game) (s : Side) :
    g.leaveRound.penaltiesRound.find? s = some 0 := by
  cases s <;> simp [Game.leaveRound, Game.clearTmpPenalties, Side.sides_]

/-- Two games that differ in their score maps at most. -/
structure SameBoard (g g' : Game) : Prop where
  hands : g'.hands = g.hands
  table : g'.table = g.table
  nextMove : g'.nextMove = g.nextMove
  trickNo : g'.trickNo = g.trickNo
  roundNumber : g'.roundNumber = g.roundNumber
  roundMode : g'.roundMode = g.roundMode
  takenInRound : g'.takenInRound = g.takenInRound

theorem SameBoard.trans {g₁ g₂ g₃ : Game} (h : SameBoard g₁ g₂) (h' : SameBoard g₂ g₃) :
    SameBoard g₁ g₃ :=
  ⟨h'.hands.trans h.hands, h'.table.trans h.table, h'.nextMove.trans h.nextMove,
    h'.trickNo.trans h.trickNo, h'.roundNumber.trans h.roundNumber, h'.roundMode.trans h.roundMode,
    h'.takenInRound.trans h.takenInRound⟩

theorem SameBoard.foldl {f : Game → Side → Game} (hf : ∀ g s, SameBoard g (f g s))
    (sides : List Side) (g : Game) : SameBoard g (sides.foldl f g) := by
  induction sides generalizing g with
  | nil => exact ⟨rfl, rfl, rfl, rfl, rfl, rfl, rfl⟩
  | cons s sides ih => exact (hf g s).trans (ih (f g s))

theorem updatePenalties_sameBoard (g : Game) : SameBoard g g.updatePenalties := by
  apply SameBoard.foldl
  exact fun _ _ => ⟨rfl, rfl, rfl, rfl, rfl, rfl, rfl⟩

/-- Leaving a round clears the temporary penalties and counts the round. -/
theorem leaveRound_sameBoard (g : Game) :
    SameBoard { g.updatePenalties with roundNumber := g.roundNumber + 1 }
      g.updatePenalties.leaveRound := by
  have hclear : SameBoard g.updatePenalties g.updatePenalties.clearTmpPenalties := by
    apply SameBoard.foldl
    exact fun _ _ => ⟨rfl, rfl, rfl, rfl, rfl, rfl, rfl⟩
  have hnumber : g.updatePenalties.roundNumber = g.roundNumber :=
    (updatePenalties_sameBoard g).roundNumber
  exact ⟨hclear.hands, hclear.table, hclear.nextMove, hclear.trickNo, by rw [Game.leaveRound, hnumber],
    hclear.roundMode, hclear.takenInRound⟩

theorem leaveRound_penalties (g : Game) : g.leaveRound.penalties = g.penalties := by
  simp [Game.leaveRound, Game.clearTmpPenalties, Side.sides_]

/-- A game at the end of a round. -/
theorem Matches.leaveRound {g : Game} {S : CardGame} (h : Matches g S) :
    SameBoard { g with roundNumber := S.past.length + 1 } g.updatePenalties.leaveRound := by
  have hupdate := updatePenalties_sameBoard g
  have hsame := leaveRound_sameBoard g
  rw [h.roundNumber] at hsame
  exact ⟨hsame.hands.trans hupdate.hands, hsame.table.trans hupdate.table,
    hsame.nextMove.trans hupdate.nextMove, hsame.trickNo.trans hupdate.trickNo, hsame.roundNumber,
    hsame.roundMode.trans hupdate.roundMode, hsame.takenInRound.trans hupdate.takenInRound⟩

/-- What the finished rounds cost, with the round that has just been finished. -/
theorem Matches.total {g : Game} {S : CardGame} (h : Matches g S) (hopen : S.closed = false)
    (s : Side) : g.updatePenalties.penalties.find? s =
      some (S.total kierki s + kierki.points S.deal.mode S.done s) := by
  rw [(updatePenalties_find? g s).2, h.value, ScoreMap.value, h.penalties]
  simp [State.roundPoints, hopen]

/-- The game is over. -/
theorem Matches.gameOver {g : Game} {S : CardGame} {scenario : GameScenario} (h : Matches g S)
    (hopen : S.closed = false) (hlast : g.updatePenalties.leaveRound.roundNumber = scenario.length) :
    Matches g.updatePenalties.leaveRound (S.close (deals scenario)) := by
  have hnone : (deals scenario)[S.past.length + 1]? = none := by
    rw [List.getElem?_eq_none_iff, deals, List.length_map, ← hlast, h.leaveRound.roundNumber]
  have hsame := h.leaveRound
  rw [State.close_last hnone]
  refine ⟨hsame.hands.trans h.hands, hsame.table.trans h.table, hsame.nextMove.trans h.nextMove,
    hsame.trickNo.trans h.trickNo, by simp [hsame.roundNumber], hsame.roundMode.trans h.roundMode,
    fun s => ?_, fun s => ?_, hsame.takenInRound.trans h.takenInRound⟩
  · simp [leaveRound_find?, State.roundPoints]
  · rw [leaveRound_penalties, h.total hopen]
    simp [State.total]

/-- The next round is dealt. -/
theorem Matches.nextRound {g : Game} {S : CardGame} {scenario : GameScenario} {r : Round}
    (h : Matches g S) (hopen : S.closed = false) (htable : S.plays = [])
    (hr : scenario[g.updatePenalties.leaveRound.roundNumber]? = some r) :
    Matches (g.updatePenalties.leaveRound.prepare r) (S.close (deals scenario)) := by
  have hdeal : (deals scenario)[S.past.length + 1]? = some r.toDeal := by
    rw [h.leaveRound.roundNumber] at hr
    simp [deals, hr]
  rw [State.close_next hdeal]
  refine ⟨rfl, ?_, rfl, rfl, by simp [Game.prepare, h.leaveRound.roundNumber], rfl, fun s => ?_,
    fun s => ?_, rfl⟩
  · rw [Game.prepare, h.leaveRound.table, h.table, htable]
    rfl
  · simp [Game.prepare, leaveRound_find?, State.roundPoints, Rules.points, State.start]
  · rw [Game.prepare, leaveRound_penalties, h.total hopen]
    simp [State.total]

/-- The server is in the state `S` of the reference game over its scenario. -/
structure Mirrors (scenario : GameScenario) (σ : Server) (S : CardGame) : Prop where
  scenario_eq : σ.gameScenario = scenario
  sound : State.Sound kierki (deals scenario) S
  unfinished : S.Unfinished kierki
  conserves : S.Conserves
  game : Matches σ.game S

theorem deal_size {scenario : GameScenario} {i : Nat} {d : Deal Side Card RoundType}
    (h : (deals scenario)[i]? = some d) (s : Side) : (d.hands s).length = TRICKS_PER_ROUND := by
  obtain ⟨r, -, rfl⟩ := deals_getElem?_eq_some.mp h
  exact r.dealt s

section Mirror

variable {scenario : GameScenario} {σ σ' : Server} {S : CardGame}

/-- The deal that is played is one of the scenario. -/
theorem Mirrors.deal (h : Mirrors scenario σ S) : ∃ i : Nat, (deals scenario)[i]? = some S.deal := by
  cases hclosed : S.closed with
  | false => exact ⟨_, h.sound.live hclosed⟩
  | true =>
      obtain ⟨-, -, -, before, hpast⟩ := h.sound.ended hclosed
      refine ⟨before.length, (h.sound.past before.length ⟨S.deal, S.done⟩ ?_).1⟩
      rw [hpast, List.getElem?_concat_length]

/-- How many cards a side holds. -/
theorem Mirrors.hand_size (h : Mirrors scenario σ S) (s : Side) :
    (S.hands s).length + S.done.length + (S.plays.map Play.seat).count s = TRICKS_PER_ROUND := by
  obtain ⟨i, hi⟩ := h.deal
  rw [h.sound.sizes s, deal_size hi s]

/-- The game is over only when nobody has a card left. -/
theorem Mirrors.no_card (h : Mirrors scenario σ S) (hclosed : S.closed = true) (s : Side) :
    S.hands s = [] := by
  have hsize := h.hand_size s
  obtain ⟨-, hdone, -⟩ := h.sound.ended hclosed
  have hthirteen : S.done.length = TRICKS_PER_ROUND := hdone
  exact List.length_eq_zero_iff.mp (by omega)

/-- The server admits a card of the side to move exactly if it is a legal move. -/
theorem Mirrors.legal_iff (h : Mirrors scenario σ S) (side : Side) (card : Card) :
    S.Legal kierki side card ↔
      σ.game.nextMove = side ∧ isMoveLegal side card σ.game.hands σ.game.table = true := by
  have hfollow : kierki.Follows S.plays (S.hands side) card ↔
      ∀ front ∈ (S.plays.map Play.card).head?,
        card.col = front.col ∨ ∀ d ∈ S.hands side, d.col ≠ front.col := by
    unfold Rules.Follows Rules.led
    cases S.plays with
    | nil => simp
    | cons first rest => simp [kierki]
  rw [isMoveLegal_iff, h.game.hands, h.game.table, h.game.nextMove, State.Legal, hfollow]
  constructor
  · rintro ⟨-, hturn, hheld, hcol⟩
    exact ⟨hturn.symm, hheld, hcol⟩
  · rintro ⟨hturn, hheld, hcol⟩
    refine ⟨?_, hturn.symm, hheld, hcol⟩
    by_contra hclosed
    rw [h.no_card (by simpa using hclosed) side] at hheld
    cases hheld

/-- The three outcomes of a move, with the numbers of the game. -/
theorem kierki_play {side : Side} {card : Card} {S' : CardGame}
    (hplay : S.play kierki (deals scenario) (side, card) = some S') :
    ((S.put side card).plays.length < 4 ∧ S' = S.put side card) ∨
      (4 ≤ (S.put side card).plays.length ∧ S.done.length + 1 < 13 ∧
        S' = (S.put side card).collect kierki) ∨
      (4 ≤ (S.put side card).plays.length ∧ 13 ≤ S.done.length + 1 ∧
        S' = ((S.put side card).collect kierki).close (deals scenario)) :=
  (State.play_eq_some hplay).2

/-- The table holds the cards of the trick, no more than four. -/
theorem Mirrors.table_length (h : Mirrors scenario σ S) (side : Side) (card : Card) :
    (σ.game.putCard side card).table.length = (S.put side card).plays.length ∧
      (S.put side card).plays.length ≤ 4 := by
  have hput : Matches (σ.game.putCard side card) (S.put side card) := h.game.putCard side card
  have hshort : S.plays.length < 4 := h.sound.short
  exact ⟨by rw [hput.table, List.length_map], by simpa using hshort⟩

/-- The number that the next trick will have. -/
theorem Mirrors.takeTrick_trickNo (h : Mirrors scenario σ S) (side : Side) (card : Card) :
    (σ.game.putCard side card).takeTrick.trickNo = S.done.length + 2 := by
  change (σ.game.putCard side card).trickNo + 1 = _
  rw [(h.game.putCard side card).trickNo]
  rfl

/-- **An accepted card is one legal move of the reference game.** -/
theorem Mirrors.accepted {n : Nat} {side : Side} {card : Card} (h : Mirrors scenario σ S)
    (hgood : σ.admits n card side) (hacc : Server.Accepted σ side card σ') :
    ∃ S', S.play kierki (deals scenario) (side, card) = some S' ∧ Mirrors scenario σ' S' := by
  have hlegal : S.Legal kierki side card := (h.legal_iff side card).mpr hgood.2
  obtain ⟨S', hS'⟩ := Option.isSome_iff_exists.mp ((State.play_isSome_iff S (side, card)).mpr hlegal)
  obtain ⟨hsound, hunfinished⟩ := h.sound.play h.unfinished hS'
  refine ⟨S', hS', hacc.gameScenario.trans h.scenario_eq, hsound, hunfinished,
    h.conserves.play hS', ?_⟩
  have hput : Matches (σ.game.putCard side card) (S.put side card) := h.game.putCard side card
  have horder := h.sound.put_order hlegal
  obtain ⟨hlen, hmost⟩ := h.table_length side card
  have hno := h.takeTrick_trickNo side card
  -- the reference goes on in one of three ways, and the numbers of the server say in which
  have hcases := kierki_play hS'
  have hlast : S.done.length < 13 := h.unfinished hlegal.1
  cases hacc with
  | inTrick g mgr out hg hne _ _ =>
      subst hg
      rcases hcases with ⟨-, rfl⟩ | ⟨hfull, -⟩ | ⟨hfull, -⟩
      · exact hput
      · omega
      · omega
  | trickDone g₀ g mgr out hg₀ hfull hg hnext _ _ =>
      subst hg₀ hg
      rw [hno] at hnext
      rcases hcases with ⟨hshort, -⟩ | ⟨-, -, rfl⟩ | ⟨-, hend, -⟩
      · omega
      · exact hput.takeTrick hfull hlegal.1 horder
      · exact absurd (by omega : S.done.length + 2 = 14) hnext
  | roundDone g₀ g₁ g r mgr out hg₀ hfull hg₁ hnext _ hr hg _ _ =>
      subst hg₀ hg₁ hg
      rw [hno] at hnext
      have hend : S.done.length + 2 = 14 := hnext
      rcases hcases with ⟨hshort, -⟩ | ⟨-, hmore, -⟩ | ⟨-, -, rfl⟩
      · omega
      · omega
      · -- the server finds the next round where the reference takes its next deal
        rw [h.scenario_eq] at hr
        exact (hput.takeTrick hfull hlegal.1 horder).nextRound hlegal.1 rfl hr
  | gameDone g₀ g₁ g mgr out σ' hg₀ hfull hg₁ hnext hover hg _ _ hfin =>
      subst hg₀ hg₁ hg
      rw [hno] at hnext
      have hend : S.done.length + 2 = 14 := hnext
      rcases hcases with ⟨hshort, -⟩ | ⟨-, hmore, -⟩ | ⟨-, -, rfl⟩
      · omega
      · omega
      · rw [h.scenario_eq] at hover
        rw [hfin.frame.1]
        exact (hput.takeTrick hfull hlegal.1 horder).gameOver hlegal.1 hover

/-- Every call leaves the reference game alone, or makes one move. -/
theorem Mirrors.effect {e : Server.Call} {b : Bool} (h : Mirrors scenario σ S)
    (heff : Server.Effect σ e b σ') :
    (σ.accepts e = none ∧ Mirrors scenario σ' S) ∨
      ∃ m S', σ.accepts e = some m ∧ S.play kierki (deals scenario) m = some S' ∧
        Mirrors scenario σ' S' := by
  rcases heff.accepts_cases with ⟨hnone, hgame, hscenario⟩ |
    ⟨n, card, ix, side, -, haccept, -, -, hgood, hacc⟩
  · refine .inl ⟨hnone, hscenario.trans h.scenario_eq, h.sound, h.unfinished, h.conserves, ?_⟩
    rw [hgame]
    exact h.game
  · obtain ⟨S', hS', hmirrors⟩ := h.accepted hgood hacc
    exact .inr ⟨(side, card), S', haccept, hS', hmirrors⟩

end Mirror

namespace Server

/-- The accepted cards of a run, each with the side that played it. -/
def moves : GameScenario → Int → List Call → List (Side × Card) :=
  runRecord fun σ e _ => (σ.accepts e).toList

/-- The same cards, each with the hand it was taken from. -/
def plays : GameScenario → Int → List Call → List (Play Side Card) :=
  runRecord fun σ e _ => (σ.accepts e).toList.map fun m => ⟨m.1, m.2, σ.game.hands m.1⟩

/-- **Induction over runs with the reference game beside them.**  A property of the calls, the server
and the reference game holds after every run if it holds at the start, is kept by every call that
accepts no card, and is kept by every accepted card together with its move. -/
theorem reference_induction {scenario : GameScenario} {timeout : Int}
    {P : List Call → Server → CardGame → Prop}
    (hstart : ∀ r, scenario[0]? = some r →
      P [] (started scenario timeout r) (State.start r.toDeal))
    (hquiet : ∀ es σ e b σ' S, run scenario timeout es = some σ →
      run scenario timeout (es ++ [e]) = some σ' → Mirrors scenario σ S → P es σ S →
      Effect σ e b σ' → σ.accepts e = none → P (es ++ [e]) σ' S)
    (hmove : ∀ es σ e b σ' S S' m, run scenario timeout es = some σ →
      run scenario timeout (es ++ [e]) = some σ' → Mirrors scenario σ S → P es σ S →
      Effect σ e b σ' → σ.accepts e = some m → S.play kierki (deals scenario) m = some S' →
      Mirrors scenario σ' S' → P (es ++ [e]) σ' S')
    {es : List Call} {σ : Server} (h : run scenario timeout es = some σ) :
    ∃ S, Mirrors scenario σ S ∧ P es σ S := by
  refine run_induction (P := fun es σ => ∃ S, Mirrors scenario σ S ∧ P es σ S) (fun r hr => ?_)
    (fun es σ e b σ' hrun hrun' hP heff => ?_) h
  · have hdeal : (deals scenario)[0]? = some r.toDeal := deals_getElem?_eq_some.mpr ⟨r, hr, rfl⟩
    refine ⟨State.start r.toDeal, ⟨rfl, State.sound_start (by decide) hdeal, ?_,
      State.conserves_start _, matches_start r⟩, hstart r hr⟩
    exact fun _ => (by decide : 0 < TRICKS_PER_ROUND)
  · obtain ⟨S, hmirrors, hPS⟩ := hP
    rcases hmirrors.effect heff with ⟨hnone, hmirrors'⟩ | ⟨m, S', haccept, hplay, hmirrors'⟩
    · exact ⟨S, hmirrors', hquiet es σ e b σ' S hrun hrun' hmirrors hPS heff hnone⟩
    · exact ⟨S', hmirrors',
        hmove es σ e b σ' S S' m hrun hrun' hmirrors hPS heff haccept hplay hmirrors'⟩

theorem moves_concat {scenario : GameScenario} {timeout : Int} {es : List Call} {e : Call}
    {σ σ' : Server} (h : run scenario timeout es = some σ)
    (h' : run scenario timeout (es ++ [e]) = some σ') :
    moves scenario timeout (es ++ [e]) = moves scenario timeout es ++ (σ.accepts e).toList :=
  runRecord_concat _ h h'

theorem plays_concat {scenario : GameScenario} {timeout : Int} {es : List Call} {e : Call}
    {σ σ' : Server} (h : run scenario timeout es = some σ)
    (h' : run scenario timeout (es ++ [e]) = some σ') :
    plays scenario timeout (es ++ [e]) = plays scenario timeout es ++
      (σ.accepts e).toList.map fun m => ⟨m.1, m.2, σ.game.hands m.1⟩ :=
  runRecord_concat _ h h'

/-- The game has on record exactly the cards that were accepted, with the hands of that moment. -/
theorem run_history {scenario : GameScenario} {timeout : Int} {es : List Call} {σ : Server}
    (h : run scenario timeout es = some σ) :
    ∃ S, Mirrors scenario σ S ∧ S.history = plays scenario timeout es := by
  refine reference_induction (P := fun es _ S => S.history = plays scenario timeout es)
    (fun r _ => ?_) (fun es σ e b σ' S hrun hrun' _ hP _ hnone => ?_)
    (fun es σ e b σ' S S' m hrun hrun' hmirrors hP _ haccept hplay _ => ?_) h
  · simp [plays, State.history, State.tricks, State.start]
  · simpa [plays_concat hrun hrun', hnone] using hP
  · rw [plays_concat hrun hrun', haccept, State.play_history hplay, hP, hmirrors.game.hands]
    rfl

/-- **The server refines the reference game**: after any run it is in the state to which the accepted
cards lead. -/
theorem run_reference {scenario : GameScenario} {timeout : Int} {es : List Call} {σ : Server}
    (h : run scenario timeout es = some σ) :
    ∃ S, Mirrors scenario σ S ∧ ∃ r, scenario[0]? = some r ∧
      Execution.exec (State.play kierki (deals scenario)) (State.start r.toDeal)
        (moves scenario timeout es) = some S := by
  refine reference_induction (P := fun es _ S => ∃ r, scenario[0]? = some r ∧
    Execution.exec (State.play kierki (deals scenario)) (State.start r.toDeal)
      (moves scenario timeout es) = some S)
    (fun r hr => ?_) (fun es σ e b σ' S hrun hrun' _ hP _ hnone => ?_)
    (fun es σ e b σ' S S' m hrun hrun' hmirrors hP _ haccept hplay _ => ?_) h
  · exact ⟨r, hr, by simp [moves]⟩
  · simpa [moves_concat hrun hrun', hnone] using hP
  · obtain ⟨r, hr, hexec⟩ := hP
    refine ⟨r, hr, ?_⟩
    rw [moves_concat hrun hrun', haccept, Execution.exec_append, hexec]
    simp [Execution.exec, hplay]

end Server

end Kierki
