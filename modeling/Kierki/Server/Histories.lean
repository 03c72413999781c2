import Kierki.Server.Deals

/-!
# The history of a connection

Two code paths build what a connection is told of the game: the broadcasts of `playerTricked` and the
replay of `playerIntro`.  Both tell parts of the same `annals`: round by round the deal, the tricks, and
behind the thirteenth the score and the total.  A seated connection knows the annals from the round in
which it sat down up to the present moment; a connection without a seat knows a prefix.
-/

namespace Kierki

open TrickGame

/-- The messages that make up a history, without the side of a `DEAL` and the numbers of a `SCORE`. -/
inductive Entry
  | deal (mode : RoundType) (cards : Hand)
  | taken (cards : Table) (taker : Side) (trickNo : Nat)
  | score
  | total
  deriving DecidableEq, Repr

/-- The place of an entry in the sequence of a round. -/
inductive Place
  | deal | taken (trickNo : Nat) | score | total
  deriving DecidableEq, Repr

def Entry.place : Entry → Place
  | .deal _ _ => .deal
  | .taken _ _ n => .taken n
  | .score => .score
  | .total => .total

/-- `DEAL`, `TAKEN 1`, ..., `TAKEN 13`, `SCORE`, `TOTAL`. -/
def cycle : List Place :=
  .deal :: ((List.range' 1 TRICKS_PER_ROUND).map .taken ++ [.score, .total])

def SendJob.entry : SendJob → Option Entry
  | .deal mode _ cards => some (.deal mode cards)
  | .taken cards taker n => some (.taken cards taker n)
  | .score _ => some .score
  | .total _ => some .total
  | _ => none

def trickEntry (t : Trick Side Card) : Entry := .taken t.cards t.taker t.number

/-- What side `s` is told of a round. -/
def roundEntries (s : Side) (r : Finished Side Card RoundType) : List Entry :=
  .deal r.deal.mode (r.deal.hands s) :: (r.tricks.map trickEntry ++
    if r.tricks.length = TRICKS_PER_ROUND then [.score, .total] else [])

/-- The rounds of the game, the present one included. -/
def rounds (S : CardGame) : List (Finished Side Card RoundType) :=
  S.past ++ if S.closed then [] else [⟨S.deal, S.done⟩]

/-- What side `s` is told from round `i` on. -/
def annals (S : CardGame) (s : Side) (i : Nat) : List Entry :=
  ((rounds S).drop i).flatMap (roundEntries s)

theorem entries_takenMsg (ts : List (Trick Side Card)) :
    (ts.map takenMsg).filterMap SendJob.entry = ts.map trickEntry := by
  rw [List.filterMap_map, ← List.filterMap_eq_map]
  rfl

@[simp] theorem entries_promptFor (g : Game) (s : Side) :
    (Server.promptFor g s).filterMap SendJob.entry = [] := by
  unfold Server.promptFor
  split <;> rfl

theorem annals_open {S : CardGame} (hopen : S.closed = false) (s : Side) {i : Nat}
    (hi : i ≤ S.past.length) :
    annals S s i = (S.past.drop i).flatMap (roundEntries s) ++ roundEntries s ⟨S.deal, S.done⟩ := by
  rw [annals, rounds, hopen, if_neg (by simp), List.drop_append_of_le_length hi, List.flatMap_append]
  simp

theorem annals_beyond {S : CardGame} (s : Side) {i : Nat} (hi : (rounds S).length ≤ i) :
    annals S s i = [] := by
  rw [annals, List.drop_eq_nil_of_le hi]
  rfl

/-- A move adds to the annals what it announces. -/
theorem Outcome.annals_eq {S S' : CardGame} {side s : Side} {card : Card} {g : Game}
    {msgs : List SendJob} (h : Outcome S side card s g S' msgs) (hopen : S.closed = false)
    (hbefore : S.done.length < TRICKS_PER_ROUND) {i : Nat} (hi : i ≤ S.past.length) :
    annals S' s i = annals S s i ++ msgs.filterMap SendJob.entry := by
  have hne : ¬ S.done.length = TRICKS_PER_ROUND := hbefore.ne
  rw [annals_open hopen s hi]
  cases h with
  | inTrick _ =>
      rw [annals_open (by simpa using hopen) s (by simpa using hi)]
      simp
  | trickDone t _ hmore ht =>
      have hmore' : ¬ S.done.length + 1 = TRICKS_PER_ROUND := hmore.ne
      rw [annals_open (S := (S.put side card).collect kierki) hopen s hi, ht]
      rw [show ((S.put side card).collect kierki).past = S.past from rfl,
        show ((S.put side card).collect kierki).deal = S.deal from rfl]
      simp [roundEntries, hne, hmore', SendJob.entry, takenMsg, trickEntry]
  | roundDone t r S' l l' _ hlast ht hS' =>
      subst hS'
      rw [annals_open rfl s (by simp; omega)]
      have hzero : ¬ 0 = TRICKS_PER_ROUND := by decide
      simp [List.drop_append_of_le_length hi, roundEntries, hne, hlast, SendJob.entry, takenMsg,
        trickEntry, State.start, Round.toDeal, hzero]
  | gameDone t S' l l' _ hlast ht hS' =>
      subst hS'
      simp [annals, rounds, List.drop_append_of_le_length hi, roundEntries, hne, hlast,
        SendJob.entry, takenMsg, trickEntry]

/-- No side loses what it was told when a card is accepted. -/
theorem Outcome.annals_initial {S S' : CardGame} {side s : Side} {card : Card} {g : Game}
    {msgs : List SendJob} (h : Outcome S side card s g S' msgs) (hopen : S.closed = false)
    (hbefore : S.done.length < TRICKS_PER_ROUND) (i : Nat) : annals S s i <+: annals S' s i := by
  by_cases hi : i ≤ S.past.length
  · rw [h.annals_eq hopen hbefore hi]
    exact List.prefix_append _ _
  · rw [annals_beyond s (by simp [rounds, hopen]; omega)]
    exact List.nil_prefix

namespace Server

open IOWorkerMgr

/-- What connection `ix` has been told of the game. -/
def chronicle (σ : Server) (ix : Nat) : List Entry := (σ.history ix).filterMap SendJob.entry

/-- The role of a worker that has said something never becomes `SERVING_UNKNOWN` again. -/
theorem Effect.spoken {σ σ' : Server} {e : Call} {b : Bool} (h : Effect σ e b σ')
    (hbook : SeatBook σ) {ix : Nat}
    (hix : ∃ role, σ.workerMgr.roles.find? ix = some role ∧ role ≠ .servingUnknown) :
    ∃ role, σ'.workerMgr.roles.find? ix = some role ∧ role ≠ .servingUnknown := by
  have hwith : ∀ {k : Nat} {new : WorkerStatus}, new ≠ .servingUnknown →
      σ'.workerMgr.roles = (σ.workerMgr.withRole k new).roles →
        ∃ role, σ'.workerMgr.roles.find? ix = some role ∧ role ≠ .servingUnknown := by
    intro k new hnew hroles
    rw [hroles]
    by_cases hk : ix = k
    · exact ⟨new, by simp [IOWorkerMgr.withRole, hk], hnew⟩
    · simpa [IOWorkerMgr.withRole, hk] using hix
  cases h.recast with
  | same _ _ _ hroles => rwa [hroles]
  | introduced _ _ _ _ _ hrole hroles =>
      refine hwith ?_ hroles
      rcases hrole with rfl | rfl | ⟨rfl, -⟩ <;> decide
  | tricked _ _ _ _ _ hroles => exact hwith (by decide) hroles
  | exited _ _ _ _ _ _ hrole hroles =>
      refine hwith ?_ hroles
      rcases hrole with rfl | ⟨rfl, -⟩ <;> decide
  | came _ _ hroles =>
      -- a new connection has the role, under an index of its own
      obtain ⟨role, hrole, hne⟩ := hix
      have hold : ix ≠ σ.workerMgr.nextIx := (hbook.known ix role hrole).ne
      exact ⟨role, by rwa [hroles, UnorderedMap.find?_insert, if_neg hold], hne⟩

/-- What the connections have been told in the state `S` of the reference game. -/
structure Chronicled (σ : Server) (S : CardGame) : Prop where
  told : ∀ ix, ∃ s i, σ.chronicle ix <+: annals S s i
  seated : ∀ s ix, σ.activeSides s = some ix → σ.lastDeal ≠ none → S.closed = false →
    ∃ i ≤ S.past.length, σ.chronicle ix = annals S s i
  lobby : σ.lastDeal = none → ∀ ix, σ.chronicle ix = []
  spoken : ∀ ix, σ.chronicle ix ≠ [] →
    ∃ role, σ.workerMgr.roles.find? ix = some role ∧ role ≠ .servingUnknown

theorem Effect.chronicle_eq {scenario : GameScenario} {σ σ' : Server} {S : CardGame} {e : Call}
    {b : Bool} (h : Effect σ e b σ') (hmirrors : Mirrors scenario σ S) (ix : Nat) :
    σ'.chronicle ix = σ.chronicle ix ++ (received σ σ' ix).filterMap SendJob.entry := by
  obtain ⟨out, hsent, -⟩ := h.emits fun n card ix side _ hgood => hmirrors.trickNo_ne hgood
  rw [chronicle, history_eq hsent, List.filterMap_append]
  rfl

/-- A worker without a side is told nothing. -/
theorem Effect.chronicle_free {scenario : GameScenario} {σ σ' : Server} {S : CardGame} {e : Call}
    {b : Bool} (h : Effect σ e b σ') (hmirrors : Mirrors scenario σ S) (hbook : SeatBook σ) {ix : Nat}
    (hfree : ∀ t, σ'.activeSides t ≠ some ix) : σ'.chronicle ix = σ.chronicle ix := by
  have hnil : (received σ σ' ix).filterMap SendJob.entry = [] := by
    rw [List.filterMap_eq_nil_iff]
    intro msg hmsg
    obtain ⟨sides, rfl, -⟩ := h.received_free hbook hfree msg hmsg
    rfl
  rw [h.chronicle_eq hmirrors, hnil, List.append_nil]

/-- What a player is told who sits down: the deal of the round, and its tricks so far. -/
def present (S : CardGame) (s : Side) : List Entry :=
  .deal S.deal.mode (S.deal.hands s) :: S.done.map trickEntry

/-- The present is the end of the annals, but for the score of a game that is over. -/
theorem present_initial {scenario : GameScenario} {σ : Server} {S : CardGame}
    (h : Mirrors scenario σ S) (s : Side) :
    (∃ i, present S s <+: annals S s i) ∧
      (S.closed = false → present S s = annals S s S.past.length) := by
  cases hclosed : S.closed with
  | false =>
      have hne : ¬ S.done.length = TRICKS_PER_ROUND := (h.unfinished hclosed).ne
      have heq : present S s = annals S s S.past.length := by
        rw [annals_open hclosed s le_rfl]
        simp [present, roundEntries, hne]
      exact ⟨⟨S.past.length, heq ▸ List.prefix_rfl⟩, fun _ => heq⟩
  | true =>
      obtain ⟨-, -, -, before, hpast⟩ := h.sound.ended hclosed
      refine ⟨⟨before.length, ?_⟩, by simp⟩
      have hlast : annals S s before.length = roundEntries s ⟨S.deal, S.done⟩ := by
        simp [annals, rounds, hclosed, hpast]
      rw [hlast, present, roundEntries, ← List.cons_append]
      exact List.prefix_append _ _

/-- What a seated worker is told by a call that accepts no card: nothing, or, if it has just sat down or
the first deal is made, the present. -/
theorem Delivers.told {scenario : GameScenario} {σ σ' : Server} {S : CardGame} {s : Side} {ix : Nat}
    {e : Call} {msgs : List SendJob} (h : Delivers σ s ix e σ' msgs) (hmirrors : Mirrors scenario σ S)
    (hkept : DealKept σ S) (hchron : Chronicled σ S) (hquiet : σ.accepts e = none) :
    (msgs.filterMap SendJob.entry = [] ∧ (σ.activeSides s = some ix ∧
        (σ'.lastDeal ≠ none → σ.lastDeal ≠ none) ∨ σ.chronicle ix = [] ∧ σ'.lastDeal = none)) ∨
      (σ.chronicle ix = [] ∧ msgs.filterMap SendJob.entry = present S s) := by
  -- a worker that still has its first role has said nothing and has been told nothing
  have hunknown : σ.workerMgr.roles.find? ix = some .servingUnknown → σ.chronicle ix = [] := by
    intro hrole
    by_contra hne
    obtain ⟨role, hrole', hspoken⟩ := hchron.spoken ix hne
    exact hspoken (Option.some.inj (hrole'.symm.trans hrole))
  cases h with
  | quiet e σ' hseat hnone hgame hdeal => exact .inl ⟨rfl, .inl ⟨hseat, fun hd => hdeal ▸ hd⟩⟩
  | lobby σ' hseat hrole hpc hgame hold hdeal => exact .inl ⟨rfl, .inr ⟨hunknown hrole, hdeal⟩⟩
  | firstDeal side jx σ' hrole hfree hpc hgame hold hdeal hmine =>
      right
      -- before the first deal no trick has been played, so that the present is the deal alone
      have hfresh := hkept.fresh hold
      have hdone : S.done = [] := by
        rw [hfresh]
        rfl
      have hhands : S.hands = S.deal.hands := by
        rw [hfresh]
        rfl
      refine ⟨hchron.lobby hold ix, ?_⟩
      simp [present, hdone, Game.msgDeal, SendJob.entry, hmirrors.game.roundMode,
        hmirrors.game.hands, hhands]
  | rejoin deal σ' hseat hrole hgame hold hdeal =>
      right
      have hprompt : (if σ.playersConnected + 1 = 4 then promptFor σ.game s else []).filterMap
          SendJob.entry = [] := by
        split
        · exact entries_promptFor _ _
        · rfl
      refine ⟨hunknown hrole, ?_⟩
      -- the replay is the deal of the round with its tricks: the present itself
      rw [hkept.kept deal hold, hmirrors.game.takenInRound, List.filterMap_cons,
        List.filterMap_append, entries_takenMsg, hprompt, List.append_nil]
      simp [present, Game.msgDeal, SendJob.entry, hmirrors.game.roundMode]
  | resume side jx deal σ' hne hseat hrole hfree hpc hgame hold hdeal =>
      exact .inl ⟨entries_promptFor _ _, .inl ⟨hseat, fun _ => by simp [hold]⟩⟩
  | wrong n card jx σ' hseat hpc hside hbad hgame hdeal =>
      exact .inl ⟨rfl, .inl ⟨hseat, fun hd => hdeal ▸ hd⟩⟩
  | timeout σ' hseat hpc hexit hturn hgame hdeal =>
      exact .inl ⟨rfl, .inl ⟨hseat, fun hd => hdeal ▸ hd⟩⟩
  | accepted n card jx side σ' msgs hseat hpc hside hgood hacc hmsgs =>
      simp [accepts, hpc, hside, hgood] at hquiet

/-- A call that accepts no card. -/
theorem Chronicled.quiet {scenario : GameScenario} {σ σ' : Server} {S : CardGame} {e : Call} {b : Bool}
    (h : Chronicled σ S) (hmirrors : Mirrors scenario σ S) (hkept : DealKept σ S)
    (hbook : SeatBook σ) (heff : Effect σ e b σ') (hquiet : σ.accepts e = none) : Chronicled σ' S := by
  have hbook' := hbook.effect heff
  -- who has a side afterwards had it before, or sits down now
  have hseated : ∀ s ix, σ'.activeSides s = some ix →
      (σ'.chronicle ix = σ.chronicle ix ∧ (σ.activeSides s = some ix ∧
        (σ'.lastDeal ≠ none → σ.lastDeal ≠ none) ∨ σ.chronicle ix = [] ∧ σ'.lastDeal = none)) ∨
        σ'.chronicle ix = present S s := by
    intro s ix hix
    rw [heff.chronicle_eq hmirrors]
    rcases (heff.delivers hbook hix).told hmirrors hkept h hquiet with ⟨hnil, hold⟩ | ⟨hnil, hnew⟩
    · exact .inl ⟨by rw [hnil, List.append_nil], hold⟩
    · exact .inr (by rw [hnil, hnew, List.nil_append])
  constructor
  case told =>
    intro ix
    by_cases hfree : ∀ t, σ'.activeSides t ≠ some ix
    · rw [heff.chronicle_free hmirrors hbook hfree]
      exact h.told ix
    · obtain ⟨s, hs⟩ := not_forall_not.mp hfree
      rcases hseated s ix hs with ⟨hsame, -⟩ | hnew
      · rw [hsame]
        exact h.told ix
      · obtain ⟨i, hi⟩ := (present_initial hmirrors s).1
        exact ⟨s, i, hnew ▸ hi⟩
  case seated =>
    intro s ix hs hdeal hopen
    rcases hseated s ix hs with ⟨hsame, ⟨hseat, hold⟩ | ⟨-, hnone⟩⟩ | hnew
    · rw [hsame]
      exact h.seated s ix hseat (hold hdeal) hopen
    · exact absurd hnone hdeal
    · exact ⟨S.past.length, le_rfl, hnew.trans ((present_initial hmirrors s).2 hopen)⟩
  case lobby =>
    intro hdeal ix
    have hold := h.lobby (heff.lastDeal_none hdeal) ix
    by_cases hfree : ∀ t, σ'.activeSides t ≠ some ix
    · rw [heff.chronicle_free hmirrors hbook hfree, hold]
    · obtain ⟨s, hs⟩ := not_forall_not.mp hfree
      rw [heff.chronicle_eq hmirrors, hold, List.nil_append]
      have hdelivers := heff.delivers hbook hs
      have hbefore := heff.lastDeal_none hdeal
      generalize received σ σ' ix = msgs at hdelivers
      -- the deal would be out after a first deal, and before a replay
      cases hdelivers with
      | firstDeal _ _ _ _ _ _ _ _ hnow =>
          rw [hdeal] at hnow
          cases hnow
      | rejoin deal _ _ _ _ hsome =>
          rw [hbefore] at hsome
          cases hsome
      | resume => exact entries_promptFor _ _
      | accepted n card jx side σ' msgs hseat hpc hside hgood =>
          simp [accepts, hpc, hside, hgood] at hquiet
      | _ => rfl
  case spoken =>
    intro ix hne
    by_cases hfree : ∀ t, σ'.activeSides t ≠ some ix
    · rw [heff.chronicle_free hmirrors hbook hfree] at hne
      exact heff.spoken hbook (h.spoken ix hne)
    · obtain ⟨s, hs⟩ := not_forall_not.mp hfree
      exact (hbook'.seat s ix hs).2

/-- An accepted card is announced to everybody who has a side. -/
theorem Chronicled.move {scenario : GameScenario} {σ σ' : Server} {S S' : CardGame} {n : Nat}
    {side : Side} {card : Card} {ix : Nat} {b : Bool} (h : Chronicled σ S)
    (hmirrors : Mirrors scenario σ S) (hdealt : Dealt σ) (hbook : SeatBook σ)
    (heff : Effect σ (.playerTricked n card ix) b σ') (hpc : 4 ≤ σ.playersConnected)
    (hacc : Accepted σ side card σ')
    (hplay : S.play kierki (deals scenario) (side, card) = some S') : Chronicled σ' S' := by
  have hopen : S.closed = false := (State.play_eq_some hplay).1.1
  have hbefore : S.done.length < TRICKS_PER_ROUND := hmirrors.unfinished hopen
  have hsome : σ.lastDeal ≠ none := by
    intro hnone
    have hfew := (hdealt.first hnone).1
    omega
  -- every seat hears what the move adds to the annals of its side
  have hannounced : ∀ {s jx}, σ.activeSides s = some jx →
      Outcome S side card s σ'.game S' (received σ σ' jx) := fun {s jx} hjx =>
    (hmirrors.outcome hplay (hacc.announces (hbook.side_unique hjx))).1
  have hgrows : ∀ s i, annals S s i <+: annals S' s i := by
    intro s i
    -- the table is full, so that every side has a worker to be told
    obtain ⟨jx, hjx⟩ := hbook.full hpc s
    exact (hannounced hjx).annals_initial hopen hbefore i
  have hseats : ∀ {s jx}, σ'.activeSides s = some jx → σ.activeSides s = some jx := by
    intro s jx hjx
    rwa [hacc.sameSeats.activeSides] at hjx
  have hseated : ∀ s jx, σ'.activeSides s = some jx →
      ∃ i ≤ S.past.length, σ'.chronicle jx = annals S' s i := by
    intro s jx hjx
    obtain ⟨i, hi, heq⟩ := h.seated s jx (hseats hjx) hsome hopen
    refine ⟨i, hi, ?_⟩
    rw [heff.chronicle_eq hmirrors, heq, (hannounced (hseats hjx)).annals_eq hopen hbefore hi]
  have hpast : S.past.length ≤ S'.past.length := by
    obtain ⟨jx, hjx⟩ := hbook.full hpc side
    have houtcome := hannounced hjx
    generalize received σ σ' jx = msgs at houtcome
    cases houtcome with
    | inTrick | trickDone => exact le_rfl
    | roundDone t r S' l l' _ _ _ hS' | gameDone t S' l l' _ _ _ hS' =>
        subst hS'
        simp
  constructor
  case told =>
    intro jx
    by_cases hfree : ∀ t, σ'.activeSides t ≠ some jx
    · rw [heff.chronicle_free hmirrors hbook hfree]
      obtain ⟨s, i, hi⟩ := h.told jx
      exact ⟨s, i, hi.trans (hgrows s i)⟩
    · obtain ⟨s, hs⟩ := not_forall_not.mp hfree
      obtain ⟨i, -, heq⟩ := hseated s jx hs
      exact ⟨s, i, heq ▸ List.prefix_rfl⟩
  case seated =>
    intro s jx hs _ _
    obtain ⟨i, hi, heq⟩ := hseated s jx hs
    exact ⟨i, hi.trans hpast, heq⟩
  case lobby => exact fun hdeal => absurd (heff.lastDeal_none hdeal) hsome
  case spoken =>
    intro jx hne
    by_cases hfree : ∀ t, σ'.activeSides t ≠ some jx
    · rw [heff.chronicle_free hmirrors hbook hfree] at hne
      exact heff.spoken hbook (h.spoken jx hne)
    · obtain ⟨s, hs⟩ := not_forall_not.mp hfree
      exact ((hbook.effect heff).seat s jx hs).2

/-- The histories of all connections, beside the cards that were accepted. -/
theorem run_chronicled {scenario : GameScenario} {timeout : Int} {es : List Call} {σ : Server}
    (h : run scenario timeout es = some σ) : ∃ S, Mirrors scenario σ S ∧
      S.history = plays scenario timeout es ∧ DealKept σ S ∧ Chronicled σ S := by
  refine reference_induction
    (P := fun es σ S => S.history = plays scenario timeout es ∧ DealKept σ S ∧ Chronicled σ S)
    (fun r _ => ?_) (fun es σ e b σ' S hrun hrun' hmirrors hP heff hnone => ?_)
    (fun es σ e b σ' S S' m hrun hrun' hmirrors hP heff haccept hplay _ => ?_) h
  · have hnil : ∀ ix, (started scenario timeout r).chronicle ix = [] := fun _ => rfl
    refine ⟨by simp [plays, State.history, State.tricks, State.start],
      ⟨by simp [started, new], fun _ => rfl⟩, fun ix => ⟨.N, 0, hnil ix ▸ List.nil_prefix⟩, ?_,
      fun _ => hnil, fun ix hne => absurd (hnil ix) hne⟩
    intro s ix hs
    cases hs
  · obtain ⟨hhistory, hkept, hchron⟩ := hP
    refine ⟨by simpa [plays_concat hrun hrun', hnone] using hhistory,
      hkept.quiet hmirrors heff hnone,
      hchron.quiet hmirrors hkept (seatBook_run hrun) heff hnone⟩
  · obtain ⟨hhistory, hkept, hchron⟩ := hP
    rcases heff.accepts_cases with ⟨hnone, -⟩ |
      ⟨n, card, ix, side, rfl, haccept', hpc, -, -, hacc⟩
    · rw [hnone] at haccept
      cases haccept
    · obtain rfl : m = (side, card) := Option.some.inj (haccept.symm.trans haccept')
      have hbook := seatBook_run hrun
      obtain ⟨jx, hjx⟩ := hbook.full hpc side
      refine ⟨?_, hkept.move hmirrors (run_dealt hrun) hpc hplay
        (hacc.announces (hbook.side_unique hjx)),
        hchron.move hmirrors (run_dealt hrun) hbook heff hpc hacc hplay⟩
      rw [plays_concat hrun hrun', haccept, State.play_history hplay, hhistory, hmirrors.game.hands]
      rfl

end Server

section Cycle

variable {s : Side}

/-- The places of a round that has been played so far are a prefix of the cycle. -/
theorem roundEntries_place {r : Finished Side Card RoundType}
    (hlen : r.tricks.length ≤ TRICKS_PER_ROUND)
    (hnumbers : r.tricks.map Trick.number = List.range' 1 r.tricks.length) :
    (roundEntries s r).map Entry.place <+: cycle ∧ (r.tricks.length = TRICKS_PER_ROUND →
      (roundEntries s r).map Entry.place = cycle) := by
  have hplaces : (r.tricks.map trickEntry).map Entry.place =
      (List.range' 1 r.tricks.length).map Place.taken := by
    rw [← hnumbers, List.map_map, List.map_map]
    rfl
  by_cases hfull : r.tricks.length = TRICKS_PER_ROUND
  · have heq : (roundEntries s r).map Entry.place = cycle := by
      simp only [roundEntries, List.map_cons, List.map_append, hplaces, hfull]
      rfl
    exact ⟨heq ▸ List.prefix_rfl, fun _ => heq⟩
  · refine ⟨?_, fun h => absurd h hfull⟩
    simp only [roundEntries, if_neg hfull, List.append_nil, List.map_cons, hplaces, cycle]
    rw [List.cons_prefix_cons]
    refine ⟨rfl, ?_⟩
    have hsplit : List.range' 1 TRICKS_PER_ROUND = List.range' 1 r.tricks.length ++
        List.range' (1 + r.tricks.length) (TRICKS_PER_ROUND - r.tricks.length) := by
      rw [List.range'_append_1]
      congr 1
      omega
    rw [hsplit, List.map_append, List.append_assoc]
    exact List.prefix_append _ _

/-- Rounds one after the other, all but the last complete. -/
theorem annals_place {d : List (Deal Side Card RoundType)} {S : CardGame}
    (hsound : State.Sound kierki d S) (hgo : S.Unfinished kierki) (i : Nat) :
    ∃ k, (annals S s i).map Entry.place <+: (List.replicate k cycle).flatten := by
  -- finished rounds run through the whole cycle
  have hwhole : ∀ rs : List (Finished Side Card RoundType), rs ⊆ S.past →
      (rs.flatMap (roundEntries s)).map Entry.place = (List.replicate rs.length cycle).flatten := by
    intro rs hrs
    induction rs with
    | nil => rfl
    | cons r rs ih =>
        obtain ⟨i, hi⟩ := List.mem_iff_getElem?.mp (hrs List.mem_cons_self)
        obtain ⟨-, hlen, hcourse⟩ := hsound.past i r hi
        have hthirteen : r.tricks.length = TRICKS_PER_ROUND := hlen
        have hround := (roundEntries_place (s := s) hthirteen.le hcourse.numbers).2 hthirteen
        rw [List.flatMap_cons, List.map_append, hround,
          ih fun r' hr' => hrs (List.mem_cons_of_mem _ hr'), List.length_cons,
          List.replicate_succ, List.flatten_cons]
  by_cases hi : i ≤ S.past.length
  · cases hclosed : S.closed with
    | true =>
        refine ⟨(S.past.drop i).length, ?_⟩
        rw [annals, rounds, hclosed, if_pos rfl, List.append_nil,
          hwhole _ (List.drop_subset _ _)]
    | false =>
        -- the round in play has come some way in its cycle
        refine ⟨(S.past.drop i).length + 1, ?_⟩
        have hlen : S.done.length ≤ TRICKS_PER_ROUND := (hgo hclosed).le
        have hpresent := (roundEntries_place (s := s) (r := ⟨S.deal, S.done⟩) hlen
          hsound.course.numbers).1
        rw [annals_open hclosed s hi, List.map_append, hwhole _ (List.drop_subset _ _),
          List.replicate_succ', List.flatten_append, List.flatten_singleton]
        exact (List.prefix_append_right_inj _).mpr hpresent
  · refine ⟨0, ?_⟩
    have hnil : annals S s i = [] := by
      cases hclosed : S.closed with
      | true => exact annals_beyond s (by simp [rounds, hclosed]; omega)
      | false => exact annals_beyond s (by simp [rounds, hclosed]; omega)
    rw [hnil]
    exact List.nil_prefix

end Cycle

/-- Each round is dealt from its place in the list of deals, and its tricks follow each other. -/
theorem rounds_sound {d : List (Deal Side Card RoundType)} {S : CardGame}
    (hsound : State.Sound kierki d S) {i : Nat} {r : Finished Side Card RoundType}
    (hi : (rounds S)[i]? = some r) : d[i]? = some r.deal ∧ Course kierki 1 r.deal.leader r.tricks := by
  unfold rounds at hi
  rcases lt_or_ge i S.past.length with hlt | hge
  · rw [List.getElem?_append_left hlt] at hi
    obtain ⟨hdeal, -, hcourse⟩ := hsound.past i r hi
    exact ⟨hdeal, hcourse⟩
  · rw [List.getElem?_append_right hge] at hi
    cases hclosed : S.closed with
    | true => simp [hclosed] at hi
    | false =>
        rw [hclosed, if_neg (by simp), List.getElem?_singleton] at hi
        split at hi
        case isTrue hzero =>
            obtain rfl := Option.some.inj hi
            have hlast : i = S.past.length := by omega
            exact ⟨hlast ▸ hsound.live hclosed, hsound.course⟩
        case isFalse => cases hi

theorem rounds_getLast? {scenario : GameScenario} {σ : Server} {S : CardGame}
    (h : Mirrors scenario σ S) : (rounds S).getLast? = some ⟨S.deal, S.done⟩ := by
  unfold rounds
  cases hclosed : S.closed with
  | true =>
      obtain ⟨-, -, -, before, hpast⟩ := h.sound.ended hclosed
      simp [hpast]
  | false => simp

namespace Server

/-- **Every connection sees a complete, ordered history.**  The accepted cards of a run are cut into
rounds and tricks; each round is one of the scenario.  What a connection is told, wherever it comes
from, is a prefix of what its side is told from some round on, hence a prefix of the cycle `DEAL`,
`TAKEN 1` to `TAKEN 13`, `SCORE`, `TOTAL`; while the game goes on, a seated connection has been told all
of it.  A connection that sits down has been told nothing, and is told the deal of the present round and
all its tricks so far, or nothing while there is no deal yet. -/
theorem ordered_history {scenario : GameScenario} {timeout : Int} {es : List Call} {σ : Server}
    (h : run scenario timeout es = some σ) :
    ∃ (rounds : List (Finished Side Card RoundType)) (rest : List (Play Side Card)),
      (rounds.flatMap fun r => r.tricks.flatMap Trick.plays) ++ rest = plays scenario timeout es ∧
      (∀ (i : Nat) (r : Finished Side Card RoundType), rounds[i]? = some r →
        ∃ d, scenario[i]? = some d ∧ r.deal = d.toDeal ∧ Course kierki 1 d.starting r.tricks) ∧
      (∀ ix, ∃ s i k, σ.chronicle ix <+: (rounds.drop i).flatMap (roundEntries s) ∧
        (σ.chronicle ix).map Entry.place <+: (List.replicate k cycle).flatten) ∧
      (∀ s ix, σ.activeSides s = some ix → σ.lastDeal ≠ none →
        σ.game.roundNumber < scenario.length →
        ∃ i < rounds.length, σ.chronicle ix = (rounds.drop i).flatMap (roundEntries s)) ∧
      ∀ e σ' s ix, σ.step e = some σ' → σ.activeSides s = none → σ'.activeSides s = some ix →
        σ.chronicle ix = [] ∧ (σ'.lastDeal = none ∧ σ'.chronicle ix = [] ∨
          ∃ r, rounds.getLast? = some r ∧ σ'.chronicle ix =
            .deal r.deal.mode (r.deal.hands s) :: r.tricks.map trickEntry) := by
  obtain ⟨S, hmirrors, hhistory, hkept, hchron⟩ := run_chronicled h
  have hbook := seatBook_run h
  refine ⟨rounds S, S.plays, ?_, ?_, fun ix => ?_, fun s ix hs hdeal hnumber => ?_, ?_⟩
  · rw [← hhistory, State.history, State.tricks, rounds]
    cases S.closed <;> simp [List.flatMap_assoc]
  · intro i r hi
    obtain ⟨d, hd, hdeal⟩ := deals_getElem?_eq_some.mp (rounds_sound hmirrors.sound hi).1
    refine ⟨d, hd, hdeal.symm, ?_⟩
    have hleader : r.deal.leader = d.starting := by rw [← hdeal]; rfl
    rw [← hleader]
    exact (rounds_sound hmirrors.sound hi).2
  · obtain ⟨s, i, hi⟩ := hchron.told ix
    obtain ⟨k, hk⟩ := annals_place (s := s) hmirrors.sound hmirrors.unfinished i
    exact ⟨s, i, k, hi, (hi.map Entry.place).trans hk⟩
  · have hopen : S.closed = false := by
      -- while rounds are left, one is in play
      obtain ⟨d, hd⟩ : ∃ d, scenario[σ.game.roundNumber]? = some d :=
        ⟨_, List.getElem?_eq_getElem hnumber⟩
      exact (hmirrors.round hd).1
    obtain ⟨i, hi, heq⟩ := hchron.seated s ix hs hdeal hopen
    refine ⟨i, ?_, heq⟩
    simp [rounds, hopen]
    omega
  · intro e σ' s ix hstep hfree hseat'
    obtain ⟨b, heff⟩ := step_effect hstep
    have hdelivers := heff.delivers hbook hseat'
    have htold := heff.chronicle_eq hmirrors ix
    rcases heff.accepts_cases with ⟨hnone, -⟩ | ⟨n, card, jx, side, rfl, -, -, -, -, hacc⟩
    · -- the call seats somebody, and so accepts no card
      rcases hdelivers.told hmirrors hkept hchron hnone with ⟨hnil, ⟨hseat, -⟩ | ⟨hold, hdeal⟩⟩ |
        ⟨hold, hnew⟩
      · rw [hfree] at hseat
        cases hseat
      · exact ⟨hold, .inl ⟨hdeal, by rw [htold, hold, hnil]; rfl⟩⟩
      · refine ⟨hold, .inr ⟨⟨S.deal, S.done⟩, rounds_getLast? hmirrors, ?_⟩⟩
        rw [htold, hold, hnew]
        rfl
    · rw [hacc.sameSeats.activeSides, hfree] at hseat'
      cases hseat'

theorem ordered_history_comesBack :
    ∃ σ, run [suitRound] 5 comesBack = some σ ∧
      (σ.chronicle 5).map Entry.place = [.deal, .taken 1] ∧
      ∃ k, (σ.chronicle 5).map Entry.place <+: (List.replicate k cycle).flatten := by
  have hfacts : (run [suitRound] 5 comesBack).map (fun σ => (σ.chronicle 5).map Entry.place) =
      some [.deal, .taken 1] := by
    decide +kernel
  obtain ⟨σ, hσ, hplaces⟩ := Option.map_eq_some_iff.mp hfacts
  obtain ⟨_, _, -, -, htold, -, -⟩ := ordered_history hσ
  obtain ⟨s, i, k, -, hk⟩ := htold 5
  exact ⟨σ, hσ, hplaces, k, hk⟩

end Server

end Kierki
