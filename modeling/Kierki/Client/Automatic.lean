import Kierki.Client.Consistency

/-!
# The automatic player

`PlayerAuto` answers a `TRICK` if its number is at least `nextTrick`.  `Owes` says of the player of a side what
is on its way: nothing that it will answer; a prompt for the present trick, with nothing but copies of it
behind; or the answer.  Every step of a session keeps this, so that no card of the player is refused and one
card is taken up for each trick, however often the prompt is sent again.

A player that sits down in mid-round strikes the cards of the tricks out of the deal of its side.  When other
sides were dealt copies of its cards it loses these, and may break the rule to follow suit.
-/

namespace Kierki

open TrickGame Execution

namespace PlayerAuto

/-- `nextTrick` behind a message. -/
def expects (k : Nat) : SendJob → Nat
  | .deal _ _ _ => 1
  | .trick _ n => max k (n + 1)
  | .taken _ _ n => n + 1
  | .wrong n => n
  | .score _ | .total _ | .busy _ | .intro _ => k

/-- `nextTrick` behind some messages. -/
def expectsAll (k : Nat) (msgs : List SendJob) : Nat := msgs.foldl expects k

/-- None of the messages is answered. -/
def Deaf : Nat → List SendJob → Prop
  | _, [] => True
  | k, msg :: msgs => (∀ t n, msg = .trick t n → n < k) ∧ Deaf (expects k msg) msgs

theorem expectsAll_append (k : Nat) (msgs msgs' : List SendJob) :
    expectsAll k (msgs ++ msgs') = expectsAll (expectsAll k msgs) msgs' := List.foldl_append

theorem deaf_append {k : Nat} {msgs msgs' : List SendJob} :
    Deaf k (msgs ++ msgs') ↔ Deaf k msgs ∧ Deaf (expectsAll k msgs) msgs' := by
  induction msgs generalizing k with
  | nil => simp [Deaf, expectsAll]
  | cons msg msgs ih => simp [Deaf, ih, expectsAll, and_assoc]

/-- Without a prompt there is nothing to answer. -/
theorem deaf_of_quiet {k : Nat} {msgs : List SendJob} (h : ∀ msg ∈ msgs, msg.kind ≠ .trickS) : Deaf k msgs := by
  induction msgs generalizing k with
  | nil => trivial
  | cons msg msgs ih =>
      refine ⟨?_, ih fun m hm => h m (List.mem_cons_of_mem _ hm)⟩
      rintro t n rfl
      exact absurd rfl (h _ List.mem_cons_self)

/-- A prompt that was answered once is not answered again. -/
theorem deaf_copies {k n : Nat} {t : Table} {msgs : List SendJob} (hcopies : ∀ msg ∈ msgs, msg = .trick t n)
    (hk : k = n + 1) : Deaf k msgs ∧ expectsAll k msgs = n + 1 := by
  subst hk
  induction msgs with
  | nil => exact ⟨trivial, rfl⟩
  | cons msg msgs ih =>
      obtain rfl := hcopies msg List.mem_cons_self
      have hsame : expects (n + 1) (.trick t n) = n + 1 := max_self _
      obtain ⟨hdeaf, hnext⟩ := ih fun m hm => hcopies m (List.mem_cons_of_mem _ hm)
      refine ⟨⟨?_, hsame.symm ▸ hdeaf⟩, ?_⟩
      · rintro t' n' heq
        obtain ⟨-, rfl⟩ := SendJob.trick.inj heq
        exact Nat.lt_succ_self _
      · show expectsAll (expects (n + 1) (.trick t n)) msgs = n + 1
        rw [hsame]
        exact hnext

/-- The tricks of a round, one after the other. -/
theorem expectsAll_taken {k n : Nat} {ts : List (Trick Side Card)}
    (hnumbers : ts.map Trick.number = List.range' n ts.length) (hk : k = n) :
    expectsAll k (ts.map Kierki.takenMsg) = n + ts.length := by
  subst hk
  induction ts generalizing k with
  | nil => rfl
  | cons t ts ih =>
      rw [List.map_cons, List.length_cons, List.range'_succ] at hnumbers
      obtain ⟨hfirst, hrest⟩ := List.cons.inj hnumbers
      have hnext : expects k (Kierki.takenMsg t) = k + 1 := congrArg (· + 1) hfirst
      show expectsAll (expects k (Kierki.takenMsg t)) (ts.map Kierki.takenMsg) = _
      rw [hnext, ih hrest, List.length_cons]
      omega

end PlayerAuto

open PlayerAuto

/-- **A message to the automatic player**: it answers a prompt that is not behind the trick it expects, and
follows suit. -/
theorem Client.recv_auto {c c' : Client PlayerAuto} {msg : SendJob} {out : List (Nat × Card)}
    (h : c.recv msg = .ok (c', out)) :
    c'.player.nextTrick = expects c.player.nextTrick msg ∧
      ((out = [] ∧ ∀ t n, msg = .trick t n → n < c.player.nextTrick) ∨
        ∃ t n card, msg = .trick t n ∧ c.player.nextTrick ≤ n ∧ out = [(n, card)] ∧ card ∈ c.player.hand ∧
          ∀ first ∈ t.head?, card.col = first.col ∨ ∀ d ∈ c.player.hand, d.col ≠ first.col) := by
  unfold recv at h
  split at h
  swap
  · cases h
  cases msg with
  | trick t n =>
      obtain ⟨⟨player, put⟩, hplayer, h⟩ := Fallible.bind_eq_ok.mp h
      change c.player.trickMsg n t = .ok (player, put) at hplayer
      unfold trickMsg at hplayer
      -- a prompt for a trick that the player has answered already is passed over
      by_cases hold : n < c.player.nextTrick
      · rw [if_pos hold] at hplayer
        cases hplayer
        cases h
        refine ⟨(max_eq_left hold).symm, .inl ⟨rfl, ?_⟩⟩
        rintro t' n' ⟨⟩
        exact hold
      · rw [if_neg hold] at hplayer
        -- an empty hand is a fault of `nextMove`, so that a prompt that is taken up finds a card
        have hne : c.player.hand ≠ [] := by
          intro hnil
          rw [hnil] at hplayer
          cases t <;> cases hplayer
        obtain ⟨card, hand', hmove, hcards, hfollow⟩ := Strategy.nextMove_spec hne t
        rw [hmove] at hplayer
        cases hplayer
        cases h
        refine ⟨(max_eq_right (by omega : c.player.nextTrick ≤ n + 1)).symm, .inr ?_⟩
        have hmem : card ∈ (c.player.hand : Multiset Card) := hcards ▸ Multiset.mem_cons_self card _
        exact ⟨t, n, card, rfl, by omega, rfl, hmem, hfollow⟩
  | wrong n =>
      cases h
      refine ⟨?_, .inl ⟨rfl, by rintro t n ⟨⟩⟩⟩
      show (c.player.wrongMsg n).nextTrick = n
      unfold wrongMsg
      cases c.player.lastCards <;> rfl
  | taken cards s n =>
      cases h
      refine ⟨?_, .inl ⟨rfl, by rintro t n ⟨⟩⟩⟩
      show (c.player.takenMsg s cards n _).nextTrick = n + 1
      unfold PlayerAuto.takenMsg
      split <;> rfl
  | score res | total res | deal type starting hand | busy taken | intro s =>
      cases h
      exact ⟨rfl, .inl ⟨rfl, by rintro t n ⟨⟩⟩⟩

/-- What is on the way from and to the automatic player of side `s`, which expects the trick `k`. -/
inductive Owes (g : Game) (s : Side) (k : Nat) (msgs : List SendJob) (up : List (Nat × Card)) : Prop
  | nothing (hdeaf : Deaf k msgs) (hnext : g.laid s = [] → expectsAll k msgs ≤ g.trickNo) (hup : up = [])
  | answer (before copies : List SendJob) (hturn : g.nextMove = s) (hmsgs : msgs = before ++ g.msgTrick :: copies)
      (hdeaf : Deaf k before) (hnext : expectsAll k before ≤ g.trickNo)
      (hcopies : ∀ msg ∈ copies, msg = g.msgTrick) (hup : up = [])
  | answered (card : Card) (hturn : g.nextMove = s) (hdeaf : Deaf k msgs)
      (hnext : expectsAll k msgs = g.trickNo + 1) (hup : up = [(g.trickNo, card)])
      (hlegal : GameRules.isMoveLegal s card g.hands g.table = true)

section Owes

variable {g : Game} {s : Side} {k : Nat} {msgs : List SendJob} {up : List (Nat × Card)}

/-- One more prompt, if it is the turn of the side. -/
theorem Owes.prompt (h : Owes g s k msgs up) (hlaid : g.nextMove = s → g.laid s = []) :
    Owes g s k (msgs ++ Server.promptFor g s) up := by
  unfold Server.promptFor
  by_cases hturn : g.nextMove = s
  swap
  · rw [if_neg hturn, List.append_nil]
    exact h
  rw [if_pos hturn]
  cases h with
  | nothing hdeaf hnext hup => exact .answer msgs [] hturn rfl hdeaf (hnext (hlaid hturn)) (by simp) hup
  | answer before copies _ hmsgs hdeaf hnext hcopies hup =>
      refine .answer before (copies ++ [g.msgTrick]) hturn (by simp [hmsgs]) hdeaf hnext ?_ hup
      intro msg hmsg
      rcases List.mem_append.mp hmsg with hold | hnew
      · exact hcopies msg hold
      · exact List.mem_singleton.mp hnew
  | answered card _ hdeaf hnext hup hlegal =>
      -- the player has answered this one
      have hcopy : ∀ msg ∈ [g.msgTrick], msg = .trick g.table g.trickNo := by simp [Game.msgTrick]
      obtain ⟨hdeaf', hnext'⟩ := deaf_copies hcopy hnext
      refine .answered card hturn (deaf_append.mpr ⟨hdeaf, hdeaf'⟩) ?_ hup hlegal
      rw [expectsAll_append]
      exact hnext'

/-- What the server takes up is the answer to its prompt. -/
theorem Owes.offered {n : Nat} {card : Card} {rest : List (Nat × Card)} (h : Owes g s k msgs ((n, card) :: rest)) :
    rest = [] ∧ n = g.trickNo ∧ g.nextMove = s ∧ GameRules.isMoveLegal s card g.hands g.table = true ∧
      Deaf k msgs ∧ expectsAll k msgs = g.trickNo + 1 := by
  cases h with
  | nothing _ _ hup | answer _ _ _ _ _ _ _ hup => cases hup
  | answered card' hturn hdeaf hnext hup hlegal =>
      obtain ⟨hfirst, rfl⟩ := List.cons.inj hup
      obtain ⟨rfl, rfl⟩ := Prod.mk.inj hfirst
      exact ⟨rfl, rfl, hturn, hlegal, hdeaf, hnext⟩

/-- While another side is to move, there is nothing to answer. -/
theorem Owes.of_ne (h : Owes g s k msgs up) (hturn : g.nextMove ≠ s) :
    Deaf k msgs ∧ (g.laid s = [] → expectsAll k msgs ≤ g.trickNo) ∧ up = [] := by
  cases h with
  | nothing hdeaf hnext hup => exact ⟨hdeaf, hnext, hup⟩
  | answer _ _ hmine | answered _ hmine => exact absurd hmine hturn

/-- **The player processes a message**: it answers the first prompt for the present trick, and this one only. -/
theorem Owes.receive {c c' : Client PlayerAuto} {msg : SendJob} {out : List (Nat × Card)}
    (h : Owes g s c.player.nextTrick (msg :: msgs) up) (hrecv : c.recv msg = .ok (c', out))
    (hhand : g.nextMove = s → msg = g.msgTrick → (∀ m ∈ msgs, m = g.msgTrick) → up = [] →
      ∀ card, card ∈ c.player.hand ↔ card ∈ g.hands s) :
    Owes g s c'.player.nextTrick msgs (up ++ out) := by
  obtain ⟨hnextTrick, hput⟩ := Client.recv_auto hrecv
  -- a message that is not answered
  have hsilent : (∀ t n, msg = .trick t n → n < c.player.nextTrick) → out = [] := by
    intro hdeaf
    rcases hput with ⟨hout, -⟩ | ⟨t, n, card, hmsg, hle, -⟩
    · exact hout
    · exact absurd (hdeaf t n hmsg) (by omega)
  rw [hnextTrick]
  cases h with
  | nothing hdeaf hnext hup =>
      rw [hsilent hdeaf.1, List.append_nil]
      exact .nothing hdeaf.2 hnext hup
  | answered card hturn hdeaf hnext hup hlegal =>
      rw [hsilent hdeaf.1, List.append_nil]
      exact .answered card hturn hdeaf.2 hnext hup hlegal
  | answer before copies hturn hmsgs hdeaf hnext hcopies hup =>
      cases before with
      | cons first before =>
          obtain ⟨rfl, rfl⟩ := List.cons.inj hmsgs
          rw [hsilent hdeaf.1, List.append_nil]
          exact .answer before copies hturn rfl hdeaf.2 hnext hcopies hup
      | nil =>
          obtain ⟨rfl, rfl⟩ := List.cons.inj hmsgs
          rcases hput with ⟨-, hold⟩ | ⟨t, n, card, hmsg, -, rfl, hmem, hfollow⟩
          · have hbehind := hold g.table g.trickNo rfl
            have hahead : c.player.nextTrick ≤ g.trickNo := hnext
            omega
          obtain ⟨rfl, rfl⟩ := SendJob.trick.inj hmsg
          have hcards := hhand hturn rfl hcopies hup
          have hk : expects c.player.nextTrick g.msgTrick = g.trickNo + 1 := by
            show max c.player.nextTrick (g.trickNo + 1) = g.trickNo + 1
            exact max_eq_right (Nat.le_succ_of_le hnext)
          obtain ⟨hdeaf', hnext'⟩ := deaf_copies (k := expects c.player.nextTrick g.msgTrick) hcopies hk
          refine .answered card hturn hdeaf' hnext' (by rw [hup]; rfl) ?_
          rw [GameRules.isMoveLegal_iff]
          refine ⟨(hcards card).mp hmem, fun first hfirst => ?_⟩
          exact (hfollow first hfirst).imp_right fun hnone d hd => hnone d ((hcards d).mpr hd)

end Owes

section Server

variable {scenario : GameScenario} {σ σ' : Server} {S S' : CardGame} {side s : Side} {card : Card} {k : Nat}
  {msgs news : List SendJob}

/-- The next trick is the one behind those that are done. -/
theorem collect_number {t : Trick Side Card} (h : ((S.put side card).collect kierki).done = S.done ++ [t]) :
    t.number = S.done.length + 1 := by
  have hlast := List.append_cancel_left (h : S.done ++ _ = S.done ++ [t])
  rw [← List.singleton_injective hlast]
  rfl

/-- The turn is with a side that has nothing on the table. -/
theorem Mirrors.laid_nextMove (h : Mirrors scenario σ S) (hturn : σ.game.nextMove = s) : σ.game.laid s = [] := by
  rw [h.laid s, ← hturn, h.game.nextMove]
  exact h.sound.laid_turn

/-- **A card is accepted**, and the side owes nothing but what it is told behind it. -/
theorem Mirrors.owes (h' : Mirrors scenario σ' S') (hout : Outcome S side card s σ'.game S' news)
    (hdeaf : Deaf k msgs) (hnext : (S.put side card).laid s = [] → expectsAll k msgs ≤ S.done.length + 1) :
    Owes σ'.game s k (msgs ++ news) [] := by
  have hlaid := h'.laid_nextMove (s := s)
  have hno : σ'.game.trickNo = S'.done.length + 1 := h'.game.trickNo
  cases hout with
  | inTrick hshort =>
      have hidle : Owes σ'.game s k msgs [] := by
        refine .nothing hdeaf (fun hnone => ?_) rfl
        rw [h'.laid s] at hnone
        rw [hno]
        exact hnext hnone
      exact hidle.prompt hlaid
  | trickDone t hfull hmore ht =>
      have hidle : Owes σ'.game s k (msgs ++ [takenMsg t]) [] := by
        refine .nothing (deaf_append.mpr ⟨hdeaf, deaf_of_quiet (by simp [takenMsg, SendJob.kind])⟩) (fun _ => ?_) rfl
        rw [expectsAll_append, hno, ht, List.length_append]
        show t.number + 1 ≤ _
        rw [collect_number ht]
        exact le_rfl
      simpa using hidle.prompt hlaid
  | roundDone t r S' l l' hfull hlast ht hS' =>
      have hidle : Owes σ'.game s k (msgs ++ [takenMsg t, .score l, .total l', .deal r.mode r.starting (r.deal s)]) [] := by
        refine .nothing (deaf_append.mpr ⟨hdeaf, deaf_of_quiet (by simp [takenMsg, SendJob.kind])⟩) (fun _ => ?_) rfl
        rw [expectsAll_append, hno]
        exact Nat.le_add_left 1 _
      simpa using hidle.prompt hlaid
  | gameDone t S'' l l' hfull hlast ht hS' =>
      refine .nothing (deaf_append.mpr ⟨hdeaf, deaf_of_quiet (by simp [takenMsg, SendJob.kind])⟩) (fun _ => ?_) rfl
      rw [expectsAll_append, hno, hS']
      show t.number + 1 ≤ ((S.put side card).collect kierki).done.length + 1
      rw [ht, List.length_append, collect_number ht]
      exact le_rfl

/-- What a player is told of a round that is under way. -/
theorem Standing.owes_told (h : Standing scenario σ S) (k : Nat) (cards : Hand) :
    Owes σ.game s k (σ.game.msgDeal cards :: σ.game.takenInRound) [] := by
  have htaken : σ.game.takenInRound = S.done.map takenMsg := h.mirrors.game.takenInRound
  refine .nothing (deaf_of_quiet fun msg hmsg => ?_) (fun _ => ?_) rfl
  · rcases List.mem_cons.mp hmsg with rfl | hmem
    · simp [Game.msgDeal, SendJob.kind]
    · rw [htaken] at hmem
      obtain ⟨t, -, rfl⟩ := List.mem_map.mp hmem
      simp [takenMsg, SendJob.kind]
  · rw [htaken, h.mirrors.game.trickNo, Nat.add_comm]
    exact (expectsAll_taken h.mirrors.sound.course.numbers rfl).le

end Server

namespace Session

/-- A client comes to side `s` when a deal is out. -/
def Rejoins {α : Type} (s : Side) (W : Session α) : Event → Prop
  | .call (.playerIntro side ix) => side = s ∧ W.server.lastDeal.isSome = true ∧ W.server.activeSides s = none ∧
      W.server.workerMgr.roles.find? ix = some .servingUnknown
  | _ => False

/-- The automatic player is up to date and misses no card. -/
structure UpToDate (scenario : GameScenario) (s : Side) (W : Session PlayerAuto) : Prop where
  inTime : ∀ L, W.link = some L → L.crossed = false
  deck : ∀ L, W.link = some L → L.late = true → ∀ r ∈ scenario, r.SplitsDeck
  owes : ∀ L, W.link = some L → Owes W.server.game s L.client.player.nextTrick (L.down.map Prod.fst) L.up

section Steps

variable {scenario : GameScenario} {s : Side} {W : Session PlayerAuto} {S S' : CardGame} {e : Server.Call}
  {b : Bool} {σ' : Server} {L : Link PlayerAuto}

theorem map_parcels (s : Side) (σ : Server) (e : Server.Call) (σ' : Server) (ix : Nat) :
    (parcels s σ e σ' ix).map Prod.fst = Server.received σ σ' ix := by
  rw [parcels, List.map_map]
  exact List.map_id _

/-- The server takes up nothing but the answer to its prompt. -/
theorem UpToDate.takesUp (h : W.UpToDate scenario s) (hallows : W.Allows s e) (htakes : TakesUp s W.server e) :
    ∃ n card ix L, e = .playerTricked n card ix ∧ W.link = some L ∧ L.up = [(n, card)] ∧
      W.server.admits n card s ∧ Deaf L.client.player.nextTrick (L.down.map Prod.fst) ∧
      expectsAll L.client.player.nextTrick (L.down.map Prod.fst) = W.server.game.trickNo + 1 := by
  cases e with
  | playerTricked n card ix =>
      cases hlink : W.link with
      | none =>
          have hhead := hallows htakes.2
          rw [hlink] at hhead
          cases hhead
      | some L =>
          obtain ⟨-, rest, hup⟩ := hallows.offered htakes.2 hlink
          have howes := h.owes L hlink
          rw [hup] at howes
          obtain ⟨rfl, rfl, hturn, hlegal, hdeaf, hnext⟩ := howes.offered
          exact ⟨_, card, ix, L, rfl, rfl, hup, ⟨rfl, hturn, hlegal⟩, hdeaf, hnext⟩
  | _ => exact htakes.elim

/-- A call that accepts nothing takes up nothing. -/
theorem UpToDate.quiet (h : W.UpToDate scenario s) (hallows : W.Allows s e) (hnone : W.server.accepts e = none) :
    ¬ TakesUp s W.server e := by
  intro htakes
  obtain ⟨n, card, ix, L, rfl, -, -, hgood, -⟩ := h.takesUp hallows htakes
  obtain ⟨hpc, hside⟩ := htakes
  simp [Server.accepts, hpc, hside, hgood] at hnone

/-- **A call that accepts nothing**, with a player that stays. -/
theorem UpToDate.stay (h : W.UpToDate scenario s) (hcons : W.Consistent scenario s S)
    (hstand : Standing scenario W.server S) (heff : Server.Effect W.server e b σ')
    (hallows : W.Allows s e) (hnone : W.server.accepts e = none) (hL : W.link = some L)
    (hseat' : σ'.activeSides s = some L.worker) :
    Owes σ'.game s L.client.player.nextTrick (L.down.map Prod.fst ++ Server.received W.server σ' L.worker) L.up := by
  have hseat := hcons.seated hL
  have howes := h.owes L hL
  have hlaid := hstand.mirrors.laid_nextMove (s := s)
  have hdeals := heff.delivers hstand.book hseat'
  generalize Server.received W.server σ' L.worker = msgs at hdeals
  cases hdeals with
  | quiet e σ' _ _ hgame =>
      rw [hgame, List.append_nil]
      exact howes
  | lobby σ' hfree | rejoin deal σ' hfree =>
      rw [hseat] at hfree
      cases hfree
  | firstDeal side jx σ' hrole hfree hpc hgame hold =>
      -- nothing was on its way before
      obtain ⟨hdown, hup, -⟩ := (hcons.sound L hL (h.inTime L hL)).lobby hold
      have htaken : W.server.game.takenInRound = [] := by
        rw [hstand.mirrors.game.takenInRound, hstand.kept.fresh hold]
        rfl
      have htold := hstand.owes_told (s := s) L.client.player.nextTrick (W.server.game.hands s)
      rw [htaken] at htold
      rw [hgame, hdown, hup]
      exact htold.prompt hlaid
  | resume side jx deal σ' _ _ _ _ _ hgame =>
      rw [hgame]
      exact howes.prompt hlaid
  | wrong n card jx σ' _ hpc hside => exact absurd ⟨hpc, hside⟩ (h.quiet hallows hnone)
  | timeout σ' _ _ _ hturn hgame =>
      have hprompt : Server.promptFor W.server.game s = [W.server.game.msgTrick] := if_pos hturn
      rw [hgame, ← hprompt]
      exact howes.prompt hlaid
  | accepted n card jx side σ' msgs _ hpc hside hgood => simp [Server.accepts, hpc, hside, hgood] at hnone

/-- **A player sits down.** -/
theorem owes_new (hstand : Standing scenario W.server S) (heff : Server.Effect W.server e b σ')
    {ix : Nat} (hfree : W.server.activeSides s = none) (hseat' : σ'.activeSides s = some ix) :
    Owes σ'.game s 0 (Server.received W.server σ' ix) [] ∧ (W.server.lastDeal.isSome = true → W.Rejoins s (.call e)) := by
  have hlaid := hstand.mirrors.laid_nextMove (s := s)
  have hdeals := heff.delivers hstand.book hseat'
  generalize Server.received W.server σ' ix = msgs at hdeals
  cases hdeals with
  | quiet _ _ hseat | resume _ _ _ _ _ hseat | wrong _ _ _ _ hseat | timeout _ hseat | accepted _ _ _ _ _ _ hseat =>
      rw [hfree] at hseat
      cases hseat
  | lobby σ' _ _ _ _ hold =>
      refine ⟨.nothing trivial (fun _ => Nat.zero_le _) rfl, fun hsome => ?_⟩
      simp [hold] at hsome
  | firstDeal side jx σ' _ _ _ hgame hold =>
      have htaken : W.server.game.takenInRound = [] := by
        rw [hstand.mirrors.game.takenInRound, hstand.kept.fresh hold]
        rfl
      have htold := hstand.owes_told (s := s) 0 (W.server.game.hands s)
      rw [htaken] at htold
      refine ⟨?_, fun hsome => by simp [hold] at hsome⟩
      rw [hgame]
      exact htold.prompt hlaid
  | rejoin deal σ' _ hrole hgame hold =>
      refine ⟨?_, fun hsome => ⟨rfl, hsome, hfree, hrole⟩⟩
      have htold := hstand.owes_told (s := s) 0 (deal s)
      rw [hgame, ← List.cons_append]
      by_cases hpc : W.server.playersConnected + 1 = 4
      · rw [if_pos hpc]
        exact htold.prompt hlaid
      · rw [if_neg hpc, List.append_nil]
        exact htold

/-- **A call**, once it is known what the player that stays is told. -/
theorem UpToDate.relink (h : W.UpToDate scenario s) (hcons : W.Consistent scenario s S)
    (hstand : Standing scenario W.server S) (heff : Server.Effect W.server e b σ')
    (hrejoin : W.Rejoins s (.call e) → ∀ r ∈ scenario, r.SplitsDeck)
    (hcrossed : TakesUp s W.server e → W.server.game.laid s = [])
    (hstay : ∀ L, W.link = some L → W.server.activeSides s = some L.worker → σ'.activeSides s = some L.worker →
      Owes σ'.game s L.client.player.nextTrick (L.down.map Prod.fst ++ Server.received W.server σ' L.worker)
        (if TakesUp s W.server e then L.up.tail else L.up)) :
    Session.UpToDate scenario s ⟨σ', W.relink PlayerAuto.new s e σ'⟩ := by
  unfold Session.relink
  cases hseat' : σ'.activeSides s with
  | none => constructor <;> rintro L ⟨⟩
  | some ix =>
      cases hlink : W.link with
      | none =>
          have hfree : W.server.activeSides s = none := by
            rw [Option.eq_none_iff_forall_ne_some]
            intro jx hjx
            obtain ⟨L, hL, -⟩ := (hcons.seat jx).mp hjx
            rw [hlink] at hL
            cases hL
          -- nobody had the side: the client is new and owes what it is told on sitting down
          obtain ⟨howes, hlate⟩ := owes_new hstand heff hfree hseat'
          constructor
          · rintro _ ⟨⟩
            rfl
          · rintro _ ⟨⟩ hdealt
            exact hrejoin (hlate hdealt)
          · rintro _ ⟨⟩
            show Owes σ'.game s 0 ((parcels s W.server e σ' ix).map Prod.fst) []
            rw [map_parcels]
            exact howes
      | some L =>
          have hseat := hcons.seated hlink
          -- the side keeps its worker, and the link its client
          obtain rfl : L.worker = ix := (heff.delivers hstand.book hseat').same_worker hseat
          constructor
          · rintro _ ⟨⟩
            show (L.crossed || decide (TakesUp s W.server e ∧ W.server.game.laid s ≠ [])) = false
            rw [h.inTime L hlink, Bool.false_or, decide_eq_false_iff_not]
            rintro ⟨htakes, hlaid⟩
            exact hlaid (hcrossed htakes)
          · rintro _ ⟨⟩
            exact h.deck L hlink
          · rintro _ ⟨⟩
            show Owes σ'.game s L.client.player.nextTrick
              ((L.down ++ parcels s W.server e σ' L.worker).map Prod.fst) _
            rw [List.map_append, map_parcels]
            exact hstay L hlink hseat hseat'

/-- **A card is accepted.** -/
theorem UpToDate.move {n : Nat} {card : Card} {ix : Nat} {side : Side} (h : W.UpToDate scenario s)
    (hallows : W.Allows s (.playerTricked n card ix)) (hstand : Standing scenario W.server S)
    (hstand' : Standing scenario σ' S') (hpc : 4 ≤ W.server.playersConnected)
    (hside : W.server.sideOf ix = some side) (hgood : W.server.admits n card side)
    (hacc : Server.Accepted W.server side card σ')
    (hplay : S.play kierki (deals scenario) (side, card) = some S') (hL : W.link = some L)
    (hseat : W.server.activeSides s = some L.worker) :
    Owes σ'.game s L.client.player.nextTrick (L.down.map Prod.fst ++ Server.received W.server σ' L.worker)
      (if TakesUp s W.server (.playerTricked n card ix) then L.up.tail else L.up) := by
  have hout := (hstand.mirrors.outcome hplay (hacc.announces (hstand.book.side_unique hseat))).1
  by_cases hmine : side = s
  · -- the answer of the player
    subst hmine
    have htakes : TakesUp side W.server (.playerTricked n card ix) := ⟨hpc, hside⟩
    obtain ⟨_, _, _, L', he, hL', hup, -, hdeaf, -⟩ := h.takesUp hallows htakes
    obtain rfl := Option.some.inj (hL.symm.trans hL')
    rw [if_pos htakes, hup]
    refine hstand'.mirrors.owes hout hdeaf fun hnone => ?_
    rw [State.laid_put, if_pos rfl] at hnone
    simp at hnone
  · have hother : ¬ TakesUp s W.server (.playerTricked n card ix) := fun htakes =>
      hmine (Option.some.inj (hside.symm.trans htakes.2))
    obtain ⟨hdeaf, hnext, hup⟩ := (h.owes L hL).of_ne fun hturn => hmine (hgood.2.1.symm.trans hturn)
    rw [if_neg hother, hup]
    refine hstand'.mirrors.owes hout hdeaf fun hnone => ?_
    rw [State.laid_put, if_neg hmine, List.append_nil, ← hstand.mirrors.laid s] at hnone
    rw [← hstand.mirrors.game.trickNo]
    exact hnext hnone

/-- Prompts leave the ledger as it is. -/
theorem hearAll_prompts {p : GameStage × Ledger} {qs : List Parcel} (h : ∀ q ∈ qs, ∃ t n, q.1 = .trick t n) :
    (Ledger.hearAll p qs).2 = p.2 := by
  induction qs generalizing p with
  | nil => rfl
  | cons q qs ih =>
      obtain ⟨t, n, hq⟩ := h q List.mem_cons_self
      rw [Ledger.hearAll_cons, ih fun q' hq' => h q' (List.mem_cons_of_mem _ hq'), hq]
      rfl

/-- With nothing but prompts on the way, the player has the hand of its side. -/
theorem UpToDate.hand_eq (h : W.UpToDate scenario s) (hcons : W.Consistent scenario s S) (hL : W.link = some L)
    (hsome : L.down ≠ []) (hprompts : ∀ q ∈ L.down, ∃ t n, q.1 = .trick t n) (hup : L.up = [])
    (hlaid : S.laid s = []) : (L.client.player.hand : Multiset Card) = (S.hands s : Multiset Card) := by
  have hsound := hcons.sound L hL (h.inTime L hL)
  have hdealt : W.server.lastDeal ≠ none := fun hnone => hsome (hsound.lobby hnone).1
  have hahead : L.ahead.2 = L.client.ledger := hearAll_prompts hprompts
  show L.client.ledger.hand = _
  rw [← hahead]
  cases hsound.tally hdealt with
  | catchingUp lost hlost _ _ _ hsum =>
      rw [hlost (.inl (h.deck L hL)), hlaid] at hsum
      simpa using hsum
  | inStep lost hlost _ _ hsum =>
      rw [hlost (.inl (h.deck L hL)), Link.sent, hup] at hsum
      simpa using hsum

/-- **The player processes a message.** -/
theorem UpToDate.receive {msg : SendJob} {cause : Option Cause} {down : List Parcel} {client : Client PlayerAuto}
    {out : List (Nat × Card)} (h : W.UpToDate scenario s) (hcons : W.Consistent scenario s S)
    (hstand : Standing scenario W.server S) (hL : W.link = some L) (hdown : L.down = (msg, cause) :: down)
    (hrecv : L.client.recv msg = .ok (client, out)) :
    Owes W.server.game s client.player.nextTrick (down.map Prod.fst) (L.up ++ out) := by
  have howes := h.owes L hL
  rw [hdown, List.map_cons] at howes
  refine howes.receive hrecv fun hturn hmsg hcopies hup card => ?_
  have hprompts : ∀ q ∈ L.down, ∃ t n, q.1 = .trick t n := fun q hq => by
    rw [hdown] at hq
    rcases List.mem_cons.mp hq with rfl | hmem
    · exact ⟨_, _, hmsg⟩
    · exact ⟨_, _, hcopies q.1 (List.mem_map_of_mem hmem)⟩
  have hlaid : S.laid s = [] := by
    rw [← hstand.mirrors.laid s]
    exact hstand.mirrors.laid_nextMove hturn
  have hhand := h.hand_eq hcons hL (by simp [hdown]) hprompts hup hlaid
  rw [hstand.mirrors.game.hands]
  exact (Multiset.coe_eq_coe.mp hhand).mem_iff

end Steps

/-- A `TRICK` that the server takes up, with the round in which it does so. -/
structure Answer where
  round : Nat
  number : Nat
  accepted : Bool
  deriving DecidableEq

/-- The `TRICK` of side `s` that a step takes up. -/
def takenUp {α : Type} (s : Side) (W : Session α) : Event → Session α → List Answer
  | .call (.playerTricked n card ix), _ =>
      if TakesUp s W.server (.playerTricked n card ix) then
        [⟨W.server.game.roundNumber, n, (W.server.accepts (.playerTricked n card ix)).isSome⟩]
      else []
  | _, _ => []

/-- The `WRONG` messages that a step enqueues for the worker of side `s`. -/
def wrongs {α : Type} (s : Side) (W : Session α) : Event → Session α → List SendJob
  | .call _, W' =>
      match W'.server.activeSides s with
      | some ix => (Server.received W.server W'.server ix).filter fun msg => msg.kind = .wrong
      | none => []
  | .receive, _ | .command _, _ => []

/-- The tricks from 1 to `k` of a round, each with a card of the side. -/
def answersTo (round k : Nat) : List Answer := (List.range' 1 k).map fun n => ⟨round, n, true⟩

/-- One answer for each trick to which the side has put a card. -/
def due (S : CardGame) (s : Side) : List Answer :=
  (List.range S.past.length).flatMap (answersTo · TRICKS_PER_ROUND) ++
    if S.closed then [] else answersTo S.past.length (S.done.length + (S.laid s).length)

section Due

variable {scenario : GameScenario} {S S' : CardGame} {side s : Side} {card : Card} {g : Game} {news : List SendJob}

theorem answersTo_succ (round k : Nat) : answersTo round (k + 1) = answersTo round k ++ [⟨round, k + 1, true⟩] := by
  rw [answersTo, List.range'_1_concat, List.map_append, Nat.add_comm 1 k]
  rfl

theorem mem_answersTo {round k : Nat} {a : Answer} :
    a ∈ answersTo round k ↔ a.round = round ∧ 1 ≤ a.number ∧ a.number ≤ k ∧ a.accepted = true := by
  obtain ⟨r, n, b⟩ := a
  simp only [answersTo, List.mem_map, List.mem_range'_1, Answer.mk.injEq]
  constructor
  · rintro ⟨n, ⟨hlow, hhigh⟩, rfl, rfl, rfl⟩
    exact ⟨rfl, hlow, by omega, rfl⟩
  · rintro ⟨rfl, hlow, hhigh, rfl⟩
    exact ⟨n, ⟨hlow, by omega⟩, rfl, rfl, rfl⟩

theorem nodup_answersTo (round k : Nat) : (answersTo round k).Nodup := by
  refine List.Nodup.map (fun m n h => ?_) List.nodup_range'
  exact (Answer.mk.inj h).2.1

theorem due_put (hopen : S.closed = false) :
    due (S.put side card) s = due S s ++
      if side = s then [⟨S.past.length, S.done.length + (S.laid s).length + 1, true⟩] else [] := by
  simp only [due, State.put_past, State.put_closed, State.put_done, hopen, Bool.false_eq_true, if_false,
    State.laid_put, List.length_append, List.append_assoc]
  by_cases hmine : side = s
  · rw [if_pos hmine, if_pos hmine, ← answersTo_succ]
    rfl
  · rw [if_neg hmine, if_neg hmine, List.append_nil]
    rfl

/-- What becomes of a full trick changes nothing. -/
theorem due_outcome (hout : Outcome S side card s g S' news) (hopen : S.closed = false)
    (hlaid : (S.put side card).plays.length = 4 → ((S.put side card).laid s).length = 1) :
    due S' s = due (S.put side card) s := by
  have hput : due (S.put side card) s = (List.range S.past.length).flatMap (answersTo · TRICKS_PER_ROUND) ++
      answersTo S.past.length (S.done.length + ((S.put side card).laid s).length) := by
    simp [due, hopen]
  cases hout with
  | inTrick => rfl
  | trickDone t hfull hmore ht =>
      have hclosed : ((S.put side card).collect kierki).closed = false := hopen
      have hnone : ((S.put side card).collect kierki).laid s = [] := rfl
      rw [hput, hlaid hfull, due, hclosed, ht, hnone, List.length_append]
      rfl
  | roundDone t r S' l l' hfull hlast ht hS' =>
      rw [hput, hlaid hfull, hlast, hS']
      simp [due, State.start, State.laid, cardsOf, List.range_succ, answersTo]
  | gameDone t S' l l' hfull hlast ht hS' =>
      rw [hput, hlaid hfull, hlast, hS']
      simp [due, List.range_succ]

theorem nodup_due (S : CardGame) (s : Side) : (due S s).Nodup := by
  refine List.nodup_append'.mpr ⟨?_, ?_, ?_⟩
  · refine List.nodup_flatMap.mpr ⟨fun r _ => nodup_answersTo r _, ?_⟩
    refine List.Pairwise.imp (fun {r r'} hne => ?_) List.nodup_range
    intro a ha ha'
    exact hne ((mem_answersTo.mp ha).1.symm.trans (mem_answersTo.mp ha').1)
  · split
    · exact List.nodup_nil
    · exact nodup_answersTo _ _
  · -- a finished round is not the present one
    intro a ha ha'
    obtain ⟨r, hr, ha⟩ := List.mem_flatMap.mp ha
    split at ha'
    · cases ha'
    · have hround := (mem_answersTo.mp ha).1.symm.trans (mem_answersTo.mp ha').1
      exact absurd (List.mem_range.mp hr) (by omega)

theorem accepted_due {a : Answer} (h : a ∈ due S s) : a.accepted = true := by
  rcases List.mem_append.mp h with hpast | hnow
  · obtain ⟨r, -, ha⟩ := List.mem_flatMap.mp hpast
    exact (mem_answersTo.mp ha).2.2.2
  · split at hnow
    · cases hnow
    · exact (mem_answersTo.mp hnow).2.2.2

/-- A call refuses no card of the side: the worker of the side is told so. -/
theorem not_wrong {σ σ' : Server} {e : Server.Call} {ix : Nat} {msgs : List SendJob}
    (h : Server.Delivers σ s ix e σ' msgs) (hmirrors : Mirrors scenario σ S)
    (htakes : TakesUp s σ e → σ.accepts e ≠ none) : ∀ msg ∈ msgs, msg.kind ≠ .wrong := by
  intro msg hmsg hwrong
  obtain ⟨n, card, jx, rfl, hpc, hside, hbad⟩ := (h.kinds hmirrors msg hmsg).2 hwrong
  exact htakes ⟨hpc, hside⟩ (by simp [Server.accepts, hpc, hside, hbad])

end Due

section Run

variable {scenario : GameScenario} {s : Side} {W : Session PlayerAuto} {S S' : CardGame} {e : Server.Call}
  {b : Bool} {σ' : Server}

theorem wrongs_call (hstand : Standing scenario W.server S) (heff : Server.Effect W.server e b σ')
    (htakes : TakesUp s W.server e → W.server.accepts e ≠ none) (link : Option (Link PlayerAuto)) :
    wrongs s W (.call e) ⟨σ', link⟩ = [] := by
  simp only [wrongs]
  cases hseat' : σ'.activeSides s with
  | none => rfl
  | some ix =>
      have hright := not_wrong (heff.delivers hstand.book hseat') hstand.mirrors htakes
      refine List.filter_eq_nil_iff.mpr fun msg hmsg => ?_
      simpa using hright msg hmsg

theorem takenUp_call (hnot : ¬ TakesUp s W.server e) (W' : Session PlayerAuto) : takenUp s W (.call e) W' = [] := by
  cases e with
  | playerTricked n card ix => exact if_neg hnot
  | _ => rfl

/-- The automatic player does not listen to its user. -/
theorem command_auto {c c' : Client PlayerAuto} {cmd : List Char} {out : List (Nat × Card)}
    (h : c.command true cmd = .ok (c', out)) : c' = c ∧ out = [] := by
  cases h
  exact ⟨rfl, rfl⟩

/-- The condition on the players that come back, for the run so far and for the next step. -/
theorem rejoin_concat {σ₀ : Server} {evs : List Event} {ev : Event}
    (hevs : exec (step PlayerAuto.new s) (opened σ₀) evs = some W)
    (hdeck : (∀ r ∈ scenario, r.SplitsDeck) ∨
      Guarded (step PlayerAuto.new s) (fun W ev => ¬ W.Rejoins s ev) (opened σ₀) (evs ++ [ev])) :
    ((∀ r ∈ scenario, r.SplitsDeck) ∨
      Guarded (step PlayerAuto.new s) (fun W ev => ¬ W.Rejoins s ev) (opened σ₀) evs) ∧
      (W.Rejoins s ev → ∀ r ∈ scenario, r.SplitsDeck) := by
  rcases hdeck with hdeck | hguard
  · exact ⟨.inl hdeck, fun _ => hdeck⟩
  · obtain ⟨hbefore, hev⟩ := guarded_concat hevs hguard
    exact ⟨.inr hbefore, fun hrejoins => absurd hrejoins hev⟩

/-- An accepted card is the answer that was not due yet. -/
theorem due_accepted {n : Nat} {card : Card} {ix : Nat} {side : Side} (hstand : Standing scenario W.server S)
    (hpc : 4 ≤ W.server.playersConnected) (hside : W.server.sideOf ix = some side)
    (hgood : W.server.admits n card side) (hacc : Server.Accepted W.server side card σ')
    (hplay : S.play kierki (deals scenario) (side, card) = some S') (W' : Session PlayerAuto) :
    due S s ++ takenUp s W (.call (.playerTricked n card ix)) W' = due S' s := by
  have hlegal : S.Legal kierki side card := (State.play_eq_some hplay).1
  obtain ⟨kx, hkx⟩ := hstand.book.full hpc s
  have hout := (hstand.mirrors.outcome hplay (hacc.announces (hstand.book.side_unique hkx))).1
  have hone : (S.put side card).plays.length = 4 → ((S.put side card).laid s).length = 1 := by
    intro hfull
    obtain ⟨c, hc⟩ := hstand.mirrors.sound.laid_full hlegal hfull s
    rw [hc]
    rfl
  rw [due_outcome hout hlegal.1 hone, due_put hlegal.1]
  congr 1
  by_cases hmine : side = s
  · subst hmine
    have hno : n = W.server.game.trickNo := hgood.1
    have haccepts : W.server.accepts (.playerTricked n card ix) = some (side, card) := by
      simp [Server.accepts, hpc, hside, hgood]
    have htakes : TakesUp side W.server (.playerTricked n card ix) := ⟨hpc, hside⟩
    have hnone : S.laid side = [] := by
      rw [← hstand.mirrors.laid side]
      exact hstand.mirrors.laid_nextMove hgood.2.1
    rw [if_pos rfl, takenUp, if_pos htakes, haccepts, hno, hstand.mirrors.game.roundNumber,
      hstand.mirrors.game.trickNo, hnone]
    rfl
  · -- another side's card is no answer of this one
    have hnot : ¬ TakesUp s W.server (.playerTricked n card ix) := fun htakes =>
      hmine (Option.some.inj (hside.symm.trans htakes.2))
    rw [if_neg hmine]
    exact takenUp_call hnot W'

/-- What a run of the session keeps of the answers, with the client that gives them. -/
structure Answering (scenario : GameScenario) (s : Side) (σ₀ : Server) (evs : List Event)
    (W : Session PlayerAuto) (S : CardGame) : Prop where
  consistent : W.Consistent scenario s S
  upToDate : W.UpToDate scenario s
  wrongs : record (step PlayerAuto.new s) (wrongs s) (opened σ₀) evs = []
  answers : record (step PlayerAuto.new s) (takenUp s) (opened σ₀) evs = due S s

/-- **The answers of a run** are those that are due, and all of them are accepted. -/
theorem answering_run {σ₀ : Server} {evs : List Event} {S₀ : CardGame} (hstand₀ : Standing scenario σ₀ S₀)
    (hfree : σ₀.activeSides s = none) (hdue : due S₀ s = [])
    (h : exec (step PlayerAuto.new s) (opened σ₀) evs = some W) :
    ∃ S, Standing scenario W.server S ∧ (((∀ r ∈ scenario, r.SplitsDeck) ∨
      Guarded (step PlayerAuto.new s) (fun W ev => ¬ W.Rejoins s ev) (opened σ₀) evs) →
        Answering scenario s σ₀ evs W S) := by
  refine run_induction (P := fun evs W S => ((∀ r ∈ scenario, r.SplitsDeck) ∨
    Guarded (step PlayerAuto.new s) (fun W ev => ¬ W.Rejoins s ev) (opened σ₀) evs) →
      Answering scenario s σ₀ evs W S) hstand₀ (fun _ => ⟨consistent_opened hfree, ?_, rfl, hdue.symm⟩)
    (fun evs W e b σ' S hevs hstand _ hP hstep hallows heff hnone _ hdeck => ?_)
    (fun evs W n card ix b σ' side S S' hevs hstand hstand' hP hstep hallows heff hpc hside hgood hacc hplay
      hdeck => ?_)
    (fun evs W L msg cause down client out S hevs hstand hP hstep hL hdown hrecv hdeck => ?_)
    (fun evs W L cmd client out S hevs _ hP hstep hL hcommand hdeck => ?_) h
  · constructor <;> rintro L ⟨⟩
  · obtain ⟨hbefore, hrejoin⟩ := rejoin_concat hevs hdeck
    obtain ⟨hcons, hup, hwrongs, hanswers⟩ := hP hbefore
    have hnot := hup.quiet hallows hnone
    refine ⟨hcons.quiet rfl hstand hallows heff hnone, ?_, ?_, ?_⟩
    · refine hup.relink hcons hstand heff hrejoin (fun htakes => absurd htakes hnot) fun L hL _ hseat' => ?_
      rw [if_neg hnot]
      exact hup.stay hcons hstand heff hallows hnone hL hseat'
    · rw [record_concat _ hevs hstep, hwrongs, wrongs_call hstand heff fun htakes => absurd htakes hnot]
      rfl
    · rw [record_concat _ hevs hstep, hanswers, takenUp_call hnot, List.append_nil]
  · obtain ⟨hbefore, hrejoin⟩ := rejoin_concat hevs hdeck
    obtain ⟨hcons, hup, hwrongs, hanswers⟩ := hP hbefore
    have haccepts : W.server.accepts (.playerTricked n card ix) = some (side, card) := by
      simp [Server.accepts, hpc, hside, hgood]
    refine ⟨hcons.move hstand hstand' hallows heff hpc hside hacc hplay, ?_, ?_, ?_⟩
    · refine hup.relink hcons hstand heff hrejoin (fun htakes => ?_) fun L hL hseat _ => ?_
      · obtain rfl : side = s := Option.some.inj (hside.symm.trans htakes.2)
        exact hstand.mirrors.laid_nextMove hgood.2.1
      · exact hup.move hallows hstand hstand' hpc hside hgood hacc hplay hL hseat
    · rw [record_concat _ hevs hstep, hwrongs, wrongs_call hstand heff fun _ => by simp [haccepts]]
      rfl
    · rw [record_concat _ hevs hstep, hanswers]
      exact due_accepted hstand hpc hside hgood hacc hplay _
  · -- what the client does by itself is not on record
    obtain ⟨hcons, hup, hwrongs, hanswers⟩ := hP (rejoin_concat hevs hdeck).1
    refine ⟨hcons.goOn hL fun _ hsound => hsound.receive hdown hrecv, ?_, ?_, ?_⟩
    · constructor <;> rintro _ ⟨⟩
      · exact hup.inTime L hL
      · exact hup.deck L hL
      · exact hup.receive hcons hstand hL hdown hrecv
    · rw [record_concat _ hevs hstep, hwrongs]
      rfl
    · rw [record_concat _ hevs hstep, hanswers]
      exact List.append_nil _
  · obtain ⟨hcons, hup, hwrongs, hanswers⟩ := hP (rejoin_concat hevs hdeck).1
    obtain ⟨rfl, rfl⟩ := command_auto hcommand
    refine ⟨hcons.goOn hL fun _ hsound => hsound.command hcommand, ?_, ?_, ?_⟩
    · constructor <;> rintro _ ⟨⟩
      · exact hup.inTime L hL
      · exact hup.deck L hL
      · rw [List.append_nil]
        exact hup.owes L hL
    · rw [record_concat _ hevs hstep, hwrongs]
      rfl
    · rw [record_concat _ hevs hstep, hanswers]
      exact List.append_nil _

end Run

end Session

/-- Trick `n` of round `r` has been played to its end. -/
def Server.Completed (σ : Server) (r n : Nat) : Prop :=
  r < σ.gameScenario.length ∧ 1 ≤ n ∧ n ≤ TRICKS_PER_ROUND ∧
    (r < σ.game.roundNumber ∨ r = σ.game.roundNumber ∧ n < σ.game.trickNo)

instance (σ : Server) (r n : Nat) : Decidable (σ.Completed r n) := by
  unfold Server.Completed
  infer_instance

namespace Session

theorem mem_due {scenario : GameScenario} {σ : Server} {S : CardGame} {r n : Nat} (h : Mirrors scenario σ S)
    (s : Side) (hdone : σ.Completed r n) : ⟨r, n, true⟩ ∈ due S s := by
  obtain ⟨hround, hlow, hhigh, hpast | ⟨rfl, hbefore⟩⟩ := hdone
  · rw [h.game.roundNumber] at hpast
    refine List.mem_append_left _ (List.mem_flatMap.mpr ⟨r, List.mem_range.mpr hpast, ?_⟩)
    exact mem_answersTo.mpr ⟨rfl, hlow, hhigh, rfl⟩
  · rw [h.game.trickNo] at hbefore
    have hopen : S.closed = false := by
      by_contra hclosed
      obtain ⟨-, -, hnone, -⟩ := h.sound.ended (by simpa using hclosed)
      rw [← h.game.roundNumber, deals, List.getElem?_eq_none_iff, List.length_map, ← h.scenario_eq] at hnone
      omega
    refine List.mem_append_right _ ?_
    rw [hopen]
    refine mem_answersTo.mpr ⟨h.game.roundNumber, hlow, ?_, rfl⟩
    show n ≤ S.done.length + (S.laid s).length
    omega

/-- **The automatic player is never told that it is wrong.**  In every run in which side `s` is played by
automatic players, one after the other, no `WRONG` is enqueued for it, every `TRICK` that is taken up from it is
accepted, no trick of a round is answered twice, and each trick that is completed was answered once; provided
that the deals split the deck if a player comes in mid-game. -/
theorem answered_once {scenario : GameScenario} {timeout : Int} {σ₀ : Server} {s : Side} {evs : List Event}
    {W : Session PlayerAuto} (h₀ : Server.start scenario timeout = .ok σ₀)
    (h : exec (step PlayerAuto.new s) (opened σ₀) evs = some W)
    (hdeck : (∀ r ∈ scenario, r.SplitsDeck) ∨
      Guarded (step PlayerAuto.new s) (fun W ev => ¬ W.Rejoins s ev) (opened σ₀) evs) :
    record (step PlayerAuto.new s) (wrongs s) (opened σ₀) evs = [] ∧
      (record (step PlayerAuto.new s) (takenUp s) (opened σ₀) evs).Nodup ∧
      (∀ a ∈ record (step PlayerAuto.new s) (takenUp s) (opened σ₀) evs, a.accepted = true) ∧
      ∀ r n, W.server.Completed r n →
        ((record (step PlayerAuto.new s) (takenUp s) (opened σ₀) evs).filter fun a =>
          a.round = r ∧ a.number = n) = [⟨r, n, true⟩] := by
  obtain ⟨r₀, hr₀, rfl⟩ := Server.start_eq_ok h₀
  obtain ⟨S, hstand, hanswering⟩ := answering_run (standing_started timeout hr₀) rfl rfl h
  have hkept := hanswering hdeck
  rw [hkept.answers]
  refine ⟨hkept.wrongs, nodup_due S s, fun a => accepted_due, fun r n hdone => ?_⟩
  -- there is no other answer with these numbers
  refine List.perm_singleton.mp ((List.perm_ext_iff_of_nodup ((nodup_due S s).filter _)
    (List.nodup_singleton _)).mpr fun a => ?_)
  rw [List.mem_filter, List.mem_singleton]
  constructor
  · rintro ⟨hdue, hsame⟩
    obtain ⟨r', n', accepted⟩ := a
    obtain ⟨rfl, rfl⟩ : r' = r ∧ n' = n := by simpa using hsame
    rw [show accepted = true from accepted_due hdue]
  · rintro rfl
    exact ⟨mem_due hstand.mirrors s hdone, by simp⟩

/-- `N` plays its first card while `E` is away, answering the first of three prompts, and leaves before the
second trick; another automatic player comes and goes on. -/
def interrupted : List Event :=
  Server.fourPlayers.map .call ++ [.receive, .call (.handleTimeout 1), .receive, .receive,
    .call (.grandExitCallback [] 2 false), .call (.playerTricked 1 ⟨.A, .colorC⟩ 1), .call .forwardConnection,
    .call (.playerIntro .E 5), .receive, .call (.playerTricked 1 ⟨.A, .colorC⟩ 1),
    .call (.playerTricked 1 ⟨.v2, .colorD⟩ 5), .call (.playerTricked 1 ⟨.v2, .colorH⟩ 3),
    .call (.playerTricked 1 ⟨.v2, .colorS⟩ 4), .call (.grandExitCallback [] 1 false), .call .forwardConnection,
    .call (.playerIntro .N 6), .receive, .receive, .receive, .call (.playerTricked 2 ⟨.K, .colorC⟩ 6)]

theorem answered_once_interrupted :
    ∃ W, exec (step PlayerAuto.new .N) (opened (Server.started [suitRound] 5 suitRound)) interrupted = some W ∧
      W.server.Completed 0 1 ∧
      record (step PlayerAuto.new .N) (wrongs .N) (opened (Server.started [suitRound] 5 suitRound)) interrupted = [] ∧
      ((record (step PlayerAuto.new .N) (takenUp .N) (opened (Server.started [suitRound] 5 suitRound))
        interrupted).filter fun a => a.round = 0 ∧ a.number = 1) = [⟨0, 1, true⟩] := by
  have hfacts : (exec (step PlayerAuto.new .N) (opened (Server.started [suitRound] 5 suitRound))
      interrupted).map (fun W => decide (W.server.Completed 0 1)) = some true := by decide +kernel
  obtain ⟨W, hW, heq⟩ := Option.map_eq_some_iff.mp hfacts
  have hdone := of_decide_eq_true heq
  have hdeck : ∀ r ∈ [suitRound], r.SplitsDeck := by
    intro r hr
    rw [List.mem_singleton.mp hr]
    decide +kernel
  obtain ⟨hwrongs, -, -, hanswered⟩ := answered_once (Server.start_cons suitRound [] 5) hW (.inl hdeck)
  exact ⟨W, hW, hdone, hwrongs, hanswered 0 1 hdone⟩

/-- A deal in which `N` and `S` have the two of hearts, and nobody the ace of clubs. -/
def twinDeal : TableState
  | .N => (CardValue.ranks.map fun v => ⟨v, .colorC⟩).dropLast ++ [⟨.v2, .colorH⟩]
  | .E => ⟨.A, .colorD⟩ :: (CardValue.ranks.map fun v => ⟨v, .colorH⟩).tail
  | .S => ⟨.v2, .colorH⟩ :: (CardValue.ranks.map fun v => ⟨v, .colorS⟩).dropLast
  | .W => (CardValue.ranks.map fun v => ⟨v, .colorD⟩).dropLast ++ [⟨.A, .colorS⟩]

def twinRound : Round := ⟨.trickPenalty, twinDeal, .E, by decide⟩

/-- `S` discards its two of hearts, and `N` leaves behind the trick.  The player that comes for `N` strikes the
card out of its own hand, and does not follow suit when hearts are led. -/
def struckOut : List Event :=
  Server.fourPlayers.map .call ++ [.receive, .call (.playerTricked 1 ⟨.A, .colorD⟩ 2),
    .call (.playerTricked 1 ⟨.v2, .colorH⟩ 3), .call (.playerTricked 1 ⟨.v2, .colorD⟩ 4), .receive,
    .call (.playerTricked 1 ⟨.v2, .colorC⟩ 1), .call (.grandExitCallback [] 1 false), .call .forwardConnection,
    .call (.playerIntro .N 5), .receive, .receive, .call (.playerTricked 2 ⟨.v3, .colorH⟩ 2),
    .call (.playerTricked 2 ⟨.v2, .colorS⟩ 3), .call (.playerTricked 2 ⟨.v3, .colorD⟩ 4), .receive,
    .call (.playerTricked 2 ⟨.v3, .colorC⟩ 5)]

theorem not_answered_once_struckOut :
    ∃ W, exec (step PlayerAuto.new .N) (opened (Server.started [twinRound] 5 twinRound)) struckOut = some W ∧
      record (step PlayerAuto.new .N) (wrongs .N) (opened (Server.started [twinRound] 5 twinRound)) struckOut =
        [.wrong 2] := by
  have hsome : (exec (step PlayerAuto.new .N) (opened (Server.started [twinRound] 5 twinRound))
      struckOut).isSome := by decide +kernel
  obtain ⟨W, hW⟩ := Option.isSome_iff_exists.mp hsome
  exact ⟨W, hW, by decide +kernel⟩

end Session

end Kierki
