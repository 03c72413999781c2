import Kierki.Client.Automatic
import Kierki.Client.EventLoop
import Kierki.Client.Replay
import Kierki.Server.Progress
import Kierki.Server.Prompts

/-!
# Four automatic players

The server with the players of all four sides.  Each side is a session as in `Session`, and the server is the same
for all of them: a call has to be one that every client leaves room for, and it may put messages into the channels
of all four.

Something is on its way if a client has a message to process, or the server a card to take up.  While four players
are connected and the game is not over, there is always something on its way, no matter what has happened before: the
player to move has a card on its way to the server, or a message on its way that it will answer with a card.  What
is on its way can be processed, and a card that is taken up is accepted.  As the server answers a card with twenty
messages at the most, the four players bring the game to its end.
-/

namespace Kierki

open TrickGame Execution PlayerAuto

/-- The server and the clients of the sides. -/
structure Party where
  server : Server
  links : Side → Option (Link PlayerAuto)

namespace Party

/-- What can happen: a call of the server, or the client of a side processes a message. -/
inductive Event
  | call (e : Server.Call)
  | receive (s : Side)

/-- The session of side `s`. -/
def side (P : Party) (s : Side) : Session PlayerAuto := ⟨P.server, P.links s⟩

/-- One step. -/
def step (P : Party) : Event → Option Party
  | .call e =>
      if ∀ s, (P.side s).Allows s e then
        match P.server.handle e with
        | .ok (_, σ') => some ⟨σ', fun s => (P.side s).relink PlayerAuto.new s e σ'⟩
        | .error _ => none
      else none
  | .receive s => ((P.side s).step PlayerAuto.new s .receive).map fun W =>
      ⟨P.server, Function.update P.links s W.link⟩

/-- A server with nobody at the table. -/
def opened (σ : Server) : Party := ⟨σ, fun _ => none⟩

/-- A player sits down when a deal is out. -/
def Rejoins (P : Party) : Event → Prop
  | .call e => ∃ s, (P.side s).Rejoins s (.call e)
  | .receive _ => False

/-- All cards of the scenario have been played. -/
def Over (P : Party) : Prop := P.server.game.roundNumber = P.server.gameScenario.length

instance (P : Party) : Decidable P.Over := inferInstanceAs (Decidable (_ = _))

/-- What is on its way: a message that a client may process, a card that the server may take up. -/
def Waiting (P : Party) : Event → Prop
  | .receive s => ∃ L ∈ P.links s, L.down ≠ []
  | .call (.playerTricked n card ix) => ∃ s, ∃ L ∈ P.links s, L.worker = ix ∧ L.up.head? = some (n, card)
  | .call _ => False

/-- The length of the channel to the client of side `s`. -/
def waiting (P : Party) (s : Side) : Nat := (P.links s).elim 0 fun L => L.down.length

/-- How much is left to be done: a card costs a step and is answered by twenty messages at the most. -/
def budget (P : Party) : Nat := 21 * P.server.cardsLeft + ∑ s, P.waiting s

/-- The side with a new link, and another one. -/
theorem side_update (P : Party) (s t : Side) (link : Option (Link PlayerAuto)) :
    (⟨P.server, Function.update P.links s link⟩ : Party).side t = if t = s then ⟨P.server, link⟩ else P.side t := by
  by_cases ht : t = s
  · subst ht
    simp [side]
  · simp [side, ht]

section Inversion

variable {P P' : Party}

theorem step_call {e : Server.Call} (h : P.step (.call e) = some P') :
    (∀ s, (P.side s).Allows s e) ∧ ∃ b σ', Server.Effect P.server e b σ' ∧
      P' = ⟨σ', fun s => (P.side s).relink PlayerAuto.new s e σ'⟩ := by
  simp only [step] at h
  split at h
  · rename_i hallows
    split at h
    · rename_i b σ' hhandle
      exact ⟨hallows, b, σ', Server.handle_effect hhandle, (Option.some.inj h).symm⟩
    · cases h
  · cases h

theorem step_receive {s : Side} (h : P.step (.receive s) = some P') :
    ∃ L msg cause down client out, P.links s = some L ∧ L.down = (msg, cause) :: down ∧
      L.client.recv msg = .ok (client, out) ∧ P' = { P with
        links := Function.update P.links s (some { L with client := client, down := down, up := L.up ++ out }) } := by
  obtain ⟨W, hW, rfl⟩ := Option.map_eq_some_iff.mp h
  obtain ⟨L, msg, cause, down, client, out, hL, hdown, hrecv, rfl⟩ := Session.step_receive hW
  exact ⟨L, msg, cause, down, client, out, hL, hdown, hrecv, rfl⟩

end Inversion

end Party

/-- The client is in its loop, and what is on its way to it can be read and is no refusal. -/
def Link.Attentive (L : Link PlayerAuto) : Prop :=
  L.client.terminate = false ∧ ∀ q ∈ L.down, q.1.Readable ∧ q.1.kind ≠ .busy

/-- The player has a card on its way, or a message that it will answer with one. -/
def Link.Engaged (L : Link PlayerAuto) : Prop :=
  L.up ≠ [] ∨ ¬ Deaf L.client.player.nextTrick (L.down.map Prod.fst)

section Messages

variable {scenario : GameScenario} {σ σ' : Server} {S S' : CardGame} {e : Server.Call} {b : Bool} {s : Side} {ix : Nat}
  {msgs : List SendJob}

/-- The number after the last trick is not reached while there is a round. -/
theorem Mirrors.trickNo_open (h : Mirrors scenario σ S) (hopen : σ.game.roundNumber ≠ scenario.length) :
    σ.game.trickNo ≠ TRICKS_PER_ROUND + 1 := by
  intro hno
  exact hopen (h.closed_iff.mp (h.closed_of_trickNo hno))

/-- **What the worker of a side receives while the game goes on** can be processed by a client. -/
theorem Server.Effect.heard (h : Server.Effect σ e b σ') (hstand : Standing scenario σ S)
    (hstand' : Standing scenario σ' S') (hopen : σ.game.roundNumber ≠ scenario.length)
    (hseat' : σ'.activeSides s = some ix) :
    ∀ msg ∈ Server.received σ σ' ix, msg.Readable ∧ msg.kind ≠ .busy := by
  intro msg hmsg
  have hno := hstand.mirrors.trickNo_open hopen
  have hgo : ¬ σ.Overrun e := by
    intro hover
    cases e with
    | playerTricked | playerIntro => exact hno hover.1
    | _ => exact hover
  obtain ⟨out, hsent, hout⟩ := h.emits fun _ _ _ _ _ _ => hno
  have hmem : (ix, msg) ∈ out := by
    rw [← Server.mailed_eq hsent]
    exact Server.mem_inbox.mp hmsg
  have hunderstood := (hout _ hmem).understood hstand.mirrors hstand'.mirrors hstand.dealt hgo
  exact ⟨hunderstood.readable, ((h.delivers hstand.book hseat').kinds hstand.mirrors msg hmsg).1⟩

/-- **A renewed turn ends with the prompt** for the player to move. -/
theorem Server.Effect.prompt_last (h : Server.Effect σ e b σ') (hstand : Standing scenario σ S)
    (hrenews : σ.Renews e) (hgo : σ'.game.roundNumber ≠ σ'.gameScenario.length)
    (hseat' : σ'.activeSides σ'.game.nextMove = some ix) :
    ∃ before, Server.received σ σ' ix = before ++ [σ'.game.msgTrick] := by
  obtain ⟨jx, hjx, hmail⟩ := h.prompts hrenews hgo
  obtain rfl : ix = jx := Option.some.inj (hseat'.symm.trans hjx)
  have hmem : σ'.game.msgTrick ∈ Server.received σ σ' ix := Server.mem_inbox.mpr hmail
  have hlast : ∀ g, g = σ'.game → Server.promptFor g σ'.game.nextMove = [σ'.game.msgTrick] := by
    rintro g rfl
    exact if_pos rfl
  have hdeals := h.delivers hstand.book hseat'
  generalize Server.received σ σ' ix = msgs at hmem hdeals
  generalize hturn : σ'.game.nextMove = s at hdeals hlast
  -- a renewed turn sends a prompt, and in every list of messages the prompt is the last
  cases hdeals with
  | quiet | lobby => cases hmem
  | firstDeal side kx σ' _ _ _ hgame =>
      rw [hlast _ hgame.symm]
      exact ⟨[_], rfl⟩
  | rejoin deal σ' _ _ hgame =>
      rw [if_pos hrenews.2.2, hlast _ hgame.symm, ← List.cons_append]
      exact ⟨_, rfl⟩
  | resume side kx deal σ' _ _ _ _ _ hgame =>
      rw [hlast _ hgame.symm]
      exact ⟨[], rfl⟩
  | wrong => simp [Game.msgTrick] at hmem
  | timeout σ' _ _ _ _ hgame =>
      rw [← hgame]
      exact ⟨[], rfl⟩
  | accepted n card kx side σ' msgs _ _ _ _ _ hmsgs =>
      cases hmsgs with
      | inTrick =>
          rw [hlast _ rfl]
          exact ⟨[], rfl⟩
      | trickDone =>
          rw [hlast _ rfl]
          exact ⟨[_], rfl⟩
      | roundDone g r =>
          rw [hlast _ rfl]
          exact ⟨[_, _, _, _], rfl⟩
      | gameDone => simp [Game.msgTrick, Game.msgTaken] at hmem

end Messages

section Engaged

variable {g : Game} {s : Side} {k : Nat} {msgs : List SendJob} {up : List (Nat × Card)}

/-- The player of a side that has just been prompted will answer, or has answered already. -/
theorem Owes.engaged (h : Owes g s k (msgs ++ [g.msgTrick]) up) (hlaid : g.laid s = []) :
    up ≠ [] ∨ ¬ Deaf k (msgs ++ [g.msgTrick]) := by
  cases h with
  | nothing _ hnext =>
      -- the prompt would have taken the player further
      have hle := hnext hlaid
      have hprompt : expectsAll k (msgs ++ [g.msgTrick]) = max (expectsAll k msgs) (g.trickNo + 1) := by
        rw [expectsAll_append]
        rfl
      omega
  | answer before copies _ hmsgs _ hnext =>
      refine .inr fun hdeaf => ?_
      rw [hmsgs, deaf_append] at hdeaf
      have hbehind := hdeaf.2.1 g.table g.trickNo rfl
      omega
  | answered card _ _ _ hup => exact .inl (by simp [hup])

/-- The player processes a message: it answers it, or it will answer another one. -/
theorem Client.recv_engaged {c c' : Client PlayerAuto} {msg : SendJob} {out : List (Nat × Card)}
    (h : up ≠ [] ∨ ¬ Deaf c.player.nextTrick (msg :: msgs)) (hrecv : c.recv msg = .ok (c', out)) :
    up ++ out ≠ [] ∨ ¬ Deaf c'.player.nextTrick msgs := by
  obtain ⟨hnext, hput⟩ := Client.recv_auto hrecv
  rcases h with hup | hanswers
  · exact .inl (by simp [hup])
  rcases hput with ⟨-, hdeaf⟩ | ⟨t, n, card, -, -, rfl, -⟩
  · refine .inr fun hrest => hanswers ⟨hdeaf, ?_⟩
    rwa [hnext] at hrest
  · exact .inl (by simp)

end Engaged

section Relink

variable {s : Side} {W : Session PlayerAuto} {scenario : GameScenario} {S : CardGame} {e : Server.Call} {b : Bool}
  {σ' : Server} {L' : Link PlayerAuto}

/-- The link behind a call is a new one, or one that was there before. -/
theorem Session.relink_eq_some (h : W.relink PlayerAuto.new s e σ' = some L') :
    ∃ ix, σ'.activeSides s = some ix ∧ ((W.link = none ∧ L' = sitDown PlayerAuto.new s W.server e σ' ix) ∨
      ∃ L, W.link = some L ∧ L' = stay s W.server e σ' L) := by
  unfold relink at h
  split at h
  · cases h
  · rename_i ix hseat' hlink
    exact ⟨ix, hseat', .inl ⟨hlink, (Option.some.inj h).symm⟩⟩
  · rename_i ix L hseat' hlink
    exact ⟨ix, hseat', .inr ⟨L, hlink, (Option.some.inj h).symm⟩⟩

/-- **What is on its way behind a call**: what was there before, and what the worker receives. -/
theorem Session.Consistent.down_relink (h : W.Consistent scenario s S) (hbook : W.server.SeatBook)
    (heff : Server.Effect W.server e b σ') (hL' : W.relink PlayerAuto.new s e σ' = some L') :
    σ'.activeSides s = some L'.worker ∧
      ((W.link = none ∧ L'.client = .new PlayerAuto.new ∧ L'.up = [] ∧
          L'.down.map Prod.fst = Server.received W.server σ' L'.worker) ∨
        ∃ L, W.link = some L ∧ L'.worker = L.worker ∧ L'.client = L.client ∧
          L'.up = (if TakesUp s W.server e then L.up.tail else L.up) ∧
          L'.down.map Prod.fst = L.down.map Prod.fst ++ Server.received W.server σ' L'.worker) := by
  obtain ⟨ix, hseat', ⟨hlink, rfl⟩ | ⟨L, hlink, rfl⟩⟩ := relink_eq_some hL'
  · exact ⟨hseat', .inl ⟨hlink, rfl, rfl, map_parcels s W.server e σ' ix⟩⟩
  · obtain rfl : L.worker = ix := (heff.delivers hbook hseat').same_worker (h.seated hlink)
    refine ⟨hseat', .inr ⟨L, hlink, rfl, rfl, rfl, ?_⟩⟩
    show (L.down ++ parcels s W.server e σ' L.worker).map Prod.fst = _
    rw [List.map_append, map_parcels]
    rfl

/-- A client that can go on before a call can do so behind it. -/
theorem Link.Attentive.relink (hcons : W.Consistent scenario s S) (hbook : W.server.SeatBook)
    (heff : Server.Effect W.server e b σ') (hL' : W.relink PlayerAuto.new s e σ' = some L')
    (hold : ∀ L, W.link = some L → L.Attentive)
    (hheard : ∀ ix, σ'.activeSides s = some ix →
      ∀ msg ∈ Server.received W.server σ' ix, msg.Readable ∧ msg.kind ≠ .busy) : L'.Attentive := by
  obtain ⟨hseat', ⟨-, hclient, -, hdown⟩ | ⟨L, hlink, -, hclient, -, hdown⟩⟩ := hcons.down_relink hbook heff hL'
  · refine ⟨by rw [hclient]; rfl, fun q hq => hheard _ hseat' q.1 ?_⟩
    rw [← hdown]
    exact List.mem_map_of_mem hq
  · obtain ⟨hloop, hall⟩ := hold L hlink
    refine ⟨by rw [hclient]; exact hloop, fun q hq => ?_⟩
    have hmem : q.1 ∈ L.down.map Prod.fst ++ Server.received W.server σ' L'.worker := by
      rw [← hdown]
      exact List.mem_map_of_mem hq
    rcases List.mem_append.mp hmem with hbefore | hnew
    · obtain ⟨q', hq', hsame⟩ := List.mem_map.mp hbefore
      rw [← hsame]
      exact hall q' hq'
    · exact hheard _ hseat' q.1 hnew

/-- **The player is ready** for the message that it comes to. -/
theorem Session.UpToDate.ready (h : W.UpToDate scenario s) (hcons : W.Consistent scenario s S)
    (hstand : Standing scenario W.server S) (hopen : W.server.game.roundNumber ≠ scenario.length)
    {L : Link PlayerAuto} (hL : W.link = some L) {msg : SendJob} {cause : Option Cause} {down : List Parcel}
    (hdown : L.down = (msg, cause) :: down) : L.client.player.Ready msg := by
  cases msg with
  | trick t n =>
      intro hle
      have howes := h.owes L hL
      rw [hdown, List.map_cons] at howes
      -- a message that is not answered needs no card
      have hanswered : ∀ {msgs : List SendJob}, ¬ Deaf L.client.player.nextTrick (.trick t n :: msgs) :=
        fun hdeaf => absurd (hdeaf.1 t n rfl) (by omega)
      cases howes with
      | nothing hdeaf => exact absurd hdeaf hanswered
      | answered card _ hdeaf => exact absurd hdeaf hanswered
      | answer before copies hturn hmsgs hdeaf hnext hcopies hup =>
          cases before with
          | cons first before =>
              obtain ⟨rfl, -⟩ := List.cons.inj hmsgs
              exact absurd hdeaf hanswered
          | nil =>
              obtain ⟨hmsg, rfl⟩ := List.cons.inj hmsgs
              -- nothing but prompts is on the way, so that the player has the hand of its side
              have hprompts : ∀ q ∈ L.down, ∃ t n, q.1 = .trick t n := fun q hq => by
                rw [hdown] at hq
                rcases List.mem_cons.mp hq with rfl | hmem
                · exact ⟨_, _, hmsg⟩
                · exact ⟨_, _, hcopies q.1 (List.mem_map_of_mem hmem)⟩
              have hno := hstand.mirrors.trickNumber (hstand.mirrors.trickNo_open hopen)
              obtain ⟨hlaid, hsome⟩ := hstand.mirrors.turn_hand hno.2 hturn
              have hhand := h.hand_eq hcons hL (by simp [hdown]) hprompts hup hlaid
              intro hnone
              rw [hnone] at hhand
              exact hsome (by simpa using hhand.symm)
  | _ => trivial

end Relink

/-- A card is answered with five messages for each side at the most. -/
theorem Server.Announces.length_le {σ σ' : Server} {side s : Side} {card : Card} {msgs : List SendJob}
    (h : Server.Announces σ side card s σ' msgs) : msgs.length ≤ 5 := by
  have hprompt : ∀ g, (Server.promptFor g s).length ≤ 1 := by
    intro g
    unfold Server.promptFor
    split <;> simp
  have hgame := hprompt σ'.game
  cases h with
  | inTrick => omega
  | trickDone | roundDone =>
      simp only [List.length_cons]
      omega
  | gameDone => exact Nat.le_add_left 3 2

/-- **A card that the rules allow is accepted** from the worker of a full table. -/
theorem Server.offered_ok {scenario : GameScenario} {σ : Server} {S : CardGame} {n : Nat} {card : Card} {ix : Nat}
    {s : Side} (hstand : Standing scenario σ S) (hheld : σ.Held) (hpc : σ.playersConnected = 4)
    (hopen : σ.game.roundNumber ≠ scenario.length) (hseat : σ.activeSides s = some ix) (hgood : σ.admits n card s) :
    ∃ σ', σ.handle (.playerTricked n card ix) = .ok (true, σ') ∧ σ.sideOf ix = some s ∧
      Server.Accepted σ s card σ' := by
  obtain ⟨hrole, hside, -⟩ := (hstand.book.seats hheld).seat s ix hseat
  have hin : σ.game.roundNumber < σ.gameScenario.length := by
    have hle := hstand.mirrors.sound.past_le
    rw [← hstand.mirrors.game.roundNumber, deals, List.length_map] at hle
    rw [hstand.mirrors.scenario_eq]
    exact lt_of_le_of_ne hle hopen
  have hfull : Server.FullTable σ := (hstand.book.seats hheld).fullTable hpc.ge
  cases hoffer : σ.offerCard n card s with
  | error f =>
      obtain rfl := Server.offerCard_error (fun _ => hin) hoffer
      exact absurd hoffer (hfull.offerCard_ne n card s)
  | ok σ' =>
      refine ⟨σ', ?_, by simp [sideOf, hrole, hside], Server.offerCard_accepted hoffer hgood⟩
      rw [Server.handle, Server.playerTricked_seated hpc hrole hside, hoffer]
      rfl

namespace Party

/-- What holds in every state of a party. -/
structure Sound (scenario : GameScenario) (P : Party) (S : CardGame) : Prop where
  standing : Standing scenario P.server S
  held : P.server.Held
  consistent : ∀ s, (P.side s).Consistent scenario s S
  upToDate : ∀ s, (P.side s).UpToDate scenario s
  attentive : ¬ P.Over → ∀ s L, P.links s = some L → L.Attentive
  engaged : ¬ P.Over → P.server.playersConnected = 4 → ∀ L, P.links P.server.game.nextMove = some L → L.Engaged

section Steps

variable {scenario : GameScenario} {P P' : Party} {S S' : CardGame} {e : Server.Call} {b : Bool} {σ' : Server}

theorem sound_opened {σ : Server} (hstand : Standing scenario σ S) (hnobody : ∀ s, σ.activeSides s = none) :
    (opened σ).Sound scenario S where
  standing := hstand
  held := fun s ix hs => absurd ((hnobody s).symm.trans hs) (by simp)
  consistent := fun s => Session.consistent_opened (hnobody s)
  upToDate := fun s => by constructor <;> rintro L ⟨⟩
  attentive := by
    rintro - s L ⟨⟩
  engaged := by
    rintro - - L ⟨⟩

theorem Sound.over_iff (h : P.Sound scenario S) : P.Over ↔ P.server.game.roundNumber = scenario.length := by
  rw [Over, h.standing.mirrors.scenario_eq]

/-- A player who has a seat does not say `IAM` again. -/
theorem Sound.not_secondIntro (h : P.Sound scenario S) (hallows : ∀ s, (P.side s).Allows s e) :
    ¬ Server.SecondIntro P.server e := by
  intro hsecond
  cases e with
  | playerIntro side ix =>
      obtain ⟨s, hs⟩ := h.standing.book.active ix hsecond.1
      obtain ⟨L, hL, hworker⟩ := ((h.consistent s).seat ix).mp hs
      exact hallows s (by rw [hL]; exact congrArg some hworker)
  | _ => exact hsecond

/-- **The player to move is engaged** behind every call. -/
theorem Sound.engaged_call (h : P.Sound scenario S) (hallows : ∀ s, (P.side s).Allows s e)
    (heff : Server.Effect P.server e b σ') (hstand' : Standing scenario σ' S')
    (hup' : ∀ s, Session.UpToDate scenario s ⟨σ', (P.side s).relink PlayerAuto.new s e σ'⟩)
    (hopen : ¬ P.Over) (hopen' : σ'.game.roundNumber ≠ σ'.gameScenario.length) (hpc' : σ'.playersConnected = 4)
    {L' : Link PlayerAuto}
    (hL' : (P.side σ'.game.nextMove).relink PlayerAuto.new σ'.game.nextMove e σ' = some L') : L'.Engaged := by
  have hcons := h.consistent σ'.game.nextMove
  obtain ⟨hseat', hdown⟩ := hcons.down_relink h.standing.book heff hL'
  by_cases hrenews : P.server.Renews e
  · -- the last message is a prompt
    obtain ⟨before, hlast⟩ := heff.prompt_last h.standing hrenews hopen' hseat'
    change Server.received (P.side σ'.game.nextMove).server σ' L'.worker = _ at hlast
    have howes := (hup' σ'.game.nextMove).owes L' hL'
    have hprompt : ∃ msgs, L'.down.map Prod.fst = msgs ++ [σ'.game.msgTrick] := by
      rcases hdown with ⟨-, -, -, hdown⟩ | ⟨L, -, -, -, -, hdown⟩ <;> rw [hdown, hlast]
      · exact ⟨before, rfl⟩
      · exact ⟨_, (List.append_assoc _ _ _).symm⟩
    obtain ⟨msgs, hmsgs⟩ := hprompt
    rw [hmsgs] at howes
    have hengaged := howes.engaged (hstand'.mirrors.laid_nextMove rfl)
    rwa [← hmsgs] at hengaged
  · -- the seats, the table and the turn are as they were
    obtain ⟨hpc, hsides, hgame⟩ := heff.still h.standing.book hrenews hpc'
    have hnone : P.server.accepts e = none := by
      cases e with
      | playerIntro => rfl
      | _ => simpa [Server.Renews] using hrenews
    rcases hdown with ⟨hlink, -⟩ | ⟨L, hlink, -, hclient, hup, hdown⟩
    · rw [hsides] at hseat'
      obtain ⟨L, hL, -⟩ := (hcons.seat _).mp hseat'
      rw [hlink] at hL
      cases hL
    · have hturn : P.server.game.nextMove = σ'.game.nextMove := by rw [hgame]
      have hold : L.Engaged := h.engaged hopen hpc L (by rw [hturn]; exact hlink)
      rw [if_neg ((h.upToDate _).quiet (hallows _) hnone)] at hup
      rw [Link.Engaged, hup, hclient, hdown]
      exact hold.imp_right fun hanswers hdeaf => hanswers (deaf_append.mp hdeaf).1

/-- A call, once it is known what it does to the game. -/
theorem Sound.call (h : P.Sound scenario S) (hallows : ∀ s, (P.side s).Allows s e)
    (heff : Server.Effect P.server e b σ') (hstand' : Standing scenario σ' S')
    (hopen : P.Over → σ'.game.roundNumber = scenario.length)
    (hcons' : ∀ s, Session.Consistent scenario s ⟨σ', (P.side s).relink PlayerAuto.new s e σ'⟩ S')
    (hup' : ∀ s, Session.UpToDate scenario s ⟨σ', (P.side s).relink PlayerAuto.new s e σ'⟩) :
    Sound scenario ⟨σ', fun s => (P.side s).relink PlayerAuto.new s e σ'⟩ S' where
  standing := hstand'
  held := h.held.effect h.standing.book heff (h.not_secondIntro hallows)
  consistent := hcons'
  upToDate := hup'
  attentive := by
    intro hgo s L' hL'
    have hgo' : σ'.game.roundNumber ≠ scenario.length := by
      rwa [Over, hstand'.mirrors.scenario_eq] at hgo
    have hbefore : ¬ P.Over := fun hover => hgo' (hopen hover)
    refine Link.Attentive.relink (h.consistent s) h.standing.book heff hL' (h.attentive hbefore s) fun ix hseat' => ?_
    exact heff.heard h.standing hstand' (fun hover => hbefore (h.over_iff.mpr hover)) hseat'
  engaged := by
    intro hgo hpc' L' hL'
    have hgo' : σ'.game.roundNumber ≠ scenario.length := by
      rwa [Over, hstand'.mirrors.scenario_eq] at hgo
    exact h.engaged_call hallows heff hstand' hup' (fun hover => hgo' (hopen hover)) hgo hpc' hL'

/-- **A message is processed.** -/
theorem Sound.receive (h : P.Sound scenario S) {s : Side} (hstep : P.step (.receive s) = some P') :
    P'.Sound scenario S := by
  obtain ⟨L, msg, cause, down, client, out, hL, hdown, hrecv, rfl⟩ := step_receive hstep
  refine ⟨h.standing, h.held, fun t => ?_, fun t => ?_, fun hopen t L' hL' => ?_, fun hopen hpc L' hL' => ?_⟩
  · -- only the side that receives has another client
    rw [side_update]
    split
    · rename_i ht
      subst ht
      exact (h.consistent t).goOn hL fun _ hsound => hsound.receive hdown hrecv
    · exact h.consistent t
  · rw [side_update]
    split
    · rename_i ht
      subst ht
      constructor <;> rintro _ ⟨⟩
      · exact (h.upToDate t).inTime L hL
      · exact (h.upToDate t).deck L hL
      · exact (h.upToDate t).receive (h.consistent t) h.standing hL hdown hrecv
    · exact h.upToDate t
  · by_cases ht : t = s
    · subst ht
      obtain ⟨hloop, hall⟩ := h.attentive hopen t L hL
      rw [hdown, List.forall_mem_cons] at hall
      obtain ⟨hread, hkind⟩ := hall.1
      have htake : L.client.take true msg = .ok (client, out) := by
        rwa [Client.recv, if_pos hread] at hrecv
      obtain rfl : { L with client := client, down := down, up := L.up ++ out } = L' := by simpa using hL'
      refine ⟨?_, hall.2⟩
      rw [← Bool.not_eq_true, Client.take_terminate htake]
      simp [hloop, hkind]
    · exact h.attentive hopen t L' (by simpa [ht] using hL')
  · -- what the player to move takes off its channel was part of what engages it
    by_cases ht : P.server.game.nextMove = s
    · have hold : L.Engaged := h.engaged hopen hpc L (by rw [ht]; exact hL)
      obtain rfl : { L with client := client, down := down, up := L.up ++ out } = L' := by simpa [ht] using hL'
      rw [Link.Engaged, hdown, List.map_cons] at hold
      exact Client.recv_engaged hold hrecv
    · exact h.engaged hopen hpc L' (by simpa [ht] using hL')

/-- The condition on the players that come back, for the next step. -/
theorem rejoin_concat {σ₀ : Server} {evs : List Event} {ev : Event} (hevs : exec step (opened σ₀) evs = some P)
    (hdeck : (∀ r ∈ scenario, r.SplitsDeck) ∨
      Guarded step (fun P ev => ¬ P.Rejoins ev) (opened σ₀) (evs ++ [ev])) :
    ((∀ r ∈ scenario, r.SplitsDeck) ∨ Guarded step (fun P ev => ¬ P.Rejoins ev) (opened σ₀) evs) ∧
      (P.Rejoins ev → ∀ r ∈ scenario, r.SplitsDeck) := by
  rcases hdeck with hdeck | hguard
  · exact ⟨.inl hdeck, fun _ => hdeck⟩
  · obtain ⟨hbefore, hev⟩ := guarded_concat hevs hguard
    exact ⟨.inr hbefore, fun hrejoins => absurd hrejoins hev⟩

/-- **Every step keeps a party sound.** -/
theorem Sound.step {ev : Event} (h : P.Sound scenario S) (hstep : P.step ev = some P')
    (hrejoin : P.Rejoins ev → ∀ r ∈ scenario, r.SplitsDeck) : ∃ S', P'.Sound scenario S' := by
  cases ev with
  | receive s => exact ⟨S, h.receive hstep⟩
  | call e =>
      obtain ⟨hallows, b, σ', heff, rfl⟩ := step_call hstep
      have hsit : ∀ s, (P.side s).Rejoins s (.call e) → ∀ r ∈ scenario, r.SplitsDeck := fun s hs => hrejoin ⟨s, hs⟩
      rcases h.standing.effect heff with ⟨hnone, hgame, hstand'⟩ |
        ⟨n, card, ix, side, S', rfl, hpc, hside, hgood, hacc, hplay, hstand'⟩
      · refine ⟨S, h.call hallows heff hstand' (fun hover => ?_) (fun s => ?_) fun s => ?_⟩
        · rw [hgame]
          exact h.over_iff.mp hover
        · exact (h.consistent s).quiet rfl h.standing (hallows s) heff hnone
        · have hnot := (h.upToDate s).quiet (hallows s) hnone
          refine (h.upToDate s).relink (h.consistent s) h.standing heff (hsit s) (fun htakes => absurd htakes hnot)
            fun L hL _ hseat' => ?_
          rw [if_neg hnot]
          exact (h.upToDate s).stay (h.consistent s) h.standing heff (hallows s) hnone hL hseat'
      · refine ⟨S', h.call hallows heff hstand' (fun hover => ?_) (fun s => ?_) fun s => ?_⟩
        · exact absurd hgood (h.standing.mirrors.over (h.over_iff.mp hover) n card side)
        · exact (h.consistent s).move h.standing hstand' (hallows s) heff hpc hside hacc hplay
        · refine (h.upToDate s).relink (h.consistent s) h.standing heff (hsit s) (fun htakes => ?_) fun L hL hseat _ => ?_
          · obtain rfl : side = s := Option.some.inj (hside.symm.trans htakes.2)
            exact h.standing.mirrors.laid_nextMove hgood.2.1
          · exact (h.upToDate s).move (hallows s) h.standing hstand' hpc hside hgood hacc hplay hL hseat

/-- So every run does. -/
theorem sound_run {timeout : Int} {σ₀ : Server} {evs : List Event} (h₀ : Server.start scenario timeout = .ok σ₀)
    (h : exec Party.step (opened σ₀) evs = some P)
    (hdeck : (∀ r ∈ scenario, r.SplitsDeck) ∨ Guarded Party.step (fun P ev => ¬ P.Rejoins ev) (opened σ₀) evs) :
    ∃ S, P.Sound scenario S := by
  refine exec_induction (P := fun evs P => ((∀ r ∈ scenario, r.SplitsDeck) ∨
    Guarded Party.step (fun P ev => ¬ P.Rejoins ev) (opened σ₀) evs) → ∃ S, P.Sound scenario S) (fun _ => ?_)
    (fun evs P ev P' hevs ih hstep hdeck => ?_) evs P h hdeck
  · obtain ⟨r₀, hr₀, rfl⟩ := Server.start_eq_ok h₀
    exact ⟨_, sound_opened (standing_started timeout hr₀) fun _ => rfl⟩
  · obtain ⟨hbefore, hrejoin⟩ := rejoin_concat hevs hdeck
    obtain ⟨S, hS⟩ := ih hbefore
    exact hS.step hstep hrejoin

/-- A message that is on its way is processed. -/
theorem Sound.deliver_message (h : P.Sound scenario S) (hopen : ¬ P.Over) {s : Side} (hwaiting : P.Waiting (.receive s)) :
    ∃ P', P.step (.receive s) = some P' ∧ P'.server = P.server ∧ P'.budget < P.budget := by
  obtain ⟨L, hL, hne⟩ := hwaiting
  obtain ⟨⟨msg, cause⟩, down, hdown⟩ := List.exists_cons_of_ne_nil hne
  have hlink : P.links s = some L := hL
  obtain ⟨hloop, hall⟩ := h.attentive hopen s L hL
  rw [hdown, List.forall_mem_cons] at hall
  have hready : WaryPlayer.Ready L.client.player msg :=
    (h.upToDate s).ready (h.consistent s) h.standing (fun hover => hopen (h.over_iff.mpr hover)) hL hdown
  obtain ⟨⟨client, out⟩, htake⟩ := Client.take_ok hready
  have hrecv : L.client.recv msg = .ok (client, out) := by rwa [Client.recv, if_pos hall.1.1]
  have hsession : (P.side s).step PlayerAuto.new s .receive = some { P.side s with
      link := some { L with client := client, down := down, up := L.up ++ out } } := by
    simp only [Session.step, side, hlink, Option.bind_eq_bind, Option.bind_some, hdown, hloop, hrecv]
  have hstep : P.step (.receive s) = some { P with
      links := Function.update P.links s (some { L with client := client, down := down, up := L.up ++ out }) } := by
    rw [Party.step, hsession]
    rfl
  refine ⟨_, hstep, rfl, Nat.add_lt_add_left (Finset.sum_lt_sum (fun t _ => ?_) ?_) _⟩
  · by_cases ht : t = s
    · subst ht
      simp [waiting, hlink, hdown]
    · simp [waiting, ht]
  · exact ⟨s, Finset.mem_univ s, by simp [waiting, hlink, hdown]⟩

/-- What an accepted card puts into the channels. -/
theorem Sound.waiting_accepted (h : P.Sound scenario S) {side : Side} {card : Card} (heff : Server.Effect P.server e b σ')
    (hacc : Server.Accepted P.server side card σ') (t : Side) :
    Party.waiting ⟨σ', fun t => (P.side t).relink PlayerAuto.new t e σ'⟩ t ≤ P.waiting t + 5 := by
  cases hL' : (P.side t).relink PlayerAuto.new t e σ' with
  | none => simp [waiting, hL']
  | some L' =>
      obtain ⟨hseat', hdown⟩ := (h.consistent t).down_relink h.standing.book heff hL'
      rw [hacc.sameSeats.activeSides] at hseat'
      have hfew := (hacc.announces (h.standing.book.side_unique hseat')).length_le
      have hlen : Party.waiting ⟨σ', fun t => (P.side t).relink PlayerAuto.new t e σ'⟩ t =
          (L'.down.map Prod.fst).length := by
        simp [waiting, hL']
      rw [hlen]
      rcases hdown with ⟨-, -, -, hdown⟩ | ⟨L, hlink, -, -, -, hdown⟩
      · rw [hdown]
        exact hfew.trans (Nat.le_add_left _ _)
      · have hbefore : P.waiting t = (L.down.map Prod.fst).length := by
          simp [waiting, show P.links t = some L from hlink]
        rw [hdown, List.length_append, hbefore]
        exact Nat.add_le_add_left hfew _

/-- A card that is on its way is accepted. -/
theorem Sound.deliver_card (h : P.Sound scenario S) (hpc : P.server.playersConnected = 4) (hopen : ¬ P.Over) {n : Nat}
    {card : Card} {ix : Nat} (hwaiting : P.Waiting (.call (.playerTricked n card ix))) :
    ∃ P' s, P.step (.call (.playerTricked n card ix)) = some P' ∧ Server.Accepted P.server s card P'.server ∧
      P'.budget < P.budget := by
  obtain ⟨s, L, hL, rfl, hhead⟩ := hwaiting
  have hlink : (P.side s).link = some L := hL
  obtain ⟨rest, hup⟩ := List.head?_eq_some_iff.mp hhead
  have howes := (h.upToDate s).owes L hL
  rw [hup] at howes
  obtain ⟨-, hno, hturn, hlegal, -⟩ := howes.offered
  have hgood : P.server.admits n card s := ⟨hno, hturn, hlegal⟩
  obtain ⟨σ', hhandle, hside, hacc⟩ := Server.offered_ok h.standing h.held hpc
    (fun hover => hopen (h.over_iff.mpr hover)) ((h.consistent s).seated hL) hgood
  -- no other client has the worker
  have hallows : ∀ t, (P.side t).Allows t (.playerTricked n card L.worker) := by
    intro t ht
    obtain rfl : s = t := Option.some.inj (hside.symm.trans ht)
    rw [hlink]
    exact (if_pos rfl).trans hhead
  have hstep : P.step (.call (.playerTricked n card L.worker)) =
      some ⟨σ', fun t => (P.side t).relink PlayerAuto.new t (.playerTricked n card L.worker) σ'⟩ := by
    simp only [Party.step]
    rw [if_pos hallows, hhandle]
  refine ⟨_, s, hstep, hacc, ?_⟩
  -- there is one card less, and five messages more for each side
  obtain ⟨S', hplay, hmirrors'⟩ := h.standing.mirrors.accepted hgood hacc
  have hcards := h.standing.mirrors.cardsLeft
  have hcards' := hmirrors'.cardsLeft
  rw [State.play_history hplay, List.length_append, List.length_singleton] at hcards'
  have hsum := Finset.sum_le_sum fun t (_ : t ∈ Finset.univ) =>
    h.waiting_accepted (Server.handle_effect hhandle) hacc t
  rw [Finset.sum_add_distrib, Finset.sum_const, Finset.card_univ, show Fintype.card Side = 4 from rfl, smul_eq_mul] at hsum
  simp only [budget]
  omega

/-- **What is on its way gets there**, and less is left to be done. -/
theorem Sound.deliver {ev : Event} (h : P.Sound scenario S) (hpc : P.server.playersConnected = 4) (hopen : ¬ P.Over)
    (hwaiting : P.Waiting ev) :
    ∃ P', P.step ev = some P' ∧ P'.server.playersConnected = 4 ∧ P'.budget < P.budget := by
  cases ev with
  | receive s =>
      obtain ⟨P', hstep, hserver, hless⟩ := h.deliver_message hopen hwaiting
      exact ⟨P', hstep, hserver ▸ hpc, hless⟩
  | call e =>
      cases e with
      | playerTricked n card ix =>
          obtain ⟨P', s, hstep, hacc, hless⟩ := h.deliver_card hpc hopen hwaiting
          exact ⟨P', hstep, hacc.sameSeats.playersConnected.trans hpc, hless⟩
      | _ => exact hwaiting.elim

/-- **Something is on its way** while the game goes on. -/
theorem Sound.waiting (h : P.Sound scenario S) (hpc : P.server.playersConnected = 4) (hopen : ¬ P.Over) :
    ∃ ev, P.Waiting ev := by
  obtain ⟨ix, hix⟩ := h.standing.book.full hpc.ge P.server.game.nextMove
  obtain ⟨L, hL, -⟩ := ((h.consistent P.server.game.nextMove).seat ix).mp hix
  rcases h.engaged hopen hpc L hL with hup | hanswers
  · obtain ⟨⟨n, card⟩, rest, hrest⟩ := List.exists_cons_of_ne_nil hup
    exact ⟨.call (.playerTricked n card L.worker), P.server.game.nextMove, L, hL, rfl, by rw [hrest]; rfl⟩
  · refine ⟨.receive P.server.game.nextMove, L, hL, fun hnone => hanswers ?_⟩
    rw [hnone]
    trivial

/-- What a delivery keeps and brings down. -/
theorem Sound.delivered {ev : Event} (h : P.Sound scenario S) (hpc : P.server.playersConnected = 4) (hopen : ¬ P.Over)
    (hwaiting : P.Waiting ev) (hstep : P.step ev = some P') :
    (∃ S', P'.Sound scenario S') ∧ P'.server.playersConnected = 4 ∧ P'.budget < P.budget := by
  obtain ⟨P₁, hstep₁, hpc₁, hless⟩ := h.deliver hpc hopen hwaiting
  obtain rfl : P₁ = P' := Option.some.inj (hstep₁.symm.trans hstep)
  refine ⟨h.step hstep fun hrejoins => ?_, hpc₁, hless⟩
  -- nobody sits down
  cases ev with
  | receive s => exact hrejoins.elim
  | call e =>
      cases e with
      | playerIntro => exact hwaiting.elim
      | _ =>
          obtain ⟨s, hs⟩ := hrejoins
          exact hs.elim

end Steps

/-- **Four automatic players bring every game to its end.**  Whatever has happened before: in a state in which four
players are connected, some sequence of deliveries leads to the end of the game.  No delivery fails before, a
sequence of deliveries is no longer than the budget, and it can be continued until the game is over. -/
theorem brings_to_end {scenario : GameScenario} {timeout : Int} {σ₀ : Server} {evs : List Event} {P : Party}
    (h₀ : Server.start scenario timeout = .ok σ₀) (h : exec step (opened σ₀) evs = some P)
    (hdeck : (∀ r ∈ scenario, r.SplitsDeck) ∨ Guarded step (fun P ev => ¬ P.Rejoins ev) (opened σ₀) evs)
    (hpc : P.server.playersConnected = 4) :
    (∃ devs P', exec step P devs = some P' ∧ Guarded step (fun P ev => ¬ P.Over ∧ P.Waiting ev) P devs ∧ P'.Over) ∧
      ∀ devs P', exec step P devs = some P' → Guarded step (fun P ev => ¬ P.Over ∧ P.Waiting ev) P devs →
        devs.length + P'.budget ≤ P.budget ∧
          (P'.Over ∨ (∃ ev, P'.Waiting ev) ∧ ∀ ev, P'.Waiting ev → (P'.step ev).isSome) := by
  have hsound := sound_run h₀ h hdeck
  have hstep : ∀ (P : Party) (ev : Event) (P' : Party),
      ((∃ S, P.Sound scenario S) ∧ P.server.playersConnected = 4) → (¬ P.Over ∧ P.Waiting ev) → P.step ev = some P' →
      ((∃ S, P'.Sound scenario S) ∧ P'.server.playersConnected = 4) ∧ P'.budget < P.budget := by
    rintro P ev P' ⟨⟨S, hS⟩, hpc⟩ ⟨hopen, hwaiting⟩ hstep
    obtain ⟨hS', hpc', hless⟩ := hS.delivered hpc hopen hwaiting hstep
    exact ⟨⟨hS', hpc'⟩, hless⟩
  refine ⟨exists_exec_done ⟨hsound, hpc⟩ hstep ?_, fun devs P' hdevs hg => ?_⟩
  · rintro P ⟨⟨S, hS⟩, hpc⟩ hopen
    obtain ⟨ev, hwaiting⟩ := hS.waiting hpc hopen
    obtain ⟨P', hstep, -⟩ := hS.deliver hpc hopen hwaiting
    exact ⟨ev, P', ⟨hopen, hwaiting⟩, hstep⟩
  · obtain ⟨⟨⟨S, hS⟩, hpc'⟩, hlength⟩ := hg.length_le hdevs ⟨hsound, hpc⟩ hstep
    refine ⟨hlength, or_iff_not_imp_left.mpr fun hopen => ⟨hS.waiting hpc' hopen, fun ev hwaiting => ?_⟩⟩
    obtain ⟨P'', hstep', -⟩ := hS.deliver hpc' hopen hwaiting
    rw [hstep']
    rfl

/-- `N` puts the first card, and leaves when `E` is about to put the second one; another player has come for `N`. -/
def oneLeaves : List Event :=
  Server.fourPlayers.map .call ++ [.receive .N, .receive .N, .call (.playerTricked 1 ⟨.A, .colorC⟩ 1), .receive .E,
    .receive .E, .call (.grandExitCallback [] 1 false), .call .forwardConnection, .call (.playerIntro .N 5)]

theorem brings_to_end_oneLeaves :
    ∃ P, exec step (opened (Server.started [suitRound] 5 suitRound)) oneLeaves = some P ∧ ¬ P.Over ∧
      ∃ devs P', exec step P devs = some P' ∧ P'.Over := by
  have hfacts : (exec step (opened (Server.started [suitRound] 5 suitRound)) oneLeaves).map
      (fun P => decide (P.server.playersConnected = 4 ∧ ¬ P.Over)) = some true := by decide +kernel
  obtain ⟨P, hP, heq⟩ := Option.map_eq_some_iff.mp hfacts
  obtain ⟨hpc, hopen⟩ := of_decide_eq_true heq
  have hdeck : ∀ r ∈ [suitRound], r.SplitsDeck := by
    intro r hr
    rw [List.mem_singleton.mp hr]
    decide +kernel
  obtain ⟨⟨devs, P', hdevs, -, hover⟩, -⟩ := brings_to_end (Server.start_cons suitRound [] 5) hP (.inl hdeck) hpc
  exact ⟨P, hP, hopen, devs, P', hdevs, hover⟩

/-- `N` and `S` have the two of hearts; `E` leads the ace of diamonds and then the ace of hearts. -/
def heartDeal : TableState :=
  Function.update Session.twinDeal .E ((Session.twinDeal .E).tail ++ [⟨.A, .colorD⟩])

def heartRound : Round := ⟨.trickPenalty, heartDeal, .E, by decide⟩

/-- The player that comes for `N` behind the first trick strikes the two of hearts out of its hand, as `S` has
discarded its own.  It puts a club on the ace of hearts and is told that it is wrong. -/
def standsStill : List Event :=
  Server.fourPlayers.map .call ++ [.receive .E, .receive .E, .call (.playerTricked 1 ⟨.A, .colorD⟩ 2), .receive .S,
    .receive .S, .call (.playerTricked 1 ⟨.v2, .colorH⟩ 3), .receive .W, .receive .W,
    .call (.playerTricked 1 ⟨.v2, .colorD⟩ 4), .receive .N, .receive .N, .call (.playerTricked 1 ⟨.v2, .colorC⟩ 1),
    .call (.grandExitCallback [] 1 false), .call .forwardConnection, .call (.playerIntro .N 5), .receive .E,
    .receive .E, .receive .E, .call (.playerTricked 2 ⟨.A, .colorH⟩ 2), .receive .S, .receive .S,
    .call (.playerTricked 2 ⟨.v2, .colorS⟩ 3), .receive .W, .receive .W, .call (.playerTricked 2 ⟨.v3, .colorD⟩ 4),
    .receive .N, .receive .N, .receive .N, .call (.playerTricked 2 ⟨.v3, .colorC⟩ 5), .receive .N]

/-- Then the game goes on no further by itself. -/
theorem not_brings_to_end_standsStill :
    ∃ P, exec step (opened (Server.started [heartRound] 5 heartRound)) standsStill = some P ∧
      P.server.playersConnected = 4 ∧ ¬ P.Over ∧ ∀ ev, ¬ P.Waiting ev := by
  have hfacts : (exec step (opened (Server.started [heartRound] 5 heartRound)) standsStill).map
      (fun P => decide (P.server.playersConnected = 4 ∧ ¬ P.Over ∧
        ∀ s, ∀ L ∈ P.links s, L.down = [] ∧ L.up = [])) = some true := by decide +kernel
  obtain ⟨P, hP, heq⟩ := Option.map_eq_some_iff.mp hfacts
  obtain ⟨hpc, hopen, hidle⟩ := of_decide_eq_true heq
  refine ⟨P, hP, hpc, hopen, fun ev hwaiting => ?_⟩
  cases ev with
  | receive s =>
      obtain ⟨L, hL, hne⟩ := hwaiting
      exact hne (hidle s L hL).1
  | call e =>
      cases e with
      | playerTricked n card ix =>
          obtain ⟨s, L, hL, -, hhead⟩ := hwaiting
          rw [(hidle s L hL).2] at hhead
          cases hhead
      | _ => exact hwaiting

end Party

end Kierki
