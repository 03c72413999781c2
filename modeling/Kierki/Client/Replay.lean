import Kierki.Client.Consistency
import Kierki.Client.Dispatch

/-!
# A client that comes back in mid-round

The client that takes a free side while a round is under way hears its deal again, then the tricks that have
been taken, and a prompt if it completes the table and is to move.  It strikes the cards of these tricks out
of its deal.  If the deals split the deck, it is left with the hand that the server has for its side, and
with the card that its side has on the table (`replay_rebuilds`); the automatic player has put a card out of
these already if it was prompted.
-/

namespace Kierki

open TrickGame Execution Fallible

/-- A deal is out, and its last trick has not been taken. -/
def Server.MidRound (σ : Server) : Prop := σ.lastDeal ≠ none ∧ σ.game.trickNo ≤ TRICKS_PER_ROUND

theorem Understood.readable {job : SendJob} (h : Understood job) : job.Readable := by
  obtain ⟨k, hdir, hvalid, -⟩ := h
  obtain rfl := Client.kind_eq hvalid hdir
  exact ⟨hdir, hvalid⟩

namespace Client

variable {α : Type} [Player α] {c c' : Client α} {out : List (Nat × Card)}

theorem recvAll_cons {msg : SendJob} {msgs : List SendJob} {c'' : Client α} {out' : List (Nat × Card)}
    (h : c.recv msg = .ok (c', out)) (h' : c'.recvAll msgs = .ok (c'', out')) :
    c.recvAll (msg :: msgs) = .ok (c'', out ++ out') := by
  rw [recvAll, h, ok_bind]
  dsimp only
  rw [h']
  rfl

theorem recvAll_append {msgs msgs' : List SendJob} {c'' : Client α} {out' : List (Nat × Card)}
    (h : c.recvAll msgs = .ok (c', out)) (h' : c'.recvAll msgs' = .ok (c'', out')) :
    c.recvAll (msgs ++ msgs') = .ok (c'', out ++ out') := by
  induction msgs generalizing c out with
  | nil =>
      cases h
      exact h'
  | cons msg msgs ih =>
      obtain ⟨⟨c₁, out₁⟩, hmsg, h⟩ := bind_eq_ok.mp h
      obtain ⟨⟨c₂, out₂⟩, hrest, h⟩ := bind_eq_ok.mp h
      cases h
      rw [List.append_assoc]
      exact recvAll_cons hmsg (ih hrest)

/-- A readable deal or trick is processed, and no card is put. -/
theorem recv_told [LawfulPlayer α] (c : Client α) {msg : SendJob} (hread : msg.Readable)
    (hkind : msg.kind = .deal ∨ msg.kind = .taken) :
    ∃ c', c.recv msg = .ok (c', []) ∧ c'.stage = c.stage.next msg ∧ c'.ledger = c.ledger.hear c.stage msg := by
  obtain ⟨c', hc'⟩ : ∃ c', c.recv msg = .ok (c', []) := by
    rw [recv, if_pos hread]
    rcases hkind with hkind | hkind <;> cases msg <;> cases hkind <;> exact ⟨_, rfl⟩
  refine ⟨c', hc', ?_⟩
  obtain ⟨-, hstage, ⟨-, hledger, -⟩ | ⟨_, _, _, -, hout, -⟩⟩ := recv_spec hc'
  · exact ⟨hstage, hledger⟩
  · cases hout

theorem recvAll_told [LawfulPlayer α] (c : Client α) (msgs : List SendJob) (f : SendJob → Option Cause)
    (h : ∀ msg ∈ msgs, msg.Readable ∧ (msg.kind = .deal ∨ msg.kind = .taken)) :
    ∃ c', c.recvAll msgs = .ok (c', []) ∧
      (c'.stage, c'.ledger) = Ledger.hearAll (c.stage, c.ledger) (msgs.map fun msg => (msg, f msg)) := by
  induction msgs generalizing c with
  | nil => exact ⟨c, rfl, rfl⟩
  | cons msg msgs ih =>
      obtain ⟨hread, hkind⟩ := h msg List.mem_cons_self
      obtain ⟨c₁, hmsg, hstage, hledger⟩ := c.recv_told hread hkind
      obtain ⟨c₂, hrest, hheard⟩ := ih c₁ fun m hm => h m (List.mem_cons_of_mem msg hm)
      refine ⟨c₂, recvAll_cons hmsg hrest, ?_⟩
      · rw [hheard, hstage, hledger]
        rfl

/-- A prompt for a player with a card: its hand and what it puts make up the hand it had. -/
theorem recv_prompt [LawfulPlayer α] (c : Client α) {t : Table} {n : Nat} (hread : (SendJob.trick t n).Readable)
    (hready : ∃ res, Player.trickMsg c.player n t = .ok res) :
    ∃ c' out, c.recv (.trick t n) = .ok (c', out) ∧
      c'.ledger.hand + (out.map Prod.snd : Multiset Card) = c.ledger.hand := by
  obtain ⟨⟨c', out⟩, hok⟩ : ∃ res, c.recv (.trick t n) = .ok res := by
    obtain ⟨⟨player, put⟩, hput⟩ := hready
    rw [recv, if_pos hread, take, hput]
    cases put <;> exact ⟨_, rfl⟩
  refine ⟨c', out, hok, ?_⟩
  obtain ⟨-, -, ⟨rfl, hledger, -⟩ | ⟨_, _, card, -, rfl, hcard, hledger, -⟩⟩ := recv_spec hok
  · rw [hledger]
    exact add_zero _
  · rw [hledger]
    show c.ledger.hand.erase card + {card} = c.ledger.hand
    rw [add_comm, Multiset.singleton_add, Multiset.cons_erase hcard]

end Client

section Join

variable {scenario : GameScenario} {s : Side} {σ σ' : Server} {S : CardGame}

/-- A side that is prompted has a card. -/
theorem Mirrors.turn_hand (h : Mirrors scenario σ S) (hgo : σ.game.trickNo ≤ TRICKS_PER_ROUND)
    (hturn : σ.game.nextMove = s) : S.laid s = [] ∧ S.hands s ≠ [] := by
  have hlaid : S.laid s = [] := by
    rw [← hturn, h.game.nextMove]
    exact h.sound.laid_turn
  refine ⟨hlaid, fun hnone => ?_⟩
  have hsize := h.hand_size s
  have hcount : (S.plays.map Play.seat).count s = 0 := by
    rw [← length_cardsOf, ← State.laid, hlaid, List.length_nil]
  rw [h.game.trickNo] at hgo
  rw [hnone, hcount, List.length_nil] at hsize
  omega

/-- A worker that says `IAM` for a free side gets it. -/
theorem Server.Effect.seats {ix : Nat} {b : Bool} (h : Effect σ (.playerIntro s ix) b σ')
    (hfree : σ.activeSides s = none) (hrole : σ.workerMgr.roles.find? ix = some .servingUnknown) :
    σ'.activeSides s = some ix := by
  cases h with
  | introLobby | introFirstDeal | introRejoin | introResume => simp [Server.seated]
  | introParked side ix role hrole' hne | introAgain side ix role mgr hrole' hne =>
      exact absurd (Option.some.inj (hrole'.symm.trans hrole)) hne
  | introBusy side ix jx mgr _ hseat =>
      rw [hfree] at hseat
      cases hseat

variable {α : Type} [Player α] [LawfulPlayer α]

/-- **A fresh client hears what is replayed to it.** -/
theorem Standing.replay (fresh : α) {ix : Nat} {b : Bool} (hfresh : Player.ledger fresh = ⟨0, []⟩)
    (hready : ∀ (p : α) t n, Player.hand p ≠ [] → ∃ res, Player.trickMsg p n t = .ok res)
    (h : Standing scenario σ S) (hdeck : ∀ r ∈ scenario, r.SplitsDeck) (hmid : σ.MidRound)
    (heff : Server.Effect σ (.playerIntro s ix) b σ') (hfree : σ.activeSides s = none)
    (hrole : σ.workerMgr.roles.find? ix = some .servingUnknown) :
    ∃ c out, (Client.new fresh).recvAll (Server.received σ σ' ix) = .ok (c, out) ∧
      c.ledger.hand + (out.map Prod.snd : Multiset Card) =
        (σ.game.hands s : Multiset Card) + (σ.game.laid s : Multiset Card) := by
  have hdeals : Server.Delivers σ s ix (.playerIntro s ix) σ' (Server.received σ σ' ix) :=
    heff.delivers h.book (heff.seats hfree hrole)
  generalize Server.received σ σ' ix = msgs at hdeals
  obtain ⟨hdealt, hgo⟩ := hmid
  rw [h.mirrors.game.hands, h.mirrors.laid s]
  cases hdeals with
  | quiet e σ' hseat => rw [hfree] at hseat; cases hseat
  | resume side jx deal σ' hne => exact absurd rfl hne
  | lobby σ' _ _ _ _ hold => exact absurd hold hdealt
  | firstDeal side jx σ' _ _ _ _ hold => exact absurd hold hdealt
  | rejoin deal σ' _ _ hgame hold _ =>
      -- the deal and the tricks
      have htold : ∀ msg ∈ σ.game.msgDeal (deal s) :: σ.game.takenInRound,
          msg.Readable ∧ (msg.kind = .deal ∨ msg.kind = .taken) := by
        intro msg hmsg
        rcases List.mem_cons.mp hmsg with rfl | hmsg
        · exact ⟨⟨rfl, h.dealt.again deal hold s⟩, .inl rfl⟩
        · refine ⟨(h.mirrors.understood_taken hmsg).readable, .inr ?_⟩
          rw [h.mirrors.game.takenInRound] at hmsg
          obtain ⟨t, -, rfl⟩ := List.mem_map.mp hmsg
          rfl
      obtain ⟨c, hc, hheard⟩ := (Client.new fresh).recvAll_told _ (fun _ => none) htold
      obtain ⟨-, heq⟩ : Ledger.Smooth True _ _ ∧ _ :=
        h.heard (s := s) hold (f := fun _ => none) fun _ => rfl
      have hstart : ((Client.new fresh).stage, (Client.new fresh).ledger) = (.pre, ⟨0, []⟩) := by
        rw [Client.ledger, Client.new, hfresh]
      rw [hstart, heq] at hheard
      have hhand : c.ledger.hand = (S.hands s : Multiset Card) + (S.laid s : Multiset Card) := by
        rw [(Prod.mk.inj hheard).2]
        exact h.shares.deal_sub_done (h.mirrors.apart hdeck) s
      rw [← List.cons_append]
      by_cases hprompt : σ.playersConnected + 1 = 4 ∧ σ.game.nextMove = s
      · -- and a prompt
        obtain ⟨hpc, hturn⟩ := hprompt
        rw [if_pos hpc, Server.promptFor, if_pos hturn]
        have hread : σ.game.msgTrick.Readable :=
          (h.mirrors.understood_prompt (by omega)).readable
        obtain ⟨-, hsome⟩ := h.mirrors.turn_hand hgo hturn
        have hcard : Player.hand c.player ≠ [] := by
          intro hnone
          have hzero : c.ledger.hand = 0 := congrArg ((↑) : List Card → Multiset Card) hnone
          rw [hzero] at hhand
          exact hsome (Multiset.coe_eq_zero _ |>.mp (add_eq_zero.mp hhand.symm).1)
        obtain ⟨c', out, hc', hboth⟩ := c.recv_prompt hread (hready c.player _ _ hcard)
        exact ⟨c', [] ++ (out ++ []), Client.recvAll_append hc (Client.recvAll_cons hc' rfl),
          by simpa [hhand] using hboth⟩
      · have hnone : (if σ.playersConnected + 1 = 4 then Server.promptFor σ.game s else []) = [] := by
          split
          · rename_i hpc
            exact if_neg fun hturn => hprompt ⟨hpc, hturn⟩
          · rfl
        rw [hnone, List.append_nil]
        exact ⟨c, [], hc, by simpa using hhand⟩

end Join

namespace Session

section Answers

variable {α : Type} [Player α]

/-- The cards that the client sends in a step. -/
def sends (W : Session α) : Event → List (Nat × Card)
  | .call _ => []
  | .receive =>
      ((W.link.bind fun L => L.down.head?.bind fun q => (L.client.recv q.1).toOption).map Prod.snd).getD []
  | .command cmd => ((W.link.bind fun L => (L.client.command true cmd).toOption).map Prod.snd).getD []

/-- The client sends a card only when it has an answer for the one before. -/
def AnswersOnce (W : Session α) (ev : Event) : Prop :=
  W.sends ev = [] ∨ (W.link.map fun L => Player.lastCards L.client.player) = some []

instance (W : Session α) (ev : Event) : Decidable (W.AnswersOnce ev) :=
  inferInstanceAs (Decidable (_ ∨ _))

/-- A trick that is taken leaves the client with the hand that the server had for its side behind the trick. -/
def Settles (W : Session α) : Prop :=
  ∀ L cards t n hand down client out, W.link = some L →
    L.down = (.taken cards t n, some (.trickTaken hand)) :: down →
    L.client.recv (.taken cards t n) = .ok (client, out) → (Player.hand client.player).Perm hand

end Answers

variable {α : Type} [Player α] {fresh : α} {s : Side} {scenario : GameScenario} {W₀ W W' : Session α} {S : CardGame}

/-- One card at most has no answer. -/
def OneOut (W : Session α) : Prop :=
  ∀ L, W.link = some L → L.crossed = false ∧ L.client.ledger.last.length ≤ 1

theorem length_hear (l : Ledger) (stage : GameStage) (msg : SendJob) :
    (l.hear stage msg).last.length ≤ l.last.length := by
  obtain ⟨hand, last⟩ := l
  cases msg with
  | taken cards t n =>
      by_cases hstage : stage = .afterFirstDeal <;> simp [Ledger.hear, hstage, Ledger.strike, Ledger.settle]
  | wrong n => cases last <;> simp [Ledger.hear, Ledger.takeBack]
  | deal | trick | score | total | busy | intro => exact le_rfl

theorem length_hearAll (p : GameStage × Ledger) (qs : List Parcel) :
    (Ledger.hearAll p qs).2.last.length ≤ p.2.last.length := by
  induction qs generalizing p with
  | nil => exact le_rfl
  | cons q qs ih => exact (ih _).trans (length_hear p.2 p.1 q.1)

/-- A client with one card out is not there with a second one while the first is on the table. -/
theorem Consistent.not_crosses (h : W.Consistent scenario s S) (hstand : Standing scenario W.server S)
    (hone : W.OneOut) {e : Server.Call} (hallows : W.Allows s e) {L : Link α} (hL : W.link = some L)
    (htakes : TakesUp s W.server e) : W.server.game.laid s = [] := by
  obtain ⟨hcrossed, hshort⟩ := hone L hL
  cases e with
  | playerTricked n card ix =>
      obtain ⟨hpc, hside⟩ := htakes
      obtain ⟨-, rest, hup⟩ := hallows.offered hside hL
      have hdealt : W.server.lastDeal ≠ none := fun hnone => by
        have hfew := (hstand.dealt.first hnone).1
        omega
      rw [hstand.mirrors.laid s]
      cases (h.sound L hL hcrossed).tally hdealt with
      | catchingUp _ _ _ _ hnone =>
          rw [Link.sent, hup] at hnone
          cases hnone
      | inStep _ _ _ hlast _ =>
          have hbound := (length_hearAll (L.client.stage, L.client.ledger) L.down).trans hshort
          rw [← Link.ahead, hlast, Link.sent, hup, List.length_append, List.map_cons, List.length_cons] at hbound
          exact List.length_eq_zero_iff.mp (by omega)
  | _ => exact htakes.elim

variable [LawfulPlayer α]

/-- **Every step** of a client that answers once keeps it at one card. -/
theorem OneOut.step (h : W.OneOut) (hW : W.Consistent scenario s S) (hstand : Standing scenario W.server S)
    (hfresh : Player.ledger fresh = ⟨0, []⟩) {ev : Event} (honce : W.AnswersOnce ev)
    (hstep : W.step fresh s ev = some W') : W'.OneOut := by
  -- what the client has sent before it puts a card
  have hnone {L : Link α} (hL : W.link = some L) (hsent : W.sends ev ≠ []) : L.client.ledger.last = [] := by
    have hlast := honce.resolve_left hsent
    rw [hL] at hlast
    exact Option.some.inj hlast
  cases ev with
  | call e =>
      obtain ⟨hallows, b, σ', -, rfl⟩ := step_call hstep
      intro L hL
      change W.relink fresh s e σ' = some L at hL
      unfold relink at hL
      split at hL
      · cases hL
      · cases hL
        refine ⟨rfl, ?_⟩
        show (Player.ledger fresh).last.length ≤ 1
        rw [hfresh]
        exact Nat.zero_le 1
      · rename_i L₀ _ hlink
        cases hL
        obtain ⟨hcrossed, hshort⟩ := h L₀ hlink
        refine ⟨?_, hshort⟩
        simp only [stay, hcrossed, Bool.false_or, decide_eq_false_iff_not]
        rintro ⟨htakes, hlaid⟩
        exact hlaid (hW.not_crosses hstand h hallows hlink htakes)
  | receive =>
      obtain ⟨L₀, msg, cause, down, client, out, hL₀, hdown, hrecv, rfl⟩ := step_receive hstep
      rintro L ⟨⟩
      obtain ⟨hcrossed, hshort⟩ := h L₀ hL₀
      refine ⟨hcrossed, ?_⟩
      obtain ⟨-, -, ⟨-, hledger, -⟩ | ⟨t, n, card, -, rfl, -, hledger, -⟩⟩ := Client.recv_spec hrecv
      · rw [hledger]
        exact (length_hear _ _ _).trans hshort
      · rw [hledger, Ledger.put, hnone hL₀ (by simp [sends, hL₀, hdown, hrecv, Except.toOption])]
        exact le_rfl
  | command cmd =>
      obtain ⟨L₀, client, out, hL₀, hcommand, rfl⟩ := step_command hstep
      rintro L ⟨⟩
      obtain ⟨hcrossed, hshort⟩ := h L₀ hL₀
      refine ⟨hcrossed, ?_⟩
      obtain ⟨-, ⟨-, hledger, -⟩ | ⟨card, rfl, -, hledger, -, -⟩⟩ := Client.command_spec hcommand
      · rw [hledger]
        exact hshort
      · rw [hledger, Ledger.put, hnone hL₀ (by simp [sends, hL₀, hcommand, Except.toOption])]
        exact le_rfl

/-- A trick is taken when the client has one card out at most. -/
theorem Consistent.settles (h : W.Consistent scenario s S) (hone : W.OneOut)
    (hdeck : ∀ r ∈ scenario, r.SplitsDeck) : W.Settles := by
  intro L cards t n hand down client out hL hdown hrecv
  obtain ⟨hcrossed, hshort⟩ := hone L hL
  have hsound := h.sound L hL hcrossed
  have hsmooth := hsound.smooth
  rw [hdown] at hsmooth
  obtain ⟨⟨-, hcount⟩, -⟩ := hsmooth
  have hboth := hcount hand (fun _ => hdeck) rfl
  obtain ⟨-, -, ⟨-, hledger, -⟩ | ⟨_, _, _, hmsg, -⟩⟩ := Client.recv_spec hrecv
  swap
  · cases hmsg
  have hlast : (L.client.ledger.hear L.client.stage (.taken cards t n)).last = [] := by
    by_cases hstage : L.client.stage = .afterFirstDeal
    · -- no card is put before the first `TRICK`
      have hnone : L.client.ledger.last = [] := by
        by_contra hne
        exact (hsound.asked (.inr hne)).2 hstage
      simp [Ledger.hear, hstage, Ledger.strike, hnone]
    · simp only [Ledger.hear, if_neg hstage, Ledger.settle]
      rw [← List.length_eq_zero_iff, List.length_tail]
      omega
  rw [← hledger] at hboth hlast
  have hsame : client.ledger.hand = (hand : Multiset Card) := by simpa [hlast] using hboth
  exact Multiset.coe_eq_coe.mp hsame

/-- **A client that answers once settles every trick.** -/
theorem settles_run {σ : Server} {evs : List Event} (hfresh : Player.ledger fresh = ⟨0, []⟩)
    (hstand : Standing scenario σ S) (hfree : σ.activeSides s = none) (hdeck : ∀ r ∈ scenario, r.SplitsDeck)
    (h : exec (step fresh s) (opened σ) evs = some W)
    (honce : Guarded (step fresh s) AnswersOnce (opened σ) evs) : W.Settles := by
  have hone : W.OneOut := by
    refine exec_induction (P := fun evs W => Guarded (step fresh s) AnswersOnce (opened σ) evs → W.OneOut)
      (fun _ L hL => by cases hL) (fun evs W ev W' hevs ih hstep hguard => ?_) evs W h honce
    obtain ⟨hbefore, hev⟩ := guarded_concat hevs hguard
    obtain ⟨S', hstand', hW⟩ := consistent_run hfresh hstand (consistent_opened hfree) hevs
    exact (ih hbefore).step hW hstand' hfresh hev hstep
  obtain ⟨S', -, hW⟩ := consistent_run hfresh hstand (consistent_opened hfree) h
  exact hW.settles hone hdeck

/-- The console puts a card only when its user says so. -/
theorem recvAll_console {c c' : Client PlayerConsole} {msgs : List SendJob} {out : List (Nat × Card)}
    (h : c.recvAll msgs = .ok (c', out)) : out = [] := by
  induction msgs generalizing c out with
  | nil =>
      cases h
      rfl
  | cons msg msgs ih =>
      obtain ⟨⟨c₁, out₁⟩, hmsg, h⟩ := bind_eq_ok.mp h
      obtain ⟨⟨c₂, out₂⟩, hrest, h⟩ := bind_eq_ok.mp h
      cases h
      rw [ih hrest, List.append_nil]
      unfold Client.recv at hmsg
      split at hmsg
      swap
      · cases hmsg
      cases msg with
      | score res | total res =>
          obtain ⟨player, -, hmsg⟩ := bind_eq_ok.mp hmsg
          cases hmsg
          rfl
      | trick | deal | taken | wrong | busy | intro =>
          cases hmsg
          rfl

/-- **The replay rebuilds the hand.**  In mid-round a client that gets the free side `s` processes all that
is enqueued for it, and is left with the hand of its side and its card on the table; the automatic player
counts the card that it has put.  Later, a trick that is taken leaves a client that answers once with the
hand of its side. -/
theorem replay_rebuilds {scenario : GameScenario} {timeout : Int} {es : List Server.Call} {σ : Server}
    {s : Side} {ix : Nat} (hrun : Server.run scenario timeout es = some σ)
    (hdeck : ∀ r ∈ scenario, r.SplitsDeck) (hmid : σ.MidRound) (hfree : σ.activeSides s = none)
    (hrole : σ.workerMgr.roles.find? ix = some .servingUnknown) :
    (∀ b σ', σ.handle (.playerIntro s ix) = .ok (b, σ') →
      (∃ c, (Client.new (PlayerConsole.new s)).recvAll (Server.received σ σ' ix) = .ok (c, []) ∧
        c.player.localHand.Perm (σ.game.hands s ++ σ.game.laid s)) ∧
      ∃ c out, (Client.new PlayerAuto.new).recvAll (Server.received σ σ' ix) = .ok (c, out) ∧
        (c.player.hand ++ out.map Prod.snd).Perm (σ.game.hands s ++ σ.game.laid s)) ∧
    (∀ evs (W : Session PlayerConsole), exec (step (PlayerConsole.new s) s) (opened σ) evs = some W →
      Guarded (step (PlayerConsole.new s) s) AnswersOnce (opened σ) evs → W.Settles) ∧
    ∀ evs (W : Session PlayerAuto), exec (step PlayerAuto.new s) (opened σ) evs = some W →
      Guarded (step PlayerAuto.new s) AnswersOnce (opened σ) evs → W.Settles := by
  obtain ⟨S, hstand⟩ := standing_run hrun
  refine ⟨fun b σ' hhandle => ⟨?_, ?_⟩, fun evs W h honce => settles_run rfl hstand hfree hdeck h honce,
    fun evs W h honce => settles_run rfl hstand hfree hdeck h honce⟩
  · obtain ⟨c, out, hc, hhand⟩ := hstand.replay (PlayerConsole.new s) rfl (fun _ _ _ _ => ⟨_, rfl⟩)
      hdeck hmid (Server.handle_effect hhandle) hfree hrole
    obtain rfl := recvAll_console hc
    refine ⟨c, hc, Multiset.coe_eq_coe.mp ?_⟩
    rw [← Multiset.coe_add, ← hhand]
    exact (add_zero _).symm
  · have hready (p : PlayerAuto) (t : Table) (n : Nat) (hne : p.hand ≠ []) :
        ∃ res, p.trickMsg n t = .ok res := by
      unfold PlayerAuto.trickMsg
      obtain ⟨card, hand', hmove, -⟩ := Strategy.nextMove_spec hne t
      rw [hmove]
      split <;> exact ⟨_, rfl⟩
    obtain ⟨c, out, hc, hhand⟩ := hstand.replay PlayerAuto.new rfl hready hdeck hmid
      (Server.handle_effect hhandle) hfree hrole
    refine ⟨c, out, hc, Multiset.coe_eq_coe.mp ?_⟩
    rw [← Multiset.coe_add, ← Multiset.coe_add]
    exact hhand

/-- `N` puts the two of clubs and leaves, and another connection comes. -/
def leavesMidTrick : List Server.Call :=
  Server.fourPlayers ++ [.playerTricked 1 ⟨.v2, .colorC⟩ 1, .grandExitCallback [] 1 false, .forwardConnection]

/-- Its player says `IAM` for `N`, and the others end the trick. -/
def endsTrick : List Event :=
  [.call (.playerIntro .N 5), .receive, .call (.playerTricked 1 ⟨.v2, .colorD⟩ 2),
    .call (.playerTricked 1 ⟨.v2, .colorH⟩ 3), .call (.playerTricked 1 ⟨.v2, .colorS⟩ 4)]

theorem replay_rebuilds_leavesMidTrick :
    ∃ σ σ' W, Server.run [suitRound] 5 leavesMidTrick = some σ ∧ σ.game.laid .N = [⟨.v2, .colorC⟩] ∧
      σ.handle (.playerIntro .N 5) = .ok (true, σ') ∧
      (∃ c, (Client.new (PlayerConsole.new .N)).recvAll (Server.received σ σ' 5) = .ok (c, []) ∧
        c.player.localHand.Perm (σ.game.hands .N ++ σ.game.laid .N)) ∧
      exec (step (PlayerConsole.new .N) .N) (opened σ) endsTrick = some W ∧ W.Settles := by
  have hfacts : (Server.run [suitRound] 5 leavesMidTrick).map (fun σ => decide
      (σ.game.laid .N = [⟨.v2, .colorC⟩] ∧ σ.lastDeal.isSome = true ∧ σ.game.trickNo = 1 ∧
        σ.activeSides .N = none ∧ σ.workerMgr.roles.find? 5 = some .servingUnknown ∧
        (σ.handle (.playerIntro .N 5)).toOption.map Prod.fst = some true ∧
        (exec (step (PlayerConsole.new .N) .N) (opened σ) endsTrick).isSome = true ∧
        Guarded (step (PlayerConsole.new .N) .N) AnswersOnce (opened σ) endsTrick)) = some true := by
    decide +kernel
  obtain ⟨σ, hσ, heq⟩ := Option.map_eq_some_iff.mp hfacts
  obtain ⟨hlaid, hdealt, hno, hfree, hrole, hhandle, hevs, honce⟩ := of_decide_eq_true heq
  obtain ⟨⟨b, σ'⟩, hσ', hb⟩ := Option.map_eq_some_iff.mp hhandle
  obtain rfl : b = true := hb
  obtain ⟨W, hW⟩ := Option.isSome_iff_exists.mp hevs
  have hmid : σ.MidRound := ⟨Option.isSome_iff_ne_none.mp hdealt, by rw [hno]; decide⟩
  have hdeck : ∀ r ∈ [suitRound], r.SplitsDeck := by
    rintro r hr
    rw [List.mem_singleton.mp hr]
    decide +kernel
  have hσ' := ok_of_toOption hσ'
  obtain ⟨hjoin, hconsole, -⟩ := replay_rebuilds hσ hdeck hmid hfree hrole
  exact ⟨σ, σ', W, hσ, hlaid, hσ', (hjoin true σ' hσ').1, hW, hconsole endsTrick W hW honce⟩

/-- `N` leaves before its first card. -/
def leavesBeforeTrick : List Server.Call :=
  Server.fourPlayers ++ [.grandExitCallback [] 1 false, .forwardConnection]

/-- The automatic player that comes back hears its deal and the prompt, and has put a card when it has
processed them. -/
theorem not_replay_rebuilds_prompted :
    ∃ σ σ' c out, Server.run [suitRound] 5 leavesBeforeTrick = some σ ∧
      σ.handle (.playerIntro .N 5) = .ok (true, σ') ∧
      (Client.new PlayerAuto.new).recvAll (Server.received σ σ' 5) = .ok (c, out) ∧
      ¬ c.player.hand.Perm (σ.game.hands .N ++ σ.game.laid .N) := by
  have hfacts : (Server.run [suitRound] 5 leavesBeforeTrick).bind (fun σ =>
      (σ.handle (.playerIntro .N 5)).toOption.bind fun p =>
        (((Client.new PlayerAuto.new).recvAll (Server.received σ p.2 5)).toOption.map fun q =>
          (p.1, q.1.player.hand.length, (σ.game.hands .N ++ σ.game.laid .N).length))) =
      some (true, 12, 13) := by decide +kernel
  obtain ⟨σ, hσ, hσ'⟩ := Option.bind_eq_some_iff.mp hfacts
  obtain ⟨⟨b, σ'⟩, hhandle, hc⟩ := Option.bind_eq_some_iff.mp hσ'
  obtain ⟨⟨c, out⟩, hrecv, heq⟩ := Option.map_eq_some_iff.mp hc
  simp only [Prod.mk.injEq] at heq
  obtain ⟨rfl, hclient, hserver⟩ := heq
  refine ⟨σ, σ', c, out, hσ, ok_of_toOption hhandle, ok_of_toOption hrecv, fun hperm => ?_⟩
  rw [hperm.length_eq, hserver] at hclient
  exact absurd hclient (by decide)

end Session

end Kierki
