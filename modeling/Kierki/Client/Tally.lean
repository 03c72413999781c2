import Kierki.Client.Session

/-!
# The ledger of a client against the hand of its side

`Tallies accurate S s p up` compares a client in the stage and with the ledger `p`, whose cards `up` the
server has not taken up, with side `s` in the state `S` of the game.  A client that is still catching up,
because no `TRICK` has come since its first deal, counts the card that its side has on the table as its
own.  Any other client has put that card, and the cards `up` after it.  The cards `lost` are missing from
the hand of a client that has struck them out of a deal in which other sides have them too; there are none
if the count is `accurate`.

What each message does to this is one lemma for each kind of message.  `Smooth` says of the messages on
their way that a client can process them without losing count: a card is there whenever one is settled or
taken back, it is the card that was refused, and nothing is left of the old hand when a new one is dealt.
-/

namespace Kierki

open TrickGame

/-- A `TRICK` has come since the first deal, or another deal. -/
def GameStage.Going (stage : GameStage) : Prop := stage ≠ .pre ∧ stage ≠ .afterFirstDeal

instance (stage : GameStage) : Decidable stage.Going := by
  unfold GameStage.Going
  infer_instance

theorem GameStage.Going.next {stage : GameStage} (h : stage.Going) (msg : SendJob) :
    (stage.next msg).Going := by
  obtain ⟨hpre, hfirst⟩ := h
  cases msg <;> simp [GameStage.next, GameStage.Going, hpre, hfirst]

/-- A message with its cause. -/
abbrev Parcel := SendJob × Option Cause

namespace Ledger

/-- The stage and the ledger after some messages, no card being put. -/
def hearAll : GameStage × Ledger → List Parcel → GameStage × Ledger
  | p, [] => p
  | p, q :: qs => hearAll (p.1.next q.1, p.2.hear p.1 q.1) qs

@[simp] theorem hearAll_nil (p : GameStage × Ledger) : hearAll p [] = p := rfl

@[simp] theorem hearAll_cons (p : GameStage × Ledger) (q : Parcel) (qs : List Parcel) :
    hearAll p (q :: qs) = hearAll (p.1.next q.1, p.2.hear p.1 q.1) qs := rfl

theorem hearAll_append (p : GameStage × Ledger) (qs qs' : List Parcel) :
    hearAll p (qs ++ qs') = hearAll (hearAll p qs) qs' := by
  induction qs generalizing p with
  | nil => rfl
  | cons q qs ih => exact ih _

theorem hearAll_going {p : GameStage × Ledger} (qs : List Parcel) (h : p.1.Going) :
    (hearAll p qs).1.Going := by
  induction qs generalizing p with
  | nil => exact h
  | cons q qs ih => exact ih (h.next q.1)

/-- Once a client has a deal, the next one gets it going. -/
theorem hearAll_deal {p : GameStage × Ledger} {qs : List Parcel} (hpre : p.1 ≠ .pre)
    (hdeal : ∃ q ∈ qs, q.1.isDeal = true) : (hearAll p qs).1.Going := by
  induction qs generalizing p with
  | nil => simp at hdeal
  | cons q qs ih =>
      obtain ⟨q', hmem, hq'⟩ := hdeal
      rcases List.mem_cons.mp hmem with rfl | hmem
      · obtain ⟨msg, cause⟩ := q'
        cases msg with
        | deal mode starting cards =>
            refine hearAll_going qs ?_
            simp [GameStage.next, hpre, GameStage.Going]
        | _ => cases hq'
      · refine ih ?_ ⟨q', hmem, hq'⟩
        obtain ⟨msg, cause⟩ := q
        cases msg <;> simp [GameStage.next, hpre]

/-- The client can process a message without losing count. -/
def Fits (accurate : Prop) (p : GameStage × Ledger) (q : Parcel) : Prop :=
  match q.1 with
  | .deal _ _ _ => p.2.hand = 0 ∧ p.2.last = []
  | .taken _ _ _ => (p.1 ≠ .afterFirstDeal → p.2.last ≠ []) ∧
      ∀ hand : Hand, accurate → q.2 = some (.trickTaken hand) →
        (p.2.hear p.1 q.1).hand + ((p.2.hear p.1 q.1).last : Multiset Card) = (hand : Multiset Card)
  | .wrong _ => ∃ c, q.2 = some (.refused c) ∧ p.2.last.head? = some c
  | .trick _ _ | .score _ | .total _ | .busy _ | .intro _ => True

/-- It can process all messages on their way. -/
def Smooth (accurate : Prop) : GameStage × Ledger → List Parcel → Prop
  | _, [] => True
  | p, q :: qs => Fits accurate p q ∧ Smooth accurate (p.1.next q.1, p.2.hear p.1 q.1) qs

theorem smooth_append {accurate : Prop} {p : GameStage × Ledger} {qs qs' : List Parcel} :
    Smooth accurate p (qs ++ qs') ↔ Smooth accurate p qs ∧ Smooth accurate (hearAll p qs) qs' := by
  induction qs generalizing p with
  | nil => simp [Smooth]
  | cons q qs ih => simp [Smooth, ih, and_assoc]

/-- A card that is put before a message is processed might as well be put after it. -/
theorem hear_put {accurate : Prop} {stage : GameStage} {l : Ledger} {q : Parcel} {c : Card}
    (hgoing : stage.Going) (hc : c ∈ l.hand) (hfits : Fits accurate (stage, l) q) :
    Fits accurate (stage, l.put c) q ∧ (l.put c).hear stage q.1 = (l.hear stage q.1).put c ∧
      c ∈ (l.hear stage q.1).hand := by
  obtain ⟨hand, last⟩ := l
  obtain ⟨msg, cause⟩ := q
  cases msg with
  | deal mode starting cards =>
      -- the hand is empty when a new one comes
      obtain ⟨hempty, -⟩ := hfits
      simp only at hempty hc
      rw [hempty] at hc
      exact absurd hc (Multiset.notMem_zero c)
  | taken cards t n =>
      obtain ⟨hlast, hcause⟩ := hfits
      have hne : last ≠ [] := hlast hgoing.2
      cases last with
      | nil => exact absurd rfl hne
      | cons front rest =>
          simp only [hear, if_neg hgoing.2, settle, List.tail_cons] at hcause
          refine ⟨⟨fun _ => by simp [put], fun hand' haccurate hhand' => ?_⟩, ?_, ?_⟩
          · rw [← hcause hand' haccurate hhand']
            simp only [hear, if_neg hgoing.2, settle, put, List.cons_append, List.tail_cons]
            rw [← Multiset.coe_add, Multiset.coe_singleton, add_comm (rest : Multiset Card), ← add_assoc,
              add_comm _ ({c} : Multiset Card), Multiset.singleton_add, Multiset.cons_erase hc]
          · simp [hear, hgoing.2, settle, put]
          · simpa [hear, hgoing.2, settle] using hc
  | wrong n =>
      obtain ⟨c', hcause, hhead⟩ := hfits
      cases last with
      | nil => cases hhead
      | cons front rest =>
          refine ⟨⟨c', hcause, hhead⟩, ?_, ?_⟩
          · simp only [hear, takeBack, put, List.cons_append]
            rw [Multiset.erase_cons_tail_of_mem hc]
          · exact Multiset.mem_cons_of_mem hc
  | trick | score | total | busy | intro => exact ⟨trivial, rfl, hc⟩

theorem smooth_put {accurate : Prop} {stage : GameStage} {l : Ledger} {qs : List Parcel} {c : Card}
    (hgoing : stage.Going) (hc : c ∈ l.hand) (h : Smooth accurate (stage, l) qs) :
    Smooth accurate (stage, l.put c) qs ∧
      hearAll (stage, l.put c) qs = ((hearAll (stage, l) qs).1, (hearAll (stage, l) qs).2.put c) ∧
      (hearAll (stage, l) qs).1.Going ∧ c ∈ (hearAll (stage, l) qs).2.hand := by
  induction qs generalizing stage l with
  | nil => exact ⟨trivial, rfl, hgoing, hc⟩
  | cons q qs ih =>
      obtain ⟨hfits, hrest⟩ := h
      obtain ⟨hfits', heq, hc'⟩ := hear_put hgoing hc hfits
      obtain ⟨hrest', heqs, hgo, hin⟩ := ih (hgoing.next q.1) hc' hrest
      refine ⟨⟨hfits', ?_⟩, ?_, hgo, hin⟩
      · show Smooth accurate (stage.next q.1, (l.put c).hear stage q.1) qs
        rw [heq]
        exact hrest'
      · rw [hearAll_cons]
        show hearAll (stage.next q.1, (l.put c).hear stage q.1) qs = _
        rw [heq]
        exact heqs

end Ledger

/-- The client has the right count. -/
inductive Tallies (accurate : Prop) (S : CardGame) (s : Side) (p : GameStage × Ledger) (up : List Card) : Prop
  | catchingUp (lost : Multiset Card) (hlost : accurate → lost = 0) (hstage : p.1 = .afterFirstDeal)
      (hlast : p.2.last = []) (hup : up = [])
      (hhand : p.2.hand + lost = (S.hands s : Multiset Card) + (S.laid s : Multiset Card))
  | inStep (lost : Multiset Card) (hlost : accurate → lost = 0) (hgoing : p.1.Going)
      (hlast : p.2.last = S.laid s ++ up)
      (hhand : p.2.hand + (up : Multiset Card) + lost = (S.hands s : Multiset Card))

section Messages

variable {scenario : GameScenario} {accurate accurate' : Prop} {S S' : CardGame} {s : Side} {stage : GameStage}
  {l : Ledger} {up : List Card}

theorem Tallies.weaken {p : GameStage × Ledger} (h : Tallies accurate S s p up) (hle : accurate' → accurate) :
    Tallies accurate' S s p up := by
  cases h with
  | catchingUp lost hlost hstage hlast hup hhand =>
      exact .catchingUp lost (hlost ∘ hle) hstage hlast hup hhand
  | inStep lost hlost hgoing hlast hhand => exact .inStep lost (hlost ∘ hle) hgoing hlast hhand

/-- A client with nothing on the table is in step after any message that moves the stage on. -/
theorem Tallies.moveOn (h : Tallies accurate S s (stage, l) up) (hlaid : S.laid s = []) (stage' : GameStage)
    (hgoing : stage'.Going) : Tallies accurate S s (stage', l) up := by
  cases h with
  | catchingUp lost hlost hstage hlast hup hhand =>
      refine .inStep lost hlost hgoing ?_ ?_
      · rw [hlaid, hup]
        exact hlast
      · rw [hup]
        simpa [hlaid] using hhand
  | inStep lost hlost _ hlast hhand => exact .inStep lost hlost hgoing hlast hhand

/-- The client puts a card. -/
theorem Tallies.put {c : Card} (h : Tallies accurate S s (stage, l) up) (hgoing : stage.Going)
    (hc : c ∈ l.hand) : Tallies accurate S s (stage, l.put c) (up ++ [c]) := by
  cases h with
  | catchingUp _ _ hstage => exact absurd hstage hgoing.2
  | inStep lost hlost _ hlast hhand =>
      refine .inStep lost hlost hgoing ?_ ?_
      · simp only at hlast
        simp [Ledger.put, hlast]
      · rw [← hhand, ← Multiset.coe_add, Multiset.coe_singleton, add_comm (up : Multiset Card), ← add_assoc]
        congr 2
        show l.hand.erase c + {c} = l.hand
        rw [add_comm, Multiset.singleton_add, Multiset.cons_erase hc]

/-- Another side puts a card to the trick. -/
theorem Tallies.other {side : Side} {card : Card} (h : Tallies accurate S s (stage, l) up) (hne : side ≠ s) :
    Tallies accurate (S.put side card) s (stage, l) up := by
  have hlaid : (S.put side card).laid s = S.laid s := by simp [State.laid_put, hne]
  have hhands : (S.put side card).hands s = S.hands s := by simp [State.put, Function.update_of_ne hne.symm]
  cases h with
  | catchingUp lost hlost hstage hlast hup hhand =>
      exact .catchingUp lost hlost hstage hlast hup (by rwa [hlaid, hhands])
  | inStep lost hlost hgoing hlast hhand =>
      exact .inStep lost hlost hgoing (by rwa [hlaid]) (by rwa [hhands])

/-- The server takes a card of the client. -/
theorem Tallies.own {card : Card} (h : Tallies accurate S s (stage, l) (card :: up))
    (hlaid : S.laid s = []) : Tallies accurate (S.put s card) s (stage, l) up := by
  cases h with
  | catchingUp _ _ _ _ hup => cases hup
  | inStep lost hlost hgoing hlast hhand =>
      refine .inStep lost hlost hgoing ?_ ?_
      · rw [State.laid_put, hlaid]
        simpa [hlaid] using hlast
      · have herase : ((S.put s card).hands s : Multiset Card) = (S.hands s : Multiset Card).erase card := by
          simp [State.put]
        rw [herase, ← hhand, ← Multiset.cons_coe, Multiset.add_cons, Multiset.cons_add,
          Multiset.erase_cons_head]

/-- The server refuses a card of a client that has none on the table, and tells it so. -/
theorem Tallies.refused {card : Card} {n : Nat} (h : Tallies accurate S s (stage, l) (card :: up))
    (hlaid : S.laid s = []) : Ledger.Fits accurate' (stage, l) (.wrong n, some (.refused card)) ∧
      Tallies accurate S s (stage, l.hear stage (.wrong n)) up := by
  obtain ⟨hand, last⟩ := l
  cases h with
  | catchingUp _ _ _ _ hup => cases hup
  | inStep lost hlost hgoing hlast hhand =>
      obtain rfl : last = card :: up := by simpa [hlaid] using hlast
      refine ⟨⟨card, rfl, rfl⟩, .inStep lost hlost hgoing ?_ ?_⟩
      · simp [Ledger.hear, Ledger.takeBack, hlaid]
      · rw [← hhand]
        simp [Ledger.hear, Ledger.takeBack, ← Multiset.cons_coe]

/-- A full trick is taken: `S` has it on the table, and `t` is the trick. -/
theorem Tallies.taken {t : Trick Side Card} (h : Tallies accurate S s (stage, l) up)
    (hcards : t.cards = S.plays.map Play.card) (hlaid : ∃ c, S.laid s = [c]) (hshares : S.Shares)
    (hapart : accurate → stage = .afterFirstDeal → S.deal.Apart) :
    Ledger.Fits accurate (stage, l) (takenMsg t, some (.trickTaken (S.hands s))) ∧
      Tallies accurate (S.collect kierki) s (stage, l.hear stage (takenMsg t)) up := by
  obtain ⟨hand, last⟩ := l
  obtain ⟨c, hc⟩ := hlaid
  have hnone : (S.collect kierki).laid s = [] := rfl
  cases h with
  | catchingUp lost hlost hstage hlast hup hhand =>
      obtain rfl : stage = .afterFirstDeal := hstage
      obtain rfl : last = [] := hlast
      -- the client strikes the cards of the trick from its hand: with different cards only its own one goes
      have hstruck : accurate → hand - (t.cards : Multiset Card) = (S.hands s : Multiset Card) := by
        intro haccurate
        have hall : hand = (S.hands s : Multiset Card) + (S.laid s : Multiset Card) := by
          rw [← hhand, hlost haccurate, add_zero]
        rw [hall, hcards]
        exact hshares.sub_plays (hapart haccurate rfl) s
      -- with equal cards it may strike too many, and what it loses is counted
      have hless : hand - (t.cards : Multiset Card) ≤ (S.hands s : Multiset Card) := by
        have hbound : hand ≤ (S.hands s : Multiset Card) + (S.laid s : Multiset Card) := by
          rw [← hhand]
          exact Multiset.le_add_right hand lost
        rw [hcards]
        exact (tsub_le_tsub_right hbound _).trans (add_cardsOf_sub_le s S.plays _)
      refine ⟨⟨fun hne => absurd rfl hne, fun hand' haccurate hhand' => ?_⟩,
        .catchingUp ((S.hands s : Multiset Card) - (hand - (t.cards : Multiset Card)))
          (fun haccurate => ?_) rfl rfl hup ?_⟩
      · obtain rfl := Cause.trickTaken.inj (Option.some.inj hhand')
        simpa [takenMsg, Ledger.hear, Ledger.strike] using hstruck haccurate
      · rw [hstruck haccurate, tsub_self]
      · rw [hnone, Multiset.coe_nil, add_zero]
        exact add_tsub_cancel_of_le hless
  | inStep lost hlost hgoing hlast hhand =>
      obtain rfl : last = c :: up := by simpa [hc] using hlast
      -- in step, the client settles the trick with the first of the cards it has put down
      have hsettle : (⟨hand, c :: up⟩ : Ledger).hear stage (takenMsg t) = ⟨hand, up⟩ := by
        simp [takenMsg, Ledger.hear, hgoing.2, Ledger.settle]
      refine ⟨⟨fun _ => by simp, fun hand' haccurate hhand' => ?_⟩, .inStep lost hlost hgoing ?_ ?_⟩
      · obtain rfl := Cause.trickTaken.inj (Option.some.inj hhand')
        rw [show (takenMsg t, some (Cause.trickTaken (S.hands s))).1 = takenMsg t from rfl, hsettle,
          ← hhand, hlost haccurate, add_zero]
      · rw [hsettle, hnone]
        rfl
      · rw [hsettle]
        exact hhand

/-- A new deal, when nothing is left of the old one: now nothing is lost. -/
theorem Tallies.dealt (mode : RoundType) (starting : Side) (h : Tallies accurate S s (stage, l) up)
    (hgoing : stage.Going) (hempty : S.hands s = []) (hlaid : S.laid s = []) (hlaid' : S'.laid s = []) :
    Ledger.Fits accurate' (stage, l) (.deal mode starting (S'.hands s), none) ∧
      Tallies True S' s (stage.next (.deal mode starting (S'.hands s)),
        l.hear stage (.deal mode starting (S'.hands s))) up := by
  obtain ⟨hand, last⟩ := l
  cases h with
  | catchingUp _ _ hstage => exact absurd hstage hgoing.2
  | inStep lost _ _ hlast hhand =>
      have hall : hand + (up : Multiset Card) + lost = 0 := by simpa [hempty] using hhand
      obtain ⟨hboth, -⟩ := add_eq_zero.mp hall
      obtain ⟨hhand0, hup0⟩ := add_eq_zero.mp hboth
      obtain rfl : up = [] := by simpa using hup0
      have hlast0 : last = [] := by simpa [hlaid] using hlast
      have hnext : (stage.next (.deal mode starting (S'.hands s))).Going := hgoing.next _
      refine ⟨⟨hhand0, hlast0⟩, .inStep 0 (fun _ => rfl) hnext ?_ ?_⟩
      · simpa [Ledger.hear, Ledger.deal, hlaid'] using hlast0
      · simp [Ledger.hear, Ledger.deal]

theorem Tallies.congr (h : Tallies accurate S s (stage, l) up) (hhands : S'.hands s = S.hands s)
    (hlaid : S'.laid s = S.laid s) : Tallies accurate S' s (stage, l) up := by
  cases h with
  | catchingUp lost hlost hstage hlast hup hhand =>
      exact .catchingUp lost hlost hstage hlast hup (by rwa [hhands, hlaid])
  | inStep lost hlost hgoing hlast hhand =>
      exact .inStep lost hlost hgoing (by rwa [hlaid]) (by rwa [hhands])

theorem promptFor_isDeal (g : Game) (s : Side) : (Server.promptFor g s).any SendJob.isDeal = false := by
  unfold Server.promptFor
  split <;> rfl

/-- The prompt, if the side is to move. -/
theorem Tallies.prompt {g : Game} {f : SendJob → Option Cause} (h : Tallies accurate S s (stage, l) up)
    (hsound : State.Sound kierki (deals scenario) S) (hturn : g.nextMove = S.turn kierki) :
    Ledger.Smooth accurate' (stage, l) ((Server.promptFor g s).map fun msg => (msg, f msg)) ∧
      Tallies accurate S s
        (Ledger.hearAll (stage, l) ((Server.promptFor g s).map fun msg => (msg, f msg))) up := by
  unfold Server.promptFor
  by_cases hmine : g.nextMove = s
  · rw [if_pos hmine]
    have hlaid : S.laid s = [] := by
      rw [← hmine, hturn]
      exact hsound.laid_turn
    exact ⟨⟨trivial, trivial⟩, h.moveOn hlaid .afterTrick (by decide)⟩
  · rw [if_neg hmine]
    exact ⟨trivial, h⟩

theorem Tallies.prompt_if (p : Prop) [Decidable p] {g : Game} {f : SendJob → Option Cause}
    (h : Tallies accurate S s (stage, l) up) (hsound : State.Sound kierki (deals scenario) S)
    (hturn : g.nextMove = S.turn kierki) :
    Ledger.Smooth accurate' (stage, l)
        ((if p then Server.promptFor g s else []).map fun msg => (msg, f msg)) ∧
      Tallies accurate S s (Ledger.hearAll (stage, l)
        ((if p then Server.promptFor g s else []).map fun msg => (msg, f msg))) up := by
  split
  · exact h.prompt hsound hturn
  · exact ⟨trivial, h⟩

/-- **What an accepted card brings the client**, once its tally is right for the game with the card on
the table.  A new deal makes it accurate. -/
theorem Tallies.outcome {side : Side} {card : Card} {g : Game} {msgs : List SendJob}
    {f : SendJob → Option Cause} (hout : Outcome S side card s g S' msgs)
    (h : Tallies accurate (S.put side card) s (stage, l) up) (hle : accurate' → accurate)
    (hnote : ∀ t, f (takenMsg t) = some (.trickTaken ((S.put side card).hands s)))
    (hfull : (S.put side card).plays.length = 4 → ∃ c, (S.put side card).laid s = [c])
    (hempty : (S.put side card).plays.length = 4 → S.done.length + 1 = TRICKS_PER_ROUND →
      (S.put side card).hands s = [])
    (hshares : (S.put side card).Shares)
    (hapart : accurate → (S.put side card).plays.length = 4 → stage = .afterFirstDeal → S.deal.Apart)
    (hsound : State.Sound kierki (deals scenario) S') (hturn : g.nextMove = S'.turn kierki) :
    Ledger.Smooth accurate' (stage, l) (msgs.map fun msg => (msg, f msg)) ∧
      Tallies (accurate ∨ msgs.any SendJob.isDeal = true) S' s
        (Ledger.hearAll (stage, l) (msgs.map fun msg => (msg, f msg))) up := by
  -- in three of the four cases the trick is full, and its `TAKEN` comes first
  have htaken : ∀ t, ((S.put side card).collect kierki).done = S.done ++ [t] →
      (S.put side card).plays.length = 4 →
      Ledger.Fits accurate' (stage, l) (takenMsg t, f (takenMsg t)) ∧
        Tallies accurate ((S.put side card).collect kierki) s (stage, l.hear stage (takenMsg t)) up := by
    intro t ht hlen
    have hcards : t.cards = (S.put side card).plays.map Play.card := by
      have hlast := List.append_cancel_left (ht : S.done ++ _ = S.done ++ [t])
      rw [← List.singleton_injective hlast]
      rfl
    rw [hnote]
    obtain ⟨⟨hfits, hhand⟩, hnext⟩ := h.taken hcards (hfull hlen) hshares fun ha => hapart ha hlen
    exact ⟨⟨hfits, fun hand ha => hhand hand (hle ha)⟩, hnext⟩
  cases hout with
  | inTrick hshort =>
      obtain ⟨hsmooth, htally⟩ := h.prompt (f := f) hsound hturn
      exact ⟨hsmooth, htally.weaken (by simp [promptFor_isDeal])⟩
  | trickDone t hlen hmore ht =>
      obtain ⟨hfits, hnext⟩ := htaken t ht hlen
      obtain ⟨hsmooth, htally⟩ := hnext.prompt (f := f) hsound hturn
      exact ⟨⟨hfits, hsmooth⟩, htally.weaken (by simp [promptFor_isDeal, takenMsg, SendJob.isDeal])⟩
  | roundDone t r S' a a' hlen hlast ht hS' =>
      obtain ⟨hfits, hnext⟩ := htaken t ht hlen
      have hscores := hnext.moveOn rfl .afterTotal (by decide)
      have hnew : S'.laid s = [] := by rw [hS']; rfl
      -- the new deal replaces the hand, whatever had been lost of the old one
      obtain ⟨hfits', hdeal⟩ : Ledger.Fits accurate' _ _ ∧ _ :=
        hscores.dealt r.mode r.starting (by decide) (hempty hlen hlast) rfl hnew
      rw [show S'.hands s = r.deal s by rw [hS']; rfl] at hfits' hdeal
      obtain ⟨hsmooth, htally⟩ := hdeal.prompt (f := f) hsound hturn
      exact ⟨⟨hfits, trivial, trivial, hfits', hsmooth⟩, htally.weaken fun _ => trivial⟩
  | gameDone t S'' a a' hlen hlast ht hS' =>
      obtain ⟨hfits, hnext⟩ := htaken t ht hlen
      have hscores := hnext.moveOn rfl .afterTotal (by decide)
      have hover : Tallies accurate S' s (.afterTotal, l.hear stage (takenMsg t)) up := by
        refine hscores.congr ?_ ?_
        · rw [hS']
        · rw [hS']
          rfl
      exact ⟨⟨hfits, trivial, trivial, trivial⟩, hover.weaken fun ha => ha.elim id fun hdeal => by cases hdeal⟩

end Messages

end Kierki
