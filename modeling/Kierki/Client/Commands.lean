import Kierki.Client.Client

/-!
# The commands of the user

A line that the user of `PlayerConsole` types is meant to put the card it names or to change nothing.
`PlayerConsole::anyCmd` looks at the first character before its `try`, and takes the card out of the hand
before `putCb` sends it; so an empty line ends the client, and a card that cannot be sent is gone from the
hand all the same.
-/

namespace Kierki

namespace Client

variable (c : Client PlayerConsole) (cmd : List Char)

/-- The card named is put: one of its kind goes from the hand to the cards without an answer, one `TRICK`
is sent, and the client no longer waits for a card. -/
def Put (c' : Client PlayerConsole) (out : List (Nat × Card)) : Prop :=
  ∃ card, c.player.Names cmd card ∧ c'.player.localHand = c.player.localHand.erase card ∧
    c'.player.lastCards = c.player.lastCards ++ [card] ∧ out = [(c.trickNo, card)] ∧
    c'.waitingForCard = false

/-- Nothing has happened. -/
def Unchanged (c' : Client PlayerConsole) (out : List (Nat × Card)) : Prop :=
  c'.player.localHand = c.player.localHand ∧ c'.player.lastCards = c.player.lastCards ∧
    c'.waitingForCard = c.waitingForCard ∧ out = []

/-- A command ends without an exception, and with all of its effect or none. -/
def AllOrNothing (res : Except ClientFault (Client PlayerConsole × List (Nat × Card))) : Prop :=
  ∃ c' out, res = .ok (c', out) ∧ (c.Put cmd c' out ∨ c.Unchanged c' out)

/-- A card that is asked for is named. -/
def Plays : Prop := c.waitingForCard = true ∧ ∃ card, c.player.Names cmd card

variable {c cmd}

/-- A card that is put and not sent is missing from the hand. -/
theorem not_allOrNothing_unsent (card : Card) (hheld : card ∈ c.player.localHand)
    {player : PlayerConsole} (hhand : player.localHand = c.player.localHand.erase card) :
    ¬ c.AllOrNothing cmd (.ok ({ c with player := player }, [])) := by
  rintro ⟨c', out, hres, hput | hsame⟩
  · obtain ⟨card', -, -, -, hout, -⟩ := hput
    cases hres
    cases hout
  · cases hres
    have hlen : (c.player.localHand.erase card).length = c.player.localHand.length := by
      rw [← hhand]
      exact congrArg List.length hsame.1
    rw [List.length_erase_of_mem hheld] at hlen
    have hpos : 0 < c.player.localHand.length := List.length_pos_of_mem hheld
    omega

/-- **When a command is all or nothing**: the line is not empty, and if it puts a card, the card can be
sent. -/
theorem command_allOrNothing_iff (c : Client PlayerConsole) (sent : Bool) (cmd : List Char) :
    c.AllOrNothing cmd (c.command sent cmd) ↔ cmd ≠ [] ∧ (c.Plays cmd → sent = true) := by
  rcases c.player.anyCmd_cases c.waitingForCard cmd with ⟨rfl, heq⟩ | ⟨card, hnames, hwait, heq⟩ |
    ⟨hne, hnone, heq⟩
  · -- the exception escapes
    have hres : c.command sent [] = .error .emptyCommand := rfl
    rw [hres]
    refine iff_of_false ?_ fun h => h.1 rfl
    rintro ⟨c', out, hok, -⟩
    cases hok
  · have hne : cmd ≠ [] := by
      obtain ⟨text, rfl, -⟩ := hnames
      simp
    have hplays : c.Plays cmd := ⟨hwait, card, hnames⟩
    have hres : c.command sent cmd = if sent then
        .ok ({ c with
          player := { c.player with
            localHand := c.player.localHand.erase card, lastCards := c.player.lastCards ++ [card] }
          waitingForCard := false }, [(c.trickNo, card)])
      else .ok ({ c with player := { c.player with
        localHand := c.player.localHand.erase card, lastCards := c.player.lastCards ++ [card] } }, []) := by
      have hany : Player.anyCmd c.player c.waitingForCard cmd = _ := heq
      rw [command, hany, Fallible.ok_bind]
      cases sent <;> simp [chooseCard, hwait, Fallible.pure_eq]
    rw [hres]
    cases sent with
    | true =>
        refine ⟨fun _ => ⟨hne, fun _ => rfl⟩, fun _ => ⟨_, _, rfl, .inl ?_⟩⟩
        exact ⟨card, hnames, rfl, rfl, rfl, rfl⟩
    | false =>
        obtain ⟨-, -, -, hheld⟩ := hnames
        refine ⟨fun h => absurd h (not_allOrNothing_unsent card hheld rfl), fun h => ?_⟩
        exact absurd (h.2 hplays) (by decide)
  · have hres : c.command sent cmd = .ok (c, []) := by
      have hany : Player.anyCmd c.player c.waitingForCard cmd = _ := heq
      rw [command, hany]
      rfl
    rw [hres]
    refine iff_of_true ⟨_, _, rfl, .inr ⟨rfl, rfl, rfl, rfl⟩⟩ ⟨hne, ?_⟩
    rintro ⟨hwait, card, hnames⟩
    rw [hnone card hnames] at hwait
    cases hwait

/-- A client that is asked for a card and holds the two of clubs. -/
def asked : Client PlayerConsole where
  player := { PlayerConsole.new .N with localHand := [⟨.v2, .colorC⟩] }
  stage := .afterTrick
  waitingForCard := true
  trickNo := 13
  exitFlag := 0
  terminate := false

/-- An empty line ends the client; and when the two of clubs cannot be sent, it is gone from the hand, and
the client still waits for a card. -/
theorem not_allOrNothing_asked :
    ¬ asked.AllOrNothing [] (asked.command true []) ∧
      ¬ asked.AllOrNothing ['!', '2', 'C'] (asked.command false ['!', '2', 'C']) := by
  refine ⟨?_, ?_⟩
  · rintro ⟨c', out, hok, -⟩
    cases hok
  · have hres : asked.command false ['!', '2', 'C'] = .ok ({ asked with player := { asked.player with
        localHand := [], lastCards := [⟨.v2, .colorC⟩] } }, []) := rfl
    rw [hres]
    exact not_allOrNothing_unsent ⟨.v2, .colorC⟩ (by decide) rfl

end Client

end Kierki
