import Kierki.Common.Types

/-!
# The command line of the client

`main` of `kierki-client.cpp` up to the construction of the `Client`.  The loop over the options is walked
with an index, as in the source, and does not always end.  `words` reads the same arguments from the left to
the right, without an index, up to the word at which the loop is left or stays for ever; `main_eq` says that
`main` does what the words say, and `checked_iff` for which argument vectors that is right.
-/

namespace Kierki

/-- The values of `proto`: `AF_UNSPEC`, `AF_INET` and `AF_INET6`. -/
inductive Family
  | unspec | inet | inet6
  deriving DecidableEq, Repr

/-- The local variables of `main`, and what it has printed.  `none` is `SIDE_NULL_`. -/
structure Options where
  port : Nat
  host : List Char
  side : Option Side
  proto : Family
  autoPlayer : Bool
  argErr : Bool
  cerr : List (List Char)
  deriving DecidableEq, Repr

namespace Options

/-- How `main` goes on behind the loop. -/
inductive Outcome
  | exits (status : Nat) (cerr : List (List Char))
  /-- the `Client` is constructed -/
  | constructs (o : Options)
  deriving DecidableEq, Repr

/-- `isspace`. -/
def isSpace (c : Char) : Bool := c ∈ [' ', '\t', '\n', '\x0b', '\x0c', '\r']

/-- `strtol` to base 10, for a `long` of 64 bits. -/
def strtol (s : List Char) : Int :=
  let value (digits : List Char) : Int := Nat.ofDigitChars 10 (digits.takeWhile Char.isDigit) 0
  match s.dropWhile isSpace with
  | '-' :: rest => max (-value rest) (-2 ^ 63)
  | '+' :: rest => min (value rest) (2 ^ 63 - 1)
  | rest => min (value rest) (2 ^ 63 - 1)

/-- `atoi`, which is `(int) strtol`. -/
def atoi (s : List Char) : Int := (strtol s).bmod (2 ^ 32)

/-- The `uint16_t` that is made of an `int`. -/
def portOf (v : List Char) : Nat := (atoi v % 2 ^ 16).toNat

def init : Options where
  port := 0
  host := []
  side := none
  proto := .unspec
  autoPlayer := false
  argErr := false
  cerr := []

/-- A line for `std::cerr`. -/
def print (o : Options) (line : List Char) : Options := { o with cerr := o.cerr ++ [line] }

/-- The same, and `argErr` is set. -/
def fail (o : Options) (line : List Char) : Options := { o.print line with argErr := true }

/-- One turn of the loop: it goes on at another index, or there is a `break`. -/
inductive Turn
  | next (itr : Nat) (o : Options)
  | stop (o : Options)

/-- The value of the option at `itr`: none if `argc` is reached or the next argument starts with `-`. -/
def value? (argv : List (List Char)) (itr : Nat) : Option (List Char) :=
  argv[itr + 1]?.filter fun v => v.head? ≠ some '-'

/-- The body of the loop. -/
def turn (argv : List (List Char)) (itr : Nat) (arg : List Char) (o : Options) : Turn :=
  if arg = ['-', 'a'] then .next (itr + 1) { o with autoPlayer := true }
  else if arg = ['-', 'h'] then
    match value? argv itr with
    | none => .stop (o.print "-h option requires value\n".toList)
    | some v => .next (itr + 2) { o with host := v }
  else if arg = ['-', 'p'] then
    match value? argv itr with
    | none => .stop (o.fail "-p option requires value\n".toList)
    | some v =>
        let o := { o with port := portOf v }
        if o.port = 0 then .stop (o.fail (v ++ "is not a valid port number\n".toList))
        else .next (itr + 2) o
  else if arg = ['-', '4'] then .next (itr + 1) { o with proto := .inet }
  else if arg = ['-', '6'] then .next (itr + 1) { o with proto := .inet6 }
  else if arg = ['-', 'N'] then .next (itr + 1) { o with side := some .N }
  else if arg = ['-', 'E'] then .next (itr + 1) { o with side := some .E }
  else if arg = ['-', 'S'] then .next (itr + 1) { o with side := some .S }
  else if arg = ['-', 'W'] then .next (itr + 1) { o with side := some .W }
  -- the index stays where it is
  else .next itr (o.print
    ("unknown option or value for option that takes no value: ".toList ++ arg ++ ['\n']))

/-- The loop, for at most `fuel` turns. -/
def loop (argv : List (List Char)) : Nat → Nat → Options → Option Options
  | 0, _, _ => none
  | fuel + 1, itr, o =>
      match argv[itr]? with
      | none => some o
      | some arg =>
          match turn argv itr arg o with
          | .next itr o => loop argv fuel itr o
          | .stop o => some o

def usage : List Char :=
  "usage: kierki-client -h <host> -p <port> [-S] [-N] [-E] [-W] [-a] [-6] [-4]".toList

/-- The three tests behind the loop.  The last one leaves `argErr` alone. -/
def tests (o : Options) : Options :=
  let o := if o.port = 0 then o.fail "-p <port> has to be specified\n".toList else o
  let o := if o.host = [] then o.fail "-h <host> has to be specified\n".toList else o
  if o.side = none then o.print "side has to be specified via -N, -S, -E or -W\n".toList else o

/-- What follows the loop. -/
def finish (o : Options) : Outcome :=
  let o := o.tests
  if o.argErr then .exits 1 (o.print usage).cerr else .constructs o

/-- `main` up to the construction of the `Client`, for a loop of at most `fuel` turns. -/
def main (argv : List (List Char)) (fuel : Nat) : Option Outcome := (loop argv fuel 1 init).map finish

/-- What an argument is taken for, with the value behind it. -/
inductive Word
  | auto
  | family (proto : Family)
  | side (s : Side)
  | host (v : List Char)
  | port (v : List Char)
  | noHost
  | noPort
  | unknown (arg : List Char)
  deriving DecidableEq, Repr

namespace Word

/-- The argument `arg` before the value `v`. -/
def read (arg : List Char) (v : Option (List Char)) : Word :=
  if arg = ['-', 'a'] then .auto
  else if arg = ['-', 'h'] then (v.filter fun v => v.head? ≠ some '-').elim .noHost .host
  else if arg = ['-', 'p'] then (v.filter fun v => v.head? ≠ some '-').elim .noPort .port
  else if arg = ['-', '4'] then .family .inet
  else if arg = ['-', '6'] then .family .inet6
  else if arg = ['-', 'N'] then .side .N
  else if arg = ['-', 'E'] then .side .E
  else if arg = ['-', 'S'] then .side .S
  else if arg = ['-', 'W'] then .side .W
  else .unknown arg

/-- The word takes the next argument with it. -/
def takesValue : Word → Bool
  | host _ | port _ => true
  | auto | family _ | side _ | noHost | noPort | unknown _ => false

/-- Nothing is read behind the word. -/
def stops : Word → Bool
  | port v => portOf v = 0
  | noHost | noPort | unknown _ => true
  | auto | family _ | side _ | host _ => false

end Word

/-- The arguments, word by word; the first one is skipped if it is the value of the word before. -/
def words : Bool → List (List Char) → List Word
  | _, [] => []
  | true, _ :: rest => words false rest
  | false, arg :: rest =>
      let w := Word.read arg rest.head?
      if w.stops then [w] else w :: words w.takesValue rest

/-- What a word does to the variables. -/
def apply (o : Options) : Word → Options
  | .auto => { o with autoPlayer := true }
  | .family proto => { o with proto := proto }
  | .side s => { o with side := some s }
  | .host v => { o with host := v }
  | .port v =>
      let o := { o with port := portOf v }
      if o.port = 0 then o.fail (v ++ "is not a valid port number\n".toList) else o
  | .noHost => o.print "-h option requires value\n".toList
  | .noPort => o.fail "-p option requires value\n".toList
  | .unknown arg => o.print
      ("unknown option or value for option that takes no value: ".toList ++ arg ++ ['\n'])

theorem words_skip (rest : List (List Char)) : words true rest = words false rest.tail := by
  cases rest <;> rfl

/-- The words from an argument on. -/
theorem words_drop {argv : List (List Char)} {itr : Nat} {arg : List Char} {w : Word}
    (harg : argv[itr]? = some arg) (hw : Word.read arg argv[itr + 1]? = w) :
    words false (argv.drop itr) =
      if w.stops then [w] else w :: words false (argv.drop (itr + if w.takesValue then 2 else 1)) := by
  obtain ⟨hitr, hget⟩ := List.getElem?_eq_some_iff.mp harg
  rw [List.drop_eq_getElem_cons hitr, hget, words, List.head?_drop, hw]
  cases hvalue : w.takesValue with
  | false => simp
  | true => simp [words_skip]

/-- A turn does what its word says. -/
theorem turn_eq (argv : List (List Char)) (itr : Nat) (arg : List Char) (o : Options) :
    let w := Word.read arg argv[itr + 1]?
    turn argv itr arg o =
      match w with
      | .unknown _ => .next itr (o.apply w)
      | _ => if w.stops then .stop (o.apply w)
          else .next (itr + if w.takesValue then 2 else 1) (o.apply w) := by
  by_cases hname : arg ∈ [['-', 'a'], ['-', 'h'], ['-', 'p'], ['-', '4'], ['-', '6'], ['-', 'N'], ['-', 'E'],
    ['-', 'S'], ['-', 'W']]
  · simp only [List.mem_cons, List.not_mem_nil, or_false] at hname
    rcases hname with rfl | rfl | rfl | rfl | rfl | rfl | rfl | rfl | rfl
    case inr.inl =>
      have hread : Word.read ['-', 'h'] argv[itr + 1]? = (value? argv itr).elim .noHost .host := rfl
      rw [turn, if_neg (by decide), if_pos rfl, hread]
      cases value? argv itr <;> rfl
    case inr.inr.inl =>
      have hread : Word.read ['-', 'p'] argv[itr + 1]? = (value? argv itr).elim .noPort .port := rfl
      rw [turn, if_neg (by decide), if_neg (by decide), if_pos rfl, hread]
      cases value? argv itr with
      | none => rfl
      | some v =>
          by_cases hport : portOf v = 0 <;>
            simp only [hport, apply, Option.elim_some, Word.stops, Word.takesValue, decide_true, decide_false,
              if_true, if_false, Bool.false_eq_true]
    all_goals rfl
  · -- the other words are unknown
    simp only [List.mem_cons, List.not_mem_nil, or_false, not_or] at hname
    obtain ⟨ha, hh, hp, h4, h6, hN, hE, hS, hW⟩ := hname
    simp only [turn, Word.read, apply, ha, hh, hp, h4, h6, hN, hE, hS, hW, if_false]

/-- **A turn of the loop**: the next word is unknown, and the index stays where it is; or the loop is left
behind it; or the index goes on to the word behind it. -/
theorem turn_cases {argv : List (List Char)} {itr : Nat} {arg : List Char} (harg : argv[itr]? = some arg)
    (o : Options) :
    (∃ a o', words false (argv.drop itr) = [.unknown a] ∧ turn argv itr arg o = .next itr o') ∨
      (∃ w, (∀ a, w ≠ .unknown a) ∧ words false (argv.drop itr) = [w] ∧
        turn argv itr arg o = .stop (o.apply w)) ∨
      ∃ w n, (∀ a, w ≠ .unknown a) ∧ 0 < n ∧
        words false (argv.drop itr) = w :: words false (argv.drop (itr + n)) ∧
        turn argv itr arg o = .next (itr + n) (o.apply w) := by
  obtain ⟨w, hw⟩ : ∃ w, Word.read arg argv[itr + 1]? = w := ⟨_, rfl⟩
  have hturn := turn_eq argv itr arg o
  simp only [hw] at hturn
  rw [words_drop harg hw, hturn]
  cases w with
  | unknown a => exact .inl ⟨a, _, rfl, rfl⟩
  | noHost | noPort => exact .inr (.inl ⟨_, by simp, rfl, rfl⟩)
  | port v =>
      by_cases hport : portOf v = 0
      · exact .inr (.inl ⟨.port v, by simp, by simp [Word.stops, hport], by simp [Word.stops, hport]⟩)
      · refine .inr (.inr ⟨.port v, 2, by simp, by decide, ?_, ?_⟩) <;>
          simp [Word.stops, Word.takesValue, hport]
  | host v => exact .inr (.inr ⟨_, 2, by simp, by decide, rfl, rfl⟩)
  | auto | family | side => exact .inr (.inr ⟨_, 1, by simp, by decide, rfl, rfl⟩)

/-- There is no unknown word. -/
def Known (ws : List Word) : Prop := ∀ a, .unknown a ∉ ws

/-- **A loop without an unknown word ends**, after one turn at most for every argument that is left. -/
theorem loop_known (argv : List (List Char)) {fuel itr : Nat} (o : Options)
    (hfuel : argv.length - itr < fuel) (h : Known (words false (argv.drop itr))) :
    loop argv fuel itr o = some ((words false (argv.drop itr)).foldl apply o) := by
  induction fuel generalizing itr o with
  | zero => exact absurd hfuel (Nat.not_lt_zero _)
  | succ fuel ih =>
      rw [loop]
      cases harg : argv[itr]? with
      | none =>
          rw [List.drop_eq_nil_of_le (List.getElem?_eq_none_iff.mp harg)]
          rfl
      | some arg =>
          have hlt : itr < argv.length := (List.getElem?_eq_some_iff.mp harg).1
          rcases turn_cases harg o with ⟨a, o', hwords, -⟩ | ⟨w, -, hwords, hturn⟩ |
            ⟨w, n, -, hn, hwords, hturn⟩
          · exact absurd (hwords ▸ List.mem_cons_self) (h a)
          · simp only [hturn, hwords, List.foldl_cons, List.foldl_nil]
          · simp only [hturn, hwords, List.foldl_cons]
            apply ih
            · omega
            · exact fun a hmem => h a (hwords ▸ List.mem_cons_of_mem w hmem)

/-- **A loop that comes to an unknown word never ends**: it finds the same word again. -/
theorem loop_unknown (argv : List (List Char)) (fuel : Nat) {itr : Nat} (o : Options)
    (h : ¬ Known (words false (argv.drop itr))) : loop argv fuel itr o = none := by
  induction fuel generalizing itr o with
  | zero => rfl
  | succ fuel ih =>
      rw [loop]
      cases harg : argv[itr]? with
      | none =>
          rw [List.drop_eq_nil_of_le (List.getElem?_eq_none_iff.mp harg)] at h
          exact absurd (fun a => List.not_mem_nil) h
      | some arg =>
          rcases turn_cases harg o with ⟨a, o', -, hturn⟩ | ⟨w, hknown, hwords, -⟩ |
            ⟨w, n, hknown, -, hwords, hturn⟩
          · simp only [hturn]
            exact ih o' h
          · rw [hwords] at h
            exact absurd (fun a hmem => hknown a (List.mem_singleton.mp hmem).symm) h
          · simp only [hturn]
            refine ih _ fun hrest => h ?_
            rw [hwords]
            intro a hmem
            rcases List.mem_cons.mp hmem with heq | hmem
            · exact hknown a heq.symm
            · exact hrest a hmem

namespace Word

def host? : Word → Option (List Char)
  | host v => some v
  | _ => none

def port? : Word → Option (List Char)
  | port v => some v
  | _ => none

def side? : Word → Option Side
  | side s => some s
  | _ => none

end Word

/-- The last host, port and side that are named. -/
def lastHost (ws : List Word) : Option (List Char) := (ws.filterMap Word.host?).getLast?

def lastPort (ws : List Word) : Option (List Char) := (ws.filterMap Word.port?).getLast?

def lastSide (ws : List Word) : Option Side := (ws.filterMap Word.side?).getLast?

/-- A `-p` without a number is read. -/
def BadPort (ws : List Word) : Prop := .noPort ∈ ws ∨ ∃ v, .port v ∈ ws ∧ portOf v = 0

section Behind

variable (ws : List Word)

omit ws in
/-- A word that is read last has the last value, if it has one. -/
theorem getLast?_filterMap_concat {β : Type} (f : Word → Option β) (ws : List Word) (w : Word) :
    ((ws ++ [w]).filterMap f).getLast? = (f w).or (ws.filterMap f).getLast? := by
  cases hw : f w <;> simp [hw]

theorem foldl_apply_host : (ws.foldl apply init).host = (lastHost ws).getD [] := by
  induction ws using List.reverseRecOn with
  | nil => rfl
  | append_singleton ws w ih =>
      rw [List.foldl_concat, lastHost, getLast?_filterMap_concat]
      cases w with
      | host v => rfl
      | port v =>
          rw [apply]
          split <;> exact ih
      | auto | family | side | noHost | noPort | unknown => exact ih

theorem foldl_apply_port : (ws.foldl apply init).port = ((lastPort ws).map portOf).getD 0 := by
  induction ws using List.reverseRecOn with
  | nil => rfl
  | append_singleton ws w ih =>
      rw [List.foldl_concat, lastPort, getLast?_filterMap_concat]
      cases w with
      | port v =>
          rw [apply]
          split <;> rfl
      | auto | family | side | host | noHost | noPort | unknown => exact ih

theorem foldl_apply_side : (ws.foldl apply init).side = lastSide ws := by
  induction ws using List.reverseRecOn with
  | nil => rfl
  | append_singleton ws w ih =>
      rw [List.foldl_concat, lastSide, getLast?_filterMap_concat]
      cases w with
      | side s => rfl
      | port v =>
          rw [apply]
          split <;> exact ih
      | auto | family | host | noHost | noPort | unknown => exact ih

theorem badPort_concat (w : Word) :
    BadPort (ws ++ [w]) ↔ BadPort ws ∨ w = .noPort ∨ ∃ v, w = .port v ∧ portOf v = 0 := by
  constructor
  · rintro (hmem | ⟨v, hmem, hport⟩)
    · rcases List.mem_append.mp hmem with hmem | hmem
      · exact .inl (.inl hmem)
      · exact .inr (.inl (List.mem_singleton.mp hmem).symm)
    · rcases List.mem_append.mp hmem with hmem | hmem
      · exact .inl (.inr ⟨v, hmem, hport⟩)
      · exact .inr (.inr ⟨v, (List.mem_singleton.mp hmem).symm, hport⟩)
  · rintro ((hmem | ⟨v, hmem, hport⟩) | rfl | ⟨v, rfl, hport⟩)
    · exact .inl (List.mem_append_left _ hmem)
    · exact .inr ⟨v, List.mem_append_left _ hmem, hport⟩
    · exact .inl (by simp)
    · exact .inr ⟨v, by simp, hport⟩

theorem foldl_apply_argErr : (ws.foldl apply init).argErr = true ↔ BadPort ws := by
  induction ws using List.reverseRecOn with
  | nil => simp [init, BadPort]
  | append_singleton ws w ih =>
      rw [List.foldl_concat, badPort_concat, ← ih]
      cases w with
      | noPort => exact iff_of_true rfl (.inr (.inl rfl))
      | port v =>
          rw [apply]
          split
          · exact iff_of_true rfl (.inr (.inr ⟨v, rfl, ‹_›⟩))
          · rename_i hport
            refine (or_iff_left ?_).symm
            rintro (hno | ⟨v', hv, hzero⟩)
            · cases hno
            · cases hv
              exact hport hzero
      | auto | family | side | host | noHost | unknown => exact (or_iff_left (by simp)).symm

end Behind

/-- `v` is a decimal numeral of the number `p`. -/
def Denotes (v : List Char) (p : Nat) : Prop :=
  ∃ digits, digits ≠ [] ∧ (∀ c ∈ digits, c.isDigit = true) ∧ (v = digits ∨ v = '+' :: digits) ∧
    Nat.ofDigitChars 10 digits 0 = p

theorem not_isSpace {c : Char} (h : c.isDigit = true ∨ c = '+') : isSpace c = false := by
  cases hspace : isSpace c with
  | false => rfl
  | true =>
      have hmem : c ∈ [' ', '\t', '\n', '\x0b', '\x0c', '\r'] := of_decide_eq_true hspace
      simp only [List.mem_cons, List.not_mem_nil, or_false] at hmem
      rcases hmem with rfl | rfl | rfl | rfl | rfl | rfl <;> revert h <;> decide

theorem dropWhile_isSpace {c : Char} (h : c.isDigit = true ∨ c = '+') (rest : List Char) :
    (c :: rest).dropWhile isSpace = c :: rest := by simp [not_isSpace h]

/-- A numeral is read to its end. -/
theorem strtol_eq {v : List Char} {p : Nat} (h : Denotes v p) : strtol v = min (p : Int) (2 ^ 63 - 1) := by
  obtain ⟨digits, hne, hdigits, hv, rfl⟩ := h
  have htake : digits.takeWhile Char.isDigit = digits := List.takeWhile_eq_self_iff.mpr hdigits
  rcases hv with rfl | rfl
  · cases hv : v with
    | nil => exact absurd hv hne
    | cons c rest =>
        have hc : c.isDigit = true := hdigits c (hv ▸ List.mem_cons_self)
        rw [hv] at htake
        unfold strtol
        rw [dropWhile_isSpace (.inl hc)]
        split
        · rename_i heq
          rw [(List.cons.inj heq).1] at hc
          cases hc
        · rename_i heq
          rw [(List.cons.inj heq).1] at hc
          cases hc
        · simp only [htake]
  · unfold strtol
    rw [dropWhile_isSpace (.inr rfl)]
    simp only [htake]

/-- A numeral of a port is read as this port. -/
theorem portOf_eq {v : List Char} {p : Nat} (h : Denotes v p) (hp : p ≤ 65535) : portOf v = p := by
  have hmin : min (p : Int) (2 ^ 63 - 1) = p := by omega
  have hmod : ((p : Int).bmod (2 ^ 32)) = p := by
    apply Int.bmod_eq_of_le <;> omega
  rw [portOf, atoi, strtol_eq h, hmin, hmod]
  omega

/-- The options of a client that may be constructed: a host, a side, and a `-p` whose argument is a numeral
of the port, from 1 to 65535. -/
def Configured (ws : List Word) (o : Options) : Prop :=
  o.host ≠ [] ∧ o.side ≠ none ∧
    ∃ v p, lastPort ws = some v ∧ Denotes v p ∧ 1 ≤ p ∧ p ≤ 65535 ∧ o.port = p

/-- What may become of a command line. -/
def Proper (ws : List Word) : Outcome → Prop
  | .exits status cerr => status = 1 ∧ cerr.getLast? = some usage
  | .constructs o => Configured ws o

/-- **The command line is fully checked**: the loop ends, and `main` constructs the `Client` only for
options that are in order, and exits after the usage message otherwise. -/
def Checked (argv : List (List Char)) : Prop :=
  ∃ out, (∀ fuel, argv.length < fuel → main argv fuel = some out) ∧ Proper (words false argv.tail) out

/-- `main` finds a fault in the words it has read. -/
def Rejected (ws : List Word) : Prop :=
  BadPort ws ∨ lastPort ws = none ∨ (lastHost ws).getD [] = []

/-- A side is named, and the last `-p` has a numeral of at most 65535. -/
def Complete (ws : List Word) : Prop :=
  lastSide ws ≠ none ∧ ∃ v p, lastPort ws = some v ∧ Denotes v p ∧ p ≤ 65535

/-- **`main`** for a command line that it reads to an end. -/
theorem main_eq {argv : List (List Char)} {fuel : Nat} (hfuel : argv.length < fuel)
    (h : Known (words false argv.tail)) :
    main argv fuel = some (finish ((words false argv.tail).foldl apply init)) := by
  rw [← List.drop_one] at h ⊢
  rw [main, loop_known argv init (by omega) h]
  rfl

/-- The tests change nothing but `argErr`, and print. -/
theorem tests_eq (o : Options) : o.tests =
    { o with
      argErr := o.argErr || decide (o.port = 0) || decide (o.host = [])
      cerr := o.tests.cerr } := by
  unfold tests
  by_cases hport : o.port = 0 <;> by_cases hhost : o.host = [] <;> by_cases hside : o.side = none <;>
    simp only [hport, hhost, hside, fail, print, if_true, if_false, decide_true, decide_false, Bool.or_true,
      Bool.or_false]

/-- **Behind the loop**: the usage message and the exit, or the `Client`. -/
theorem finish_cases (o : Options) :
    ((o.argErr = true ∨ o.port = 0 ∨ o.host = []) ∧ ∃ cerr, finish o = .exits 1 (cerr ++ [usage])) ∨
      (o.argErr = false ∧ o.port ≠ 0 ∧ o.host ≠ []) ∧ ∃ cerr, finish o = .constructs { o with cerr := cerr } := by
  have htests := o.tests_eq
  generalize o.tests.cerr = cerr at htests
  by_cases hbad : o.argErr = true ∨ o.port = 0 ∨ o.host = []
  · refine .inl ⟨hbad, cerr, ?_⟩
    have herr : (o.argErr || decide (o.port = 0) || decide (o.host = [])) = true := by
      simpa [or_assoc] using hbad
    simp only [finish, htests, herr, if_true, print]
  · have hgood : o.argErr = false ∧ o.port ≠ 0 ∧ o.host ≠ [] := by simpa using hbad
    refine .inr ⟨hgood, cerr, ?_⟩
    obtain ⟨herr, hport, hhost⟩ := hgood
    simp [finish, htests, herr, hport, hhost]

/-- The words are rejected when the variables are. -/
theorem rejected_iff (ws : List Word) : Rejected ws ↔ (ws.foldl apply init).argErr = true ∨
    (ws.foldl apply init).port = 0 ∨ (ws.foldl apply init).host = [] := by
  simp only [foldl_apply_argErr, foldl_apply_port, foldl_apply_host, Rejected]
  cases hlast : lastPort ws with
  | none => simp
  | some v =>
      simp only [Option.map_some, Option.getD_some, reduceCtorEq, false_or]
      refine ⟨fun h => h.imp_right .inr, fun h => ?_⟩
      rcases h with h | hport | h
      · exact .inl h
      · -- the last port is among the words
        obtain ⟨w, hmem, hw⟩ := List.mem_filterMap.mp (List.mem_of_getLast? hlast)
        cases w with
        | port v' =>
            obtain rfl := Option.some.inj hw
            exact .inl (.inr ⟨v', hmem, hport⟩)
        | _ => cases hw
      · exact .inr h

/-- **Which command lines are checked**: those in which no unknown word is read, and which `main` rejects or
which name a side and a port that is one. -/
theorem checked_iff (argv : List (List Char)) :
    Checked argv ↔ Known (words false argv.tail) ∧
      (Rejected (words false argv.tail) ∨ Complete (words false argv.tail)) := by
  set ws := words false argv.tail
  by_cases hknown : Known ws
  swap
  · -- the loop does not end
    refine iff_of_false ?_ fun h => hknown h.1
    rintro ⟨out, hrun, -⟩
    have hnone := hrun (argv.length + 1) (Nat.lt_succ_self _)
    rw [main, loop_unknown argv _ init (by rwa [List.drop_one])] at hnone
    cases hnone
  have hmain : Checked argv ↔ Proper ws (finish (ws.foldl apply init)) := by
    refine ⟨fun ⟨out, hrun, hproper⟩ => ?_, fun h => ⟨_, fun fuel hfuel => main_eq hfuel hknown, h⟩⟩
    have hlt := Nat.lt_succ_self argv.length
    obtain rfl := Option.some.inj ((main_eq hlt hknown).symm.trans (hrun _ hlt))
    exact hproper
  rw [hmain, and_iff_right hknown]
  rcases finish_cases (ws.foldl apply init) with ⟨hbad, cerr, heq⟩ | ⟨⟨herr, hport, hhost⟩, cerr, heq⟩
  · rw [heq]
    exact iff_of_true ⟨rfl, by simp⟩ (.inl ((rejected_iff ws).mpr hbad))
  · have hgood : ¬ Rejected ws := by
      rw [rejected_iff]
      simp [herr, hport, hhost]
    rw [heq, or_iff_right hgood]
    rw [foldl_apply_port] at hport
    simp only [Proper, Configured, foldl_apply_side, foldl_apply_port]
    constructor
    · rintro ⟨-, hside, v, p, hlast, hdenotes, -, hle, -⟩
      exact ⟨hside, v, p, hlast, hdenotes, hle⟩
    · rintro ⟨hside, v, p, hlast, hdenotes, hle⟩
      have hvalue := portOf_eq hdenotes hle
      rw [hlast] at hport ⊢
      have hpos : p ≠ 0 := fun hzero => hport (hvalue.trans hzero)
      exact ⟨hhost, hside, v, p, rfl, hdenotes, Nat.pos_of_ne_zero hpos, hle, hvalue⟩

/-- `kierki-client -h localhost -p 1234`. -/
def noSide : List (List Char) := ["kierki-client", "-h", "localhost", "-p", "1234"].map String.toList

/-- `kierki-client -x`. -/
def unknownOption : List (List Char) := ["kierki-client", "-x"].map String.toList

/-- `kierki-client -h localhost -p 65537 -N`. -/
def widePort : List (List Char) := ["kierki-client", "-h", "localhost", "-p", "65537", "-N"].map String.toList

/-- The client is constructed without a side; an unknown option is met for ever; and a port beyond 16 bits
is cut. -/
theorem not_checked_noSide :
    (∃ o, main noSide 6 = some (.constructs o) ∧ o.side = none ∧ ¬ Checked noSide) ∧
    (∀ fuel, main unknownOption fuel = none) ∧ ¬ Checked unknownOption ∧
    ∃ o, main widePort 7 = some (.constructs o) ∧ o.port = 1 ∧ ¬ Checked widePort := by
  have hnone : ∀ fuel, main unknownOption fuel = none := by
    intro fuel
    rw [main, loop_unknown unknownOption fuel init]
    · rfl
    · exact fun h => h ['-', 'x'] (by decide +kernel)
  refine ⟨?_, hnone, ?_, ?_⟩
  · obtain ⟨o, hrun, hside⟩ : ∃ o, main noSide 6 = some (.constructs o) ∧ o.side = none :=
      ⟨⟨1234, "localhost".toList, none, .unspec, false, false,
        ["side has to be specified via -N, -S, -E or -W\n".toList]⟩, by decide +kernel, rfl⟩
    refine ⟨o, hrun, hside, fun ⟨out, hout, hproper⟩ => ?_⟩
    obtain rfl := Option.some.inj (hrun.symm.trans (hout 6 (by decide)))
    exact hproper.2.1 hside
  · rintro ⟨out, hout, -⟩
    have hsome := hout 3 (by decide)
    rw [hnone] at hsome
    cases hsome
  · obtain ⟨o, hrun, hport⟩ : ∃ o, main widePort 7 = some (.constructs o) ∧ o.port = 1 :=
      ⟨⟨1, "localhost".toList, some .N, .unspec, false, false, []⟩, by decide +kernel, rfl⟩
    refine ⟨o, hrun, hport, fun ⟨out, hout, hproper⟩ => ?_⟩
    obtain rfl := Option.some.inj (hrun.symm.trans (hout 7 (by decide)))
    obtain ⟨-, -, v, p, hlast, ⟨digits, -, -, hv, hp⟩, -, -, hsame⟩ := hproper
    -- the numeral is that of another number
    have hgiven : lastPort (words false widePort.tail) = some "65537".toList := by decide +kernel
    obtain rfl : "65537".toList = v := Option.some.inj (hgiven.symm.trans hlast)
    rcases hv with rfl | hv
    · have hvalue : Nat.ofDigitChars 10 "65537".toList 0 = 65537 := by decide +kernel
      omega
    · have hplus : "65537".toList.head? ≠ some '+' := by decide +kernel
      exact absurd (congrArg List.head? hv) hplus

end Options

end Kierki
