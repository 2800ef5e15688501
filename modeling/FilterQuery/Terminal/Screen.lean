import FilterQuery.Terminal.Palette

/-!
# A screen

What a terminal shows of a text.  It follows the colour sequences of `Palette.paint`; every other
character, also an escape character that opens none, is printed in the colour at hand.

* `readSequence?`   a colour sequence at the front of a text, and what follows it;
* `Screen.feed`     the screen after a text.
-/

namespace FilterQuery
open Text

/-! ## sequences -/

/-- the byte that a row of digits is -/
def byteOfDigits? (ds : Text) : Option UInt8 :=
  if ds ≠ [] ∧ Nat.ofDigitChars 10 ds 0 < 256 then some (.ofNat (Nat.ofDigitChars 10 ds 0))
  else none

/-- a byte with a mark behind it -/
def readByte? (mark : Char) (s : Text) : Option (UInt8 × Text) := do
  let byte ← byteOfDigits? (s.takeWhile Char.isDigit)
  let rest ← after? [mark] (s.dropWhile Char.isDigit)
  return (byte, rest)

def readColor? (s : Text) : Option (Color × Text) := do
  let s ← after? "\x1b[38;2;".toList s
  let (red, s) ← readByte? ';' s
  let (green, s) ← readByte? ';' s
  let (blue, s) ← readByte? 'm' s
  return (⟨red, green, blue⟩, s)

/-- the sequence at the front of a text: the colour to go on in, and what follows -/
def readSequence? (s : Text) : Option (Option Color × Text) :=
  match after? "\x1b[0m".toList s with
  | some rest => some (none, rest)
  | none => (readColor? s).map (fun (c, rest) => (some c, rest))

theorem length_of_after? {beginning s rest : Text} (h : after? beginning s = some rest) :
    s.length = beginning.length + rest.length := by
  rw [after?_eq_some_iff.mp h, List.length_append]

theorem length_of_readByte? {mark : Char} {s : Text} {r : UInt8 × Text}
    (h : readByte? mark s = some r) : r.2.length < s.length := by
  unfold readByte? at h
  obtain ⟨byte, -, h⟩ := Option.bind_eq_some_iff.mp h
  obtain ⟨rest, hrest, h⟩ := Option.bind_eq_some_iff.mp h
  obtain rfl := Option.some.inj h
  have hlength := length_of_after? hrest
  have hle := (List.dropWhile_suffix (l := s) Char.isDigit).length_le
  rw [List.length_singleton] at hlength
  show rest.length < s.length
  omega

theorem length_of_readColor? {s : Text} {r : Color × Text} (h : readColor? s = some r) :
    r.2.length < s.length := by
  unfold readColor? at h
  obtain ⟨s1, h1, h⟩ := Option.bind_eq_some_iff.mp h
  obtain ⟨⟨red, s2⟩, h2, h⟩ := Option.bind_eq_some_iff.mp h
  obtain ⟨⟨green, s3⟩, h3, h⟩ := Option.bind_eq_some_iff.mp h
  obtain ⟨⟨blue, s4⟩, h4, h⟩ := Option.bind_eq_some_iff.mp h
  obtain rfl := Option.some.inj h
  calc s4.length < s3.length := length_of_readByte? h4
    _ < s2.length := length_of_readByte? h3
    _ < s1.length := length_of_readByte? h2
    _ ≤ s.length := by
      rw [length_of_after? h1]
      exact Nat.le_add_left _ _

theorem length_of_readSequence? {s : Text} {r : Option Color × Text}
    (h : readSequence? s = some r) : r.2.length < s.length := by
  unfold readSequence? at h
  split at h
  · next rest hreset =>
    obtain rfl := Option.some.inj h
    rw [length_of_after? hreset]
    exact Nat.lt_add_of_pos_left (by decide)
  · obtain ⟨c, hc, rfl⟩ := Option.map_eq_some_iff.mp h
    exact length_of_readColor? hc

/-! ## the screen -/

structure Cell where
  character : Char
  color : Option Color
deriving DecidableEq, Repr

structure Screen where
  cells : List Cell
  /-- of the characters that are printed next, `none` for the one that the terminal has -/
  color : Option Color
deriving DecidableEq, Repr

namespace Screen

def empty : Screen := ⟨[], none⟩

instance : Inhabited Screen := ⟨empty⟩

def print (a : Screen) (s : Text) : Screen :=
  { a with cells := a.cells ++ s.map (fun c => ⟨c, a.color⟩) }

def text (a : Screen) : Text := a.cells.map Cell.character

def feed (a : Screen) : Text → Screen
  | [] => a
  | c :: s =>
    match _h : readSequence? (c :: s) with
    | some (color, rest) => feed { a with color := color } rest
    | none => feed (a.print [c]) s
termination_by s => s.length
decreasing_by
  · exact length_of_readSequence? _h
  · exact Nat.lt_succ_self _

end Screen

end FilterQuery
