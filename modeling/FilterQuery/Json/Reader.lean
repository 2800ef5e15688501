import FilterQuery.Json

/-!
# Reading JSON

A reader takes a text and gives a value with the text behind it, or nothing.

* `readNumber`, `readString`   numbers and strings; an escaped character may be a surrogate pair;
* `separated`                  items between brackets, with commas;
* `readValue n`                a value in which at most `n` lists and objects enclose one another;
* `Json.read`                  the first value of a text, with the text behind it.
-/

namespace FilterQuery.Json

def skipBlank (s : Text) : Text := s.dropWhile isBlank

/-! ## numbers -/

/-- the value of a row of digits -/
def digitsValue (ds : Text) : Nat := Nat.ofDigitChars 10 ds 0

theorem digitsValue_decimal (n : Nat) : digitsValue (Text.decimal n) = n :=
  Nat.ofDigitChars_toDigits (by decide) (by decide)

/-- one digit or more -/
def readDigits (s : Text) : Option (Text × Text) :=
  match s.takeWhile Char.isDigit with
  | [] => none
  | ds => some (ds, s.dropWhile Char.isDigit)

/-- A zero stands alone in front of the point. -/
def readWhole (s : Text) : Option (Text × Text) :=
  match readDigits s with
  | some ('0' :: _ :: _, _) => none
  | r => r

/-- the digits behind a point; none if there is no point -/
def readFraction : Text → Option (Text × Text)
  | '.' :: s => readDigits s
  | s => some ([], s)

/-- a power of ten; zero if there is none -/
def readExponent : Text → Option (Int × Text)
  | c :: s =>
    if c = 'e' ∨ c = 'E' then
      match s with
      | '-' :: r => (readDigits r).map (fun (ds, r) => (-(digitsValue ds : Int), r))
      | '+' :: r => (readDigits r).map (fun (ds, r) => ((digitsValue ds : Int), r))
      | r => (readDigits r).map (fun (ds, r) => ((digitsValue ds : Int), r))
    else some (0, c :: s)
  | [] => some (0, [])

def readUnsigned (negative : Bool) (s : Text) : Option (Number × Text) := do
  let (whole, s) ← readWhole s
  let (fraction, s) ← readFraction s
  let (power, s) ← readExponent s
  return (⟨negative, digitsValue (whole ++ fraction), power - fraction.length⟩, s)

def readNumber : Text → Option (Number × Text)
  | '-' :: s => readUnsigned true s
  | s => readUnsigned false s

/-! ## strings -/

def hexValue (c : Char) : Option Nat :=
  if c.isDigit then some (c.toNat - '0'.toNat)
  else if 'a' ≤ c ∧ c ≤ 'f' then some (c.toNat - 'a'.toNat + 10)
  else if 'A' ≤ c ∧ c ≤ 'F' then some (c.toNat - 'A'.toNat + 10)
  else none

/-- four hexadecimal digits -/
def readHex : Text → Option (Nat × Text)
  | a :: b :: c :: d :: s => do
    return (((← hexValue a) * 16 + (← hexValue b)) * 256 + (← hexValue c) * 16 + (← hexValue d), s)
  | _ => none

def isHighSurrogate (n : Nat) : Bool := 0xD800 ≤ n && n < 0xDC00

def isLowSurrogate (n : Nat) : Bool := 0xDC00 ≤ n && n < 0xE000

/-- the character of a code behind `\u`, which a second code may have to complete -/
def readCode (s : Text) : Option (Char × Text) :=
  match readHex s with
  | none => none
  | some (n, s) =>
    if isHighSurrogate n then
      match s with
      | '\\' :: 'u' :: s =>
        match readHex s with
        | some (m, s) =>
          if isLowSurrogate m then
            some (Char.ofNat (0x10000 + (n - 0xD800) * 0x400 + (m - 0xDC00)), s)
          else none
        | none => none
      | _ => none
    else if isLowSurrogate n then none
    else some (Char.ofNat n, s)

/-- the character that a letter behind a backslash stands for -/
def unescape : Char → Option Char
  | '"' => some '"'
  | '\\' => some '\\'
  | '/' => some '/'
  | 'b' => some '\x08'
  | 'f' => some '\x0c'
  | 'n' => some '\n'
  | 'r' => some '\r'
  | 't' => some '\t'
  | _ => none

/-- one character of a string that is written with `c` first -/
def readCharacter (c : Char) (s : Text) : Option (Char × Text) :=
  if c = '\\' then
    match s with
    | 'u' :: s => readCode s
    | d :: s => (unescape d).map (fun x => (x, s))
    | [] => none
  else if c < ' ' then none
  else some (c, s)

theorem readHex_length {s r : Text} {n : Nat} (h : readHex s = some (n, r)) :
    r.length ≤ s.length := by
  unfold readHex at h
  split at h
  · simp only [Option.pure_def, Option.bind_eq_bind, Option.bind_eq_some_iff, Option.some.injEq,
      Prod.mk.injEq] at h
    obtain ⟨_, _, _, _, _, _, _, _, _, rfl⟩ := h
    simp only [List.length_cons]
    omega
  · simp at h

theorem readCode_length {s r : Text} {c : Char} (h : readCode s = some (c, r)) :
    r.length ≤ s.length := by
  unfold readCode at h
  split at h
  · simp at h
  · next n u hu =>
    have h1 := readHex_length hu
    split at h
    · split at h
      · next v =>
        split at h
        · next m w hw =>
          have h2 := readHex_length hw
          split at h
          · simp only [Option.some.injEq, Prod.mk.injEq] at h
            obtain ⟨_, rfl⟩ := h
            simp only [List.length_cons] at h1
            omega
          · simp at h
        · simp at h
      · simp at h
    · split at h
      · simp at h
      · simp only [Option.some.injEq, Prod.mk.injEq] at h
        obtain ⟨_, rfl⟩ := h
        exact h1

theorem readCharacter_length {c d : Char} {s r : Text} (h : readCharacter c s = some (d, r)) :
    r.length ≤ s.length := by
  unfold readCharacter at h
  split at h
  · split at h
    · have h1 := readCode_length h
      simp only [List.length_cons]
      omega
    · simp only [Option.map_eq_some_iff, Prod.mk.injEq] at h
      obtain ⟨_, _, _, rfl⟩ := h
      simp
    · simp at h
  · split at h
    · simp at h
    · simp only [Option.some.injEq, Prod.mk.injEq] at h
      obtain ⟨_, rfl⟩ := h
      exact Nat.le_refl _

/-- the rest of a string whose opening quote has been taken -/
def readString : Text → Option (Text × Text)
  | [] => none
  | c :: s =>
    if c = '"' then some ([], s)
    else
      match _h : readCharacter c s with
      | none => none
      | some (d, r) => (readString r).map (fun (t, rest) => (d :: t, rest))
termination_by s => s.length
decreasing_by exact Nat.lt_succ_of_le (readCharacter_length (by assumption))

/-! ## lists and objects -/

section
variable {α : Type} (item : Text → Option (α × Text)) (close : Char)

/-- items with commas between them, up to a closing bracket; at most `fuel` items -/
def readItems : Nat → Text → Option (List α × Text)
  | 0, _ => none
  | fuel + 1, s =>
    match item s with
    | none => none
    | some (a, s) =>
      match skipBlank s with
      | ',' :: s => (readItems fuel s).map (fun (as, rest) => (a :: as, rest))
      | c :: s => if c = close then some ([a], s) else none
      | [] => none

/-- what follows an opening bracket; an item has a character, so there are no more than those -/
def separated (s : Text) : Option (List α × Text) :=
  match skipBlank s with
  | c :: r => if c = close then some ([], r) else readItems item close (c :: r).length (c :: r)
  | [] => none

end

/-- a key, a colon and a value -/
def readMember (value : Text → Option (Json × Text)) (s : Text) : Option ((Text × Json) × Text) :=
  match skipBlank s with
  | '"' :: s =>
    match readString s with
    | none => none
    | some (k, s) =>
      match skipBlank s with
      | ':' :: s => (value s).map (fun (v, rest) => ((k, v), rest))
      | _ => none
  | _ => none

/-! ## values -/

/-- a value without items -/
def readScalar (s : Text) : Option (Json × Text) :=
  match s with
  | '"' :: s => (readString s).map (fun (t, rest) => (.str t, rest))
  | 'n' :: _ => (Text.after? "null".toList s).map (fun rest => (.null, rest))
  | 't' :: _ => (Text.after? "true".toList s).map (fun rest => (.bool true, rest))
  | 'f' :: _ => (Text.after? "false".toList s).map (fun rest => (.bool false, rest))
  | s => (readNumber s).map (fun (n, rest) => (.num n, rest))

/-- a value with at most `depth` lists and objects around one another -/
def readValue (depth : Nat) (s : Text) : Option (Json × Text) :=
  match skipBlank s with
  | '[' :: r =>
    match depth with
    | 0 => none
    | n + 1 => (separated (fun t => readValue n t) ']' r).map (fun (vs, rest) => (.arr vs, rest))
  | '\x7b' :: r =>
    match depth with
    | 0 => none
    | n + 1 =>
      (separated (readMember (fun t => readValue n t)) '\x7d' r).map
        (fun (ms, rest) => (.obj ms, rest))
  | r => readScalar r

/-- how many lists and objects may enclose one another -/
def maxDepth : Nat := 127

def read (s : Text) : Option (Json × Text) := readValue maxDepth s

end FilterQuery.Json
