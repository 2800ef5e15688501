import FilterQuery.Json.Reader

/-!
# The grammar of JSON

Which texts stand for which values, told without the reader.

    value   := null | true | false | number | "characters" | [ items ] | { members }
    items   := value , value , ...          members := "characters" : value , ...
    number  := -? whole (. digits)? (e sign? digits)?

Blanks may stand around every value and every key.

* `Number.Spelled n s`      the number `n`, in any of its forms;
* `SpelledText t s`         the characters of a string, each as it is or escaped; half a surrogate
  pair is no character, so a string with one stands for nothing;
* `Listed P as s`           a row of items with commas between them;
* `Spelled v s`             the value `v`, without blanks around it;
* `depth v`                 how many lists and objects enclose one another in `v`;
* `induction`               from the items of a value to the value.
-/

namespace FilterQuery.Json

def Blank (s : Text) : Prop := ∀ c ∈ s, isBlank c

instance (s : Text) : Decidable (Blank s) := decidable_of_iff (s.all isBlank) List.all_eq_true

/-! ## numbers -/

def Digits (ds : Text) : Prop := ds ≠ [] ∧ ∀ c ∈ ds, c.isDigit

instance (ds : Text) : Decidable (Digits ds) :=
  decidable_of_iff (ds ≠ [] ∧ ds.all Char.isDigit) (and_congr_right (fun _ => List.all_eq_true))

/-- the digits in front of the point, where a zero stands alone -/
def WholeDigits (ds : Text) : Prop := Digits ds ∧ (ds.head? = some '0' → ds = ['0'])

instance (ds : Text) : Decidable (WholeDigits ds) :=
  inferInstanceAs (Decidable (Digits ds ∧ (ds.head? = some '0' → ds = ['0'])))

/-- the digits behind the point, with the point -/
inductive SpelledFraction : Text → Text → Prop where
  | absent : SpelledFraction [] []
  | digits {ds : Text} (h : Digits ds) : SpelledFraction ds ('.' :: ds)

/-- a power of ten -/
inductive SpelledPower : Int → Text → Prop where
  | absent : SpelledPower 0 []
  | plain {e : Char} {ds : Text} (he : e = 'e' ∨ e = 'E') (h : Digits ds) :
      SpelledPower (digitsValue ds) (e :: ds)
  | plus {e : Char} {ds : Text} (he : e = 'e' ∨ e = 'E') (h : Digits ds) :
      SpelledPower (digitsValue ds) (e :: '+' :: ds)
  | minus {e : Char} {ds : Text} (he : e = 'e' ∨ e = 'E') (h : Digits ds) :
      SpelledPower (-(digitsValue ds : Int)) (e :: '-' :: ds)

def sign (negative : Bool) : Text := if negative then ['-'] else []

inductive Number.Spelled : Number → Text → Prop where
  | intro (negative : Bool) {whole fraction point power : Text} {k : Int}
      (hwhole : WholeDigits whole) (hfraction : SpelledFraction fraction point)
      (hpower : SpelledPower k power) :
      Spelled ⟨negative, digitsValue (whole ++ fraction), k - fraction.length⟩
        (sign negative ++ (whole ++ (point ++ power)))

/-! ## strings -/

/-- the letters that may stand behind a backslash, with what they stand for -/
def shortEscapes : List (Char × Char) :=
  [('"', '"'), ('\\', '\\'), ('/', '/'), ('b', '\x08'), ('f', '\x0c'), ('n', '\n'), ('r', '\r'),
    ('t', '\t')]

def HexDigit (c : Char) (n : Nat) : Prop :=
  "0123456789abcdef".toList[n]? = some c ∨ "0123456789ABCDEF".toList[n]? = some c

inductive SpelledCode : Nat → Text → Prop where
  | intro {a b c d : Char} {i j k l : Nat} (ha : HexDigit a i) (hb : HexDigit b j)
      (hc : HexDigit c k) (hd : HexDigit d l) :
      SpelledCode (((i * 16 + j) * 16 + k) * 16 + l) [a, b, c, d]

inductive SpelledChar : Char → Text → Prop where
  | plain {c : Char} (hquote : c ≠ '"') (hslash : c ≠ '\\') (hcontrol : ¬ c < ' ') :
      SpelledChar c [c]
  | short {d c : Char} (h : (d, c) ∈ shortEscapes) : SpelledChar c ['\\', d]
  | code {c : Char} {s : Text} (h : SpelledCode c.toNat s) : SpelledChar c ('\\' :: 'u' :: s)
  /-- a character beyond the first 65536, as a high and a low surrogate -/
  | pair {c : Char} {n m : Nat} {s t : Text} (hs : SpelledCode (0xD800 + n) s)
      (ht : SpelledCode (0xDC00 + m) t) (hn : n < 0x400) (hm : m < 0x400)
      (h : c.toNat = 0x10000 + n * 0x400 + m) :
      SpelledChar c ('\\' :: 'u' :: s ++ '\\' :: 'u' :: t)

inductive SpelledText : Text → Text → Prop where
  | nil : SpelledText [] []
  | cons {c : Char} {t r s : Text} (hc : SpelledChar c r) (ht : SpelledText t s) :
      SpelledText (c :: t) (r ++ s)

/-! ## values -/

/-- one item or more, with blanks around each -/
inductive Listed {α : Type} (P : α → Text → Prop) : List α → Text → Prop where
  | one {a : α} {s : Text} (front back : Text) (hfront : Blank front) (h : P a s)
      (hback : Blank back) : Listed P [a] (front ++ (s ++ back))
  | more {a : α} {as : List α} {s t : Text} (front back : Text) (hfront : Blank front) (h : P a s)
      (hback : Blank back) (ht : Listed P as t) :
      Listed P (a :: as) (front ++ (s ++ (back ++ ',' :: t)))

/-- a key and a value, with blanks around the colon -/
inductive SpelledMember {α : Type} (P : α → Text → Prop) : Text × α → Text → Prop where
  | intro {k r s : Text} {a : α} (front back : Text) (hk : SpelledText k r) (hfront : Blank front)
      (hback : Blank back) (h : P a s) :
      SpelledMember P (k, a) ('"' :: (r ++ '"' :: (front ++ ':' :: (back ++ s))))

inductive Spelled : Json → Text → Prop where
  | null : Spelled .null "null".toList
  | bool (b : Bool) : Spelled (.bool b) (if b then "true".toList else "false".toList)
  | num {n : Number} {s : Text} (h : n.Spelled s) : Spelled (.num n) s
  | str {t s : Text} (h : SpelledText t s) : Spelled (.str t) ('"' :: (s ++ ['"']))
  | emptyArr {b : Text} (h : Blank b) : Spelled (.arr []) ('[' :: (b ++ [']']))
  | arr {items : List Json} {s : Text} (h : Listed Spelled items s) :
      Spelled (.arr items) ('[' :: (s ++ [']']))
  | emptyObj {b : Text} (h : Blank b) : Spelled (.obj []) ('\x7b' :: (b ++ ['\x7d']))
  | obj {members : Members} {s : Text} (h : Listed (SpelledMember Spelled) members s) :
      Spelled (.obj members) ('\x7b' :: (s ++ ['\x7d']))

/-! ## depth -/

mutual

def depth : Json → Nat
  | .arr items => itemsDepth items + 1
  | .obj members => membersDepth members + 1
  | _ => 0

def itemsDepth : List Json → Nat
  | [] => 0
  | v :: vs => max (depth v) (itemsDepth vs)

def membersDepth : List (Text × Json) → Nat
  | [] => 0
  | (_, v) :: ms => max (depth v) (membersDepth ms)

end

theorem depth_le_itemsDepth {v : Json} {items : List Json} (h : v ∈ items) :
    v.depth ≤ itemsDepth items := by
  induction items with
  | nil => exact absurd h List.not_mem_nil
  | cons u us ih =>
    show v.depth ≤ max u.depth (itemsDepth us)
    rcases List.mem_cons.mp h with rfl | h
    · exact Nat.le_max_left _ _
    · exact Nat.le_trans (ih h) (Nat.le_max_right _ _)

theorem depth_le_membersDepth {m : Text × Json} {members : Members} (h : m ∈ members) :
    m.2.depth ≤ membersDepth members := by
  induction members with
  | nil => exact absurd h List.not_mem_nil
  | cons u us ih =>
    show m.2.depth ≤ max u.2.depth (membersDepth us)
    rcases List.mem_cons.mp h with rfl | h
    · exact Nat.le_max_left _ _
    · exact Nat.le_trans (ih h) (Nat.le_max_right _ _)

/-- **What holds of a list if it holds of its items**, and of an object if it holds of the values of
its members, holds of every value. -/
@[elab_as_elim]
theorem induction {motive : Json → Prop} (null : motive .null) (bool : ∀ b, motive (.bool b))
    (num : ∀ n, motive (.num n)) (str : ∀ s, motive (.str s))
    (arr : ∀ items, (∀ v ∈ items, motive v) → motive (.arr items))
    (obj : ∀ members : Members, (∀ m ∈ members, motive m.2) → motive (.obj members)) (v : Json) :
    motive v := by
  -- by the depth of the value
  generalize hn : v.depth = n
  induction n using Nat.strongRecOn generalizing v with
  | ind n ih =>
    cases v with
    | null => exact null
    | bool b => exact bool b
    | num n => exact num n
    | str s => exact str s
    | arr items =>
      refine arr items (fun v hv => ih v.depth ?_ v rfl)
      rw [← hn]
      exact Nat.lt_succ_of_le (depth_le_itemsDepth hv)
    | obj members =>
      refine obj members (fun m hm => ih m.2.depth ?_ m.2 rfl)
      rw [← hn]
      exact Nat.lt_succ_of_le (depth_le_membersDepth hm)

end FilterQuery.Json
