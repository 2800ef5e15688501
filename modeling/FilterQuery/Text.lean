/-!
# Texts and byte offsets

A text is its list of characters.  Positions in it are counted in BYTES of its UTF-8 form, so a
position may fall inside a character.

* `Text.byteLength`   the length in bytes;
* `Text.takeBytes`, `Text.dropBytes`   the leading characters that fit into a number of bytes, and
  the rest: together they are the text;
* `Text.IsBoundary`   an offset between two characters, at the start or at the end;
* `Text.occursIn`     containment as a contiguous part;
* `Text.replaceBytes` one range of bytes replaced;
* `Text.after?`       what follows a given beginning;
* `Text.decimal`      the digits of a number;
* `Text.padEnd`, `Text.padStart`   spaces up to a number of characters.
-/

namespace FilterQuery

abbrev Text := List Char

namespace Text

/-! ## length -/

def byteLength : Text → Nat
  | [] => 0
  | c :: s => c.utf8Size + byteLength s

@[simp] theorem byteLength_nil : byteLength [] = 0 := rfl

@[simp] theorem byteLength_cons (c : Char) (s : Text) :
    byteLength (c :: s) = c.utf8Size + byteLength s := rfl

@[simp] theorem byteLength_append (s t : Text) :
    byteLength (s ++ t) = byteLength s + byteLength t := by
  induction s with
  | nil => simp
  | cons c s ih => simp [ih, Nat.add_assoc]

theorem byteLength_eq_zero {s : Text} : byteLength s = 0 ↔ s = [] := by
  cases s with
  | nil => simp
  | cons c s =>
    have hc := c.utf8Size_pos
    simp only [byteLength_cons, reduceCtorEq, iff_false]
    omega

/-! ## cuts -/

/-- the longest run of leading characters that fits into `n` bytes -/
def takeBytes : Nat → Text → Text
  | _, [] => []
  | n, c :: s => if c.utf8Size ≤ n then c :: takeBytes (n - c.utf8Size) s else []

/-- what `takeBytes n` leaves -/
def dropBytes : Nat → Text → Text
  | _, [] => []
  | n, c :: s => if c.utf8Size ≤ n then dropBytes (n - c.utf8Size) s else c :: s

@[simp] theorem takeBytes_append_dropBytes (n : Nat) (s : Text) :
    takeBytes n s ++ dropBytes n s = s := by
  induction s generalizing n with
  | nil => rfl
  | cons c s ih =>
    unfold takeBytes dropBytes
    split
    · rw [List.cons_append, ih]
    · rfl

@[simp] theorem takeBytes_byteLength_append (s t : Text) : takeBytes (byteLength s) (s ++ t) = s := by
  induction s with
  | nil =>
    cases t with
    | nil => rfl
    | cons c t =>
      have hc : ¬ c.utf8Size ≤ 0 := Nat.not_le.mpr c.utf8Size_pos
      simp [takeBytes, hc]
  | cons c s ih => simp [takeBytes, ih]

@[simp] theorem dropBytes_byteLength_append (s t : Text) : dropBytes (byteLength s) (s ++ t) = t := by
  have h := takeBytes_append_dropBytes (byteLength s) (s ++ t)
  rw [takeBytes_byteLength_append] at h
  exact List.append_cancel_left h

theorem byteLength_takeBytes_le (n : Nat) (s : Text) : byteLength (takeBytes n s) ≤ n := by
  induction s generalizing n with
  | nil => simp [takeBytes]
  | cons c s ih =>
    unfold takeBytes
    split
    · have h := ih (n - c.utf8Size)
      simp only [byteLength_cons]
      omega
    · simp

/-- the bytes `start` to `stop` replaced; both ends are meant to be boundaries -/
def replaceBytes (s : Text) (start stop : Nat) (t : Text) : Text :=
  takeBytes start s ++ t ++ dropBytes stop s

/-! ## boundaries -/

/-- The characters that fit into `n` bytes fill them. -/
def IsBoundary (s : Text) (n : Nat) : Prop := byteLength (takeBytes n s) = n

instance (s : Text) (n : Nat) : Decidable (IsBoundary s n) :=
  inferInstanceAs (Decidable (_ = _))

/-- **An offset is a boundary exactly if it is the length of some leading part.** -/
theorem isBoundary_iff (s : Text) (n : Nat) :
    IsBoundary s n ↔ ∃ a b, s = a ++ b ∧ byteLength a = n := by
  constructor
  · intro h
    exact ⟨takeBytes n s, dropBytes n s, (takeBytes_append_dropBytes n s).symm, h⟩
  · rintro ⟨a, b, rfl, rfl⟩
    simp [IsBoundary]

/-! ## containment -/

/-- `part` stands somewhere in the text, the empty part always -/
def occursIn (part : Text) : Text → Bool
  | [] => part.isEmpty
  | c :: s => part.isPrefixOf (c :: s) || occursIn part s

theorem occursIn_iff {part s : Text} : occursIn part s = true ↔ part <:+: s := by
  induction s with
  | nil => simp [occursIn]
  | cons c s ih => simp [occursIn, ih, List.infix_cons_iff]

/-! ## beginnings -/

def after? (beginning s : Text) : Option Text :=
  if beginning.isPrefixOf s then some (s.drop beginning.length) else none

theorem after?_eq_some_iff {beginning s rest : Text} :
    after? beginning s = some rest ↔ s = beginning ++ rest := by
  unfold after?
  constructor
  · intro h
    split at h
    · next hp =>
      obtain ⟨t, rfl⟩ := List.isPrefixOf_iff_prefix.mp hp
      simpa using h
    · simp at h
  · rintro rfl
    simp

/-! ## layout -/

def decimal (n : Nat) : Text := Nat.toDigits 10 n

def padEnd (n : Nat) (s : Text) : Text := s ++ List.replicate (n - s.length) ' '

def padStart (n : Nat) (s : Text) : Text := List.replicate (n - s.length) ' ' ++ s

end Text

end FilterQuery
