import FilterQuery.InPlace

/-!
# The edit between two texts, byte after byte

What `Edit.between` gives, from the bytes of the two texts.  As many bytes as they have in common
are left alone, at the start and then at the end of what follows; of these as many are given back as
it takes to stand at a boundary of both texts.  As for an edit in place, what is not there is `none`:
a number below zero, or a text that is cut inside a character.

* `Text.bytes`     the UTF-8 form of a text;
* `agreement`      how many bytes two lists have in common at the start;
* `retreat?`       a number counted down until it passes a test;
* `Edit.trim?`     the edit.
-/

namespace FilterQuery

def Text.bytes (s : Text) : List UInt8 := s.flatMap String.utf8EncodeChar

def agreement (as bs : List UInt8) : Nat :=
  ((as.zip bs).takeWhile (fun (a, b) => a == b)).length

theorem agreement_cons_self (a : UInt8) (as bs : List UInt8) :
    agreement (a :: as) (a :: bs) = agreement as bs + 1 := by
  unfold agreement
  rw [List.zip_cons_cons, List.takeWhile_cons]
  simp

theorem agreement_cons_of_ne {a b : UInt8} (h : a ≠ b) (as bs : List UInt8) :
    agreement (a :: as) (b :: bs) = 0 := by
  unfold agreement
  rw [List.zip_cons_cons, List.takeWhile_cons]
  simp [h]

/-- the difference of two numbers, if it is one -/
def minus? (n m : Nat) : Option Nat := if m ≤ n then some (n - m) else none

/-- whether an offset counted from the end is a boundary -/
def Text.endsAfter? (s : Text) (n : Nat) : Option Bool :=
  (minus? s.byteLength n).map (fun m => s.IsBoundary m)

/-- the first number from `n` downwards that passes a test; the test itself may fail -/
def retreat? (p : Nat → Option Bool) (n : Nat) : Option Nat := do
  if ← p n then return n
  match n with
  | 0 => none
  | n + 1 => retreat? p n

namespace Edit

/-- what two texts have in common at the start, back to a boundary of both -/
def trimFront? (old new : Text) : Option Nat :=
  retreat? (fun n => some (old.IsBoundary n && new.IsBoundary n)) (agreement old.bytes new.bytes)

/-- what two texts have in common at the end, back to a boundary of both -/
def trimBack? (old new : Text) : Option Nat :=
  retreat? (fun n => do if ← old.endsAfter? n then new.endsAfter? n else return false)
    (agreement old.bytes.reverse new.bytes.reverse)

/-- There is no edit between equal texts. -/
def trim? (old new : Text) : Option (Option Edit) :=
  if old = new then some none
  else do
    let front ← trimFront? old new
    let before ← old.from? front
    let after ← new.from? front
    let back ← trimBack? before after
    let stop ← minus? old.byteLength back
    let replacement ← after.part? ⟨0, ← minus? after.byteLength back⟩
    return some ⟨⟨front, stop⟩, replacement⟩

end Edit

end FilterQuery
