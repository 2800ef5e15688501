import FilterQuery.Json

/-!
# The range of JSON numbers

A number is taken as a double: the leading digits that fit into a 64-bit word, as a double, times a
power of ten, as a double.  It is in range if this product is finite.

* `round53`           the nearest number with at most 53 binary digits;
* `leadingDigits`     the longest start of a decimal number that fits into a word;
* `Number.inRange`    whether a number is finite as a double;
* `Json.inRange`      whether all numbers of a value are.
-/

namespace FilterQuery.Json

/-- the nearest number with at most 53 binary digits; a tie goes to the even one -/
def round53 (n : Nat) : Nat :=
  let unit := Nat.pow 2 (n.log2 + 1 - 53)
  let q := n / unit
  let r := n % unit
  (if unit < 2 * r ∨ (2 * r = unit ∧ q % 2 = 1) then q + 1 else q) * unit

/-- Drops last digits of `n * 10 ^ e` until those left fit into a word. -/
def leadingDigits (n : Nat) (e : Int) : Nat × Int :=
  if n < UInt64.size then (n, e) else leadingDigits (n / 10) (e + 1)
termination_by n
decreasing_by
  have hpos : 0 < UInt64.size := by decide
  omega

/-- the largest power of ten that is a double -/
def maxPower : Nat := 308

/-- the first power of two beyond the doubles -/
def doubleLimit : Nat := Nat.pow 2 1024

def Number.inRange (n : Number) : Bool :=
  let (s, e) := leadingDigits n.significand n.exponent
  s = 0 || e < 0 ||
    (e ≤ maxPower && round53 (round53 s * round53 (Nat.pow 10 e.toNat)) < doubleLimit)

mutual

def inRange : Json → Bool
  | .num n => n.inRange
  | .arr items => itemsInRange items
  | .obj members => membersInRange members
  | _ => true

def itemsInRange : List Json → Bool
  | [] => true
  | v :: vs => inRange v && itemsInRange vs

def membersInRange : List (Text × Json) → Bool
  | [] => true
  | (_, v) :: ms => inRange v && membersInRange ms

end

end FilterQuery.Json
