import FilterQuery.Text

/-!
# JSON values

* `Json`         a value; an object is the list of its members as written, repeated keys included;
* `Json.Number`  a number as written: sign, digits and power of ten;
* `Json.values`  the values under a key of an object.
-/

namespace FilterQuery

namespace Json

/-- plus or minus `significand * 10 ^ exponent` -/
structure Number where
  negative : Bool
  significand : Nat
  exponent : Int
deriving DecidableEq, Repr

def Number.ofNat (n : Nat) : Number := ⟨false, n, 0⟩

end Json

inductive Json where
  | null
  | bool (b : Bool)
  | num (n : Json.Number)
  | str (s : Text)
  | arr (items : List Json)
  | obj (members : List (Text × Json))
deriving Repr, Inhabited

namespace Json

abbrev Members := List (Text × Json)

/-- the values of the members with one of the keys, in order -/
def Members.values (ms : Members) (keys : List Text) : List Json :=
  (ms.filter (fun m => keys.contains m.1)).map Prod.snd

/-- the space, the tab and the two line ends -/
def isBlank (c : Char) : Bool := c = ' ' || c = '\n' || c = '\t' || c = '\r'

end Json

end FilterQuery
