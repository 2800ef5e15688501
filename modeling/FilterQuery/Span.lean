/-!
# Spans

Half-open ranges of byte offsets.

* `Span.shift`    both ends moved by an exact integer distance;
* `Span.shifted`  the same on 64-bit words: each end stops at `0` and at `2^64 - 1`.
-/

namespace FilterQuery

/-- the offsets from `start` up to `stop`, without `stop` -/
structure Span where
  start : Nat
  stop : Nat
deriving DecidableEq, Repr, Inhabited

/-- an offset moved by a distance; it does not go below zero -/
def shift (n : Nat) (d : Int) : Nat := (n + d).toNat

namespace Span

def length (a : Span) : Nat := a.stop - a.start

def IsEmpty (a : Span) : Prop := a.start = a.stop

instance (a : Span) : Decidable a.IsEmpty := inferInstanceAs (Decidable (_ = _))

def shift (a : Span) (d : Int) : Span := ⟨FilterQuery.shift a.start d, FilterQuery.shift a.stop d⟩

/-- the largest offset that a 64-bit word holds -/
def maxOffset : Nat := UInt64.size - 1

def shifted (a : Span) (d : Int) : Span :=
  ⟨min (a.shift d).start maxOffset, min (a.shift d).stop maxOffset⟩

end Span

end FilterQuery
