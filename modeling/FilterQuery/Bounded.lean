import FilterQuery.Trimming

/-!
# Editing with numbers of 64 bits

`Query.editInPlace` counts without bounds.  Here an offset is a number of 64 bits without a sign and
a distance one with a sign.  A sum or a difference that has no such form is `none`, as anything is
that is not there.  Only where a distance is added to an offset the sum stops at the ends instead,
and each of these additions goes on record.  Indices of tokens are counted as before.

* `offset?`, `distance?`, `asDistance`   numbers in 64 bits;
* `Addition`, `Recorded`        an addition that stops at the ends, and steps that record them;
* `Edit.delta?`, `Edit.stop?`   by how many bytes the text grows, and where the inserted text ends;
* `Edit.takeoverBounded`, `Registry.readOnBounded`, `moveFromBounded`   what an edit does with
  offsets;
* `Query.editBounded`           the edit.
-/

namespace FilterQuery

/-! ## numbers -/

/-- the largest distance that 64 bits hold, `2 ^ 63 - 1`; the least one is a byte further from
`0` -/
def maxDistance : Nat := UInt64.size / 2 - 1

def offset? (n : Nat) : Option Nat := if n ≤ Span.maxOffset then some n else none

def distance? (d : Int) : Option Int :=
  if -(maxDistance : Int) - 1 ≤ d ∧ d ≤ maxDistance then some d else none

def asDistance (n : Nat) : Int := Int.bmod n UInt64.size

/-! ## additions -/

inductive Addition.Purpose where
  /-- an offset of the new text is taken back to the old one -/
  | back
  /-- an end of an old token is moved along with the text behind the edit -/
  | along
deriving DecidableEq, Repr

structure Addition where
  purpose : Addition.Purpose
  offset : Nat
  distance : Int
deriving DecidableEq, Repr

namespace Addition

/-- the sum, which stops at `0` and at the largest offset -/
def sum (a : Addition) : Nat := min (shift a.offset a.distance) Span.maxOffset

def IsExact (a : Addition) : Prop := (a.sum : Int) = a.offset + a.distance

instance (a : Addition) : Decidable a.IsExact := inferInstanceAs (Decidable (_ = _))

end Addition

/-- Steps that fail where something is not there, and that keep a record of their additions. -/
abbrev Recorded := StateT (List Addition) Option

def Recorded.add (purpose : Addition.Purpose) (offset : Nat) (distance : Int) : Recorded Nat := do
  let a : Addition := ⟨purpose, offset, distance⟩
  modify (· ++ [a])
  return a.sum

/-! ## edits -/

namespace Edit

def delta? (e : Edit) : Option Int := do
  let removed ← minus? e.range.stop e.range.start
  distance? (asDistance e.replacement.byteLength - asDistance removed)

def stop? (e : Edit) : Option Nat := offset? (e.range.start + e.replacement.byteLength)

/-- `Edit.takeover?`, with the growth of the text and the end of the inserted text as given -/
def takeoverBounded (delta : Int) (last : Nat) (ts : List Token) (stop : Nat) (role : Option Role)
    (index : Nat) : Recorded (Nat × Bool) := do
  if stop < last then return (index, false)
  let offset ← Recorded.add .back stop (← distance? (-delta))
  let index := passTo ts offset index
  match ts[index]? with
  | none => return (index, false)
  | some t =>
    if t.span.start = offset then
      let r ← roleInFront? ts index
      return (index, decide (r = role))
    else return (index, false)

end Edit

def Registry.readOnBounded (reg : Registry) (s : Text) (ts : List Token) (delta : Int) (last : Nat)
    (start : Nat) (previous : Option Role) (index : Nat) : Recorded (List Token × Nat) :=
  match _h : lexemeAt? s start with
  | none => failure
  | some none => return ([], ts.length)
  | some (some l) => do
    let t := reg.judge previous l
    let role := after previous t.role
    match ← Edit.takeoverBounded delta last ts l.span.stop role index with
    | (index, true) => return ([t], index)
    | (index, false) =>
      let (read, next) ← readOnBounded reg s ts delta last l.span.stop role index
      return (t :: read, next)
termination_by s.byteLength - start
decreasing_by
  have hl := stop_of_lexemeAt? _h
  omega

def Token.moveBounded (d : Int) (t : Token) : Recorded Token := do
  let start ← Recorded.add .along t.span.start d
  let stop ← Recorded.add .along t.span.stop d
  return { t with span := ⟨start, stop⟩ }

def moveFromBounded (ts : List Token) (index : Nat) (d : Int) : Recorded (List Token) := do
  let us ← segment? ts index ts.length
  return ts.take index ++ (← us.mapM (Token.moveBounded d))

def Query.editBounded (reg : Registry) (q : Query) (e : Edit) :
    Recorded (Query × Except EditError Change) :=
  match e.check q.source with
  | .error x => return (q, .error x)
  | .ok () => do
    let delta ← e.delta?
    let source ← q.source.exchange? e.range e.replacement
    let last ← e.stop?
    let touched ← partitionPoint? (fun t => t.span.stop < e.range.start) q.tokens 0 q.tokens.length
    let first := touched - 1
    let origin := (q.tokens[first]?.map (fun t => t.span.start)).getD 0
    let previous ← roleInFront? q.tokens first
    let (read, next) ← reg.readOnBounded source q.tokens delta last origin previous first
    let removed ← segment? q.tokens first next
    let resettled := (removed ++ read).any (fun t => t.role.isParen)
    let stop := (read.getLast?.map (fun t => t.span.stop)).getD origin
    let tokens ← exchangeSegment? q.tokens first next read
    let tokens ← moveFromBounded tokens (first + read.length) delta
    let tokens ← if resettled then resettle? tokens else some tokens
    return (⟨source, tokens⟩, .ok ⟨⟨origin, stop⟩, first, read.length, resettled⟩)

end FilterQuery
