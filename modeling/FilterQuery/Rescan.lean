import FilterQuery.Edit
import FilterQuery.Verdict

/-!
# Editing a query

An edit leaves most tokens of a query as they are.  How far a lexeme reaches depends on one character
behind it, and its verdict on the last role in front of it.  So the tokens that end before the
edit are good; all but the last of them are kept, and reading begins at the next one.  It may end
behind the edit, at a place where an old token began behind the same last role: from there on the
old tokens, moved by the growth of the text, are what reading would give.  If a parenthesis was
read or removed, all parentheses are settled once more.

* `lastRole`          the last role other than a blank in a list of tokens;
* `tailFrom`          the old tokens from an offset on, if they can follow a role;
* `Registry.rescan`   reads on until old tokens can be kept;
* `Query.edit`        the query after an edit, and a `Change` that tells what was read.
-/

namespace FilterQuery

/-! ## old tokens -/

def lastRole (previous : Option Role) (ts : List Token) : Option Role :=
  ts.foldl (fun r t => after r t.role) previous

theorem lastRole_append (previous : Option Role) (ts us : List Token) :
    lastRole previous (ts ++ us) = lastRole (lastRole previous ts) us := List.foldl_append ..

/-- the tokens that an edit at `offset` cannot influence from behind -/
def untouched (offset : Nat) (ts : List Token) : List Token :=
  (ts.takeWhile (fun t => t.span.stop < offset)).dropLast

/-- The tokens from the one on that starts at `offset`, if there is one and the last role in front
of it is `role`; the list itself stands behind `previous`. -/
def tailFrom (offset : Nat) (role : Option Role) (previous : Option Role) :
    List Token → Option (List Token)
  | [] => none
  | t :: ts =>
    if t.span.start < offset then tailFrom offset role (after previous t.role) ts
    else if t.span.start = offset ∧ previous = role then some (t :: ts)
    else none

/-! ## reading on -/

/-- Judges the lexemes of a text one after another until there are old tokens for the offset
reached and the last role.  Gives the tokens read and the old ones. -/
def Registry.rescan (reg : Registry) (old : Nat → Option Role → Option (List Token))
    (previous : Option Role) (start : Nat) : Text → List Token × List Token
  | [] => ([], [])
  | c :: s =>
    let m := munch c s
    let l := m.lexeme start
    let t := reg.judge previous l
    let role := after previous t.role
    match old l.span.stop role with
    | some kept => ([t], kept)
    | none =>
      let (read, kept) := rescan reg old role l.span.stop m.rest
      (t :: read, kept)
termination_by s => s.length
decreasing_by exact Nat.lt_succ_of_le (munch_rest_length_le c s)

theorem Registry.rescan_nil (reg : Registry) (old : Nat → Option Role → Option (List Token))
    (previous : Option Role) (start : Nat) : reg.rescan old previous start [] = ([], []) := by
  rw [Registry.rescan]

theorem Registry.rescan_cons (reg : Registry) (old : Nat → Option Role → Option (List Token))
    (previous : Option Role) (start : Nat) (c : Char) (s : Text) :
    reg.rescan old previous start (c :: s) =
      let l := (munch c s).lexeme start
      let t := reg.judge previous l
      match old l.span.stop (after previous t.role) with
      | some kept => ([t], kept)
      | none =>
        let r := reg.rescan old (after previous t.role) l.span.stop (munch c s).rest
        (t :: r.1, r.2) := by
  rw [Registry.rescan]

/-- Of tokens from before the edit, behind `previous`, those that can follow an offset in the text
after it. -/
def Edit.keepable (e : Edit) (previous : Option Role) (ts : List Token) (offset : Nat)
    (role : Option Role) : Option (List Token) :=
  if offset < e.stop then none else tailFrom (shift offset (-e.delta)) role previous ts

/-! ## the query after an edit -/

/-- what an edit changed in the tokens of a query -/
structure Change where
  /-- the part of the new text that was read -/
  extent : Span
  /-- the index of the first token read -/
  first : Nat
  /-- the number of tokens read -/
  count : Nat
  /-- whether all parentheses were settled once more -/
  resettled : Bool
deriving DecidableEq, Repr

namespace Query

/-- an edit known to fit -/
def splice (reg : Registry) (q : Query) (e : Edit) : Query × Change :=
  let source := e.apply q.source
  let head := untouched e.range.start q.tokens
  let tail := q.tokens.drop head.length
  let origin := (tail.head?.map (fun t => t.span.start)).getD 0
  let previous := lastRole none head
  let (read, kept) :=
    reg.rescan (e.keepable previous tail) previous origin (source.dropBytes origin)
  let removed := tail.take (tail.length - kept.length)
  let resettled := (removed ++ read).any (fun t => t.role.isParen)
  let tokens := head ++ read ++ kept.map (fun t => t.shift e.delta)
  let stop := (read.getLast?.map (fun t => t.span.stop)).getD origin
  (⟨source, if resettled then balanced tokens else tokens⟩,
    ⟨⟨origin, stop⟩, head.length, read.length, resettled⟩)

def edit (reg : Registry) (q : Query) (e : Edit) : Except EditError (Query × Change) :=
  match e.check q.source with
  | .error x => .error x
  | .ok () => .ok (q.splice reg e)

theorem source_splice (reg : Registry) (q : Query) (e : Edit) :
    (q.splice reg e).1.source = e.apply q.source := rfl

end Query

end FilterQuery
