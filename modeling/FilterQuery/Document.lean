import FilterQuery.Suggestion

/-!
# Documents

A document is a query that is being edited.  Its tokens are those of its text at any time, and its
revision counts the changes.

* `Document.edit`     one edit;
* `Document.sync`     a whole new text, reached by the smallest edit;
* `Document.accept`   a suggestion taken;
* `Document.reset`    the empty text again.
-/

namespace FilterQuery

structure Document where
  registry : Registry
  query : Query
  revision : Nat
deriving DecidableEq, Repr

/-- the news of an edit: the revision that it led to and what it changed -/
structure Revised where
  revision : Nat
  change : Change
deriving DecidableEq, Repr

namespace Document

def ofText (reg : Registry) (text : Text) : Document := ⟨reg, .ofText reg text, 0⟩

def new (reg : Registry) : Document := ofText reg []

def text (d : Document) : Text := d.query.source

/-- the next revision -/
def revise (d : Document) (q : Query) (c : Change) : Document × Revised :=
  let revision := d.revision + 1
  ({ d with query := q, revision := revision }, ⟨revision, c⟩)

def reset (d : Document) : Document := { d with query := .empty, revision := d.revision + 1 }

def edit (d : Document) (e : Edit) : Except EditError (Document × Revised) :=
  match d.query.edit d.registry e with
  | .error x => .error x
  | .ok (q, c) => .ok (d.revise q c)

/-- Nothing is revised if the text is the same. -/
def sync (d : Document) (text : Text) : Except EditError (Document × Option Revised) :=
  match Edit.between d.text text with
  | none => .ok (d, none)
  | some e =>
    match d.edit e with
    | .error x => .error x
    | .ok (d', p) => .ok (d', some p)

def suggestAt (d : Document) (caret : Nat) : Option (Nat × List Field) :=
  d.query.suggestAt d.registry caret

/-- Gives the caret behind the name taken. -/
def accept (d : Document) (index : Nat) (f : Field) : Except EditError (Document × Nat) :=
  match d.query.accept d.registry index f with
  | .error x => .error x
  | .ok (caret, q, c) => .ok ((d.revise q c).1, caret)

end Document

end FilterQuery
