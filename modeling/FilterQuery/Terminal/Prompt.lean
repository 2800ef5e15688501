import FilterQuery.Document
import FilterQuery.Terminal.Palette

/-!
# The prompt

A line that is being typed.  Whatever is asked about the line, the document is first brought up to
it, so that every key stroke costs one small edit.

* `Prompt.complete`    the field names that the word at the caret may become;
* `Prompt.hint`        the rest of the only name it may become;
* `Prompt.highlight`   the line in colours;
* `Prompt.finish`      the query of a finished line.

Each gives the prompt afterwards as well.
-/

namespace FilterQuery

structure Prompt where
  document : Document
  palette : Palette
deriving DecidableEq, Repr

structure Candidate where
  display : Text
  replacement : Text
deriving DecidableEq, Repr

def Candidate.ofField (f : Field) : Candidate where
  display :=
    match f.description with
    | some d => f.name ++ "  (".toList ++ d ++ ")".toList
    | none => f.name
  replacement := f.name

namespace Prompt

def new (reg : Registry) : Prompt := ⟨.new reg, .default⟩

/-- a document at a line; should the edit be refused, from the empty text -/
def synced (d : Document) (line : Text) : Document :=
  match d.sync line with
  | .ok (d', _) => d'
  | .error _ =>
    match d.reset.sync line with
    | .ok (d', _) => d'
    | .error _ => d.reset

def sync (p : Prompt) (line : Text) : Prompt := { p with document := synced p.document line }

/-- Gives where the completed part of the line starts. -/
def complete (p : Prompt) (line : Text) (caret : Nat) : Prompt × Nat × List Candidate :=
  let p := p.sync line
  match p.document.suggestAt caret with
  | none => (p, caret, [])
  | some (i, fs) =>
    let start := (p.document.query.tokens[i]?.map (fun t => t.span.start)).getD caret
    (p, start, fs.map Candidate.ofField)

/-- There is a hint only at the end of the line and for a single candidate that goes on with what
is typed. -/
def hint (p : Prompt) (line : Text) (caret : Nat) : Prompt × Option Text :=
  if caret < line.byteLength then (p, none)
  else
    let p := p.sync line
    match p.document.suggestAt caret with
    | some (i, [f]) =>
      (p, p.document.query.tokens[i]?.bind (fun t => t.text.after? f.name))
    | _ => (p, none)

def highlight (p : Prompt) (line : Text) : Prompt × Text :=
  let p := p.sync line
  (p, p.palette.paint p.document.query)

/-- The prompt is empty afterwards. -/
def finish (p : Prompt) (line : Text) : Prompt × Query :=
  let p := p.sync line
  ({ p with document := p.document.reset }, p.document.query)

end Prompt

end FilterQuery
