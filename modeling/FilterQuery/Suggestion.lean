import FilterQuery.Rescan

/-!
# Suggested fields

* `Registry.suggest`   the fields that a field token may be completed to;
* `Query.suggestAt`    the same for the token at a caret;
* `Query.accept`       a field token replaced by the name of a field.
-/

namespace FilterQuery

/-- the fields whose name contains the text of a field token and is longer, as declared -/
def Registry.suggest (reg : Registry) (t : Token) : List Field :=
  if t.role = .field then
    (reg.containing t.text).filter (fun f => t.text.byteLength < f.name.byteLength)
  else []

theorem Registry.mem_suggest {reg : Registry} {t : Token} {f : Field} :
    f ∈ reg.suggest t ↔ t.role = .field ∧ f ∈ reg.fields ∧ t.text <:+: f.name ∧
      t.text.byteLength < f.name.byteLength := by
  unfold suggest containing
  split
  · next h =>
    simp only [h, true_and, List.mem_filter, Text.occursIn_iff, decide_eq_true_eq, and_assoc]
  · next h => simp [h]

namespace Query

/-- the index of the token at a caret and its suggestions, if it has any -/
def suggestAt (reg : Registry) (q : Query) (caret : Nat) : Option (Nat × List Field) :=
  match q.tokenAt caret with
  | none => none
  | some (i, t) =>
    match reg.suggest t with
    | [] => none
    | fs => some (i, fs)

/-- An ordinary edit of the token at `index`.  Gives the caret behind the name as well. -/
def accept (reg : Registry) (q : Query) (index : Nat) (f : Field) :
    Except EditError (Nat × Query × Change) :=
  match q.tokens[index]? with
  | none => .error (.noToken index)
  | some t =>
    if t.role = .field then
      match q.edit reg ⟨t.span, f.name⟩ with
      | .error x => .error x
      | .ok r => .ok (t.span.start + f.name.byteLength, r)
    else .error (.notAField index)

end Query

end FilterQuery
