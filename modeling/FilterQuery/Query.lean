import FilterQuery.Token

/-!
# Queries

A query is a text together with its tokens, in order.

* `Query.render`        the token texts put together;
* `Query.diagnostics`   the faulty tokens with their faults;
* `Query.tokenAt`       the token that a caret touches from the right, with its index.
-/

namespace FilterQuery

structure Query where
  source : Text
  tokens : List Token
deriving DecidableEq, Repr

namespace Query

def empty : Query := ⟨[], []⟩

instance : Inhabited Query := ⟨empty⟩

def render (q : Query) : Text := q.tokens.flatMap Token.text

def diagnostics (q : Query) : List (Token × Fault) :=
  q.tokens.filterMap (fun t => t.fault.map (fun f => (t, f)))

/-! ## carets -/

/-- The caret touches a token from the right: it stands inside it or at its end. -/
def Touches (caret : Nat) (t : Token) : Prop := t.span.start < caret ∧ caret ≤ t.span.stop

instance (caret : Nat) (t : Token) : Decidable (Touches caret t) :=
  inferInstanceAs (Decidable (_ ∧ _))

/-- the first token that does not end before the caret, if the caret touches it -/
def tokenAt (q : Query) (caret : Nat) : Option (Nat × Token) :=
  match q.tokens.findIdx? (fun t => decide (caret ≤ t.span.stop)) with
  | none => none
  | some i => (q.tokens[i]?.filter (fun t => decide (Touches caret t))).map (fun t => (i, t))

theorem tokenAt_touches {q : Query} {caret i : Nat} {t : Token} (h : q.tokenAt caret = some (i, t)) :
    q.tokens[i]? = some t ∧ Touches caret t := by
  unfold tokenAt at h
  split at h
  · simp at h
  · simp only [Option.map_eq_some_iff, Option.filter_eq_some_iff, Prod.mk.injEq] at h
    obtain ⟨u, ⟨hu, hc⟩, rfl, rfl⟩ := h
    exact ⟨hu, of_decide_eq_true hc⟩

end Query

end FilterQuery
