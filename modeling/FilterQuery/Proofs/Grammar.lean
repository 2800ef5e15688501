import FilterQuery.Proofs.Matching
import FilterQuery.Proofs.Phrases

/-!
# The grammar of queries

    query   := not? clause ((and | or) clause)*
    clause  := field comparison value | ( query )
    value   := number | quoted string

* `Symbol reg`              what a derivation ends in, with the text, the kind of lexeme and the
  role of each;
* `Derivation reg c`        the derivations of a category, nested to any depth;
* `Derivation.symbols`      the symbols of a derivation, from the left to the right;
* `Symbol.Fits`, `Fit`      the role in front of a symbol lets it stand there; `Derivation.fit` says
  that no derivation puts a symbol where it does not fit;
* `Derivation.matched`      its parentheses match.
-/

namespace FilterQuery

/-! ## symbols -/

/-- what a field is compared with -/
inductive Operand where
  | number (digits : Text) (numeral : IsNumeral digits)
  | quotation (content : Text) (unquoted : '"' ∉ content)

namespace Operand

def text : Operand → Text
  | number digits _ => digits
  | quotation content _ => '"' :: content ++ ['"']

def kind : Operand → Lexeme.Kind
  | number _ _ => .word
  | quotation _ _ => .literal

end Operand

inductive Conjunction where
  | and
  | or
deriving DecidableEq, Repr

def Conjunction.text : Conjunction → Text
  | .and => "and".toList
  | .or => "or".toList

/-- what stands in a query of a registry -/
inductive Symbol (reg : Registry) where
  | openParen
  | closeParen
  | negation
  | conjunction (j : Conjunction)
  | field (f : Field) (mem : f ∈ reg.fields)
  | sign (s : Text) (mem : s ∈ comparisons)
  | operand (v : Operand)

namespace Symbol
variable {reg : Registry}

def text : Symbol reg → Text
  | openParen => ['(']
  | closeParen => [')']
  | negation => "not".toList
  | conjunction j => j.text
  | field f _ => f.name
  | sign s _ => s
  | operand v => v.text

/-- how the lexer calls it -/
def kind : Symbol reg → Lexeme.Kind
  | openParen => .openParen
  | closeParen => .closeParen
  | sign _ _ => .operator
  | operand v => v.kind
  | negation | conjunction _ | field _ _ => .word

/-- the part it plays in the query -/
def role : Symbol reg → Role
  | openParen => .openParen
  | closeParen => .closeParen
  | negation | conjunction _ => .keyword
  | field _ _ => .field
  | sign _ _ => .condition
  | operand _ => .value

/-- a field has the type it was registered with -/
def resolution : Symbol reg → Option Resolution
  | field f _ => some (.known f.valueType)
  | _ => none

end Symbol

/-! ## derivations -/

inductive Category where
  | query
  /-- a query without the `not` in front -/
  | clauses
  | clause
deriving DecidableEq, Repr

inductive Derivation (reg : Registry) : Category → Type where
  | plain (d : Derivation reg .clauses) : Derivation reg .query
  | negated (d : Derivation reg .clauses) : Derivation reg .query
  | one (d : Derivation reg .clause) : Derivation reg .clauses
  | more (d : Derivation reg .clause) (j : Conjunction) (e : Derivation reg .clauses) :
      Derivation reg .clauses
  | comparison (f : Field) (hf : f ∈ reg.fields) (s : Text) (hs : s ∈ comparisons) (v : Operand) :
      Derivation reg .clause
  | group (d : Derivation reg .query) : Derivation reg .clause

def Derivation.symbols {reg : Registry} {c : Category} : Derivation reg c → List (Symbol reg)
  | plain d => d.symbols
  | negated d => .negation :: d.symbols
  | one d => d.symbols
  | more d j e => d.symbols ++ .conjunction j :: e.symbols
  | comparison f hf s hs v => [.field f hf, .sign s hs, .operand v]
  | group d => .openParen :: d.symbols ++ [.closeParen]

variable {reg : Registry}

/-! ## symbols in their places -/

/-- The role in front lets a query begin. -/
def OpensQuery (previous : Option Role) : Prop := previous = none ∨ previous = some .openParen

/-- The role in front lets a clause begin. -/
def OpensClause (previous : Option Role) : Prop := OpensQuery previous ∨ previous = some .keyword

/-- The role in front was the last one of a clause. -/
def EndsClause (previous : Option Role) : Prop :=
  previous = some .value ∨ previous = some .closeParen

/-- The role in front, `none` at the start, lets the symbol stand there. -/
def Symbol.Fits (previous : Option Role) : Symbol reg → Prop
  | openParen | closeParen => True
  | negation => OpensQuery previous
  | conjunction _ => EndsClause previous
  | field _ _ => OpensClause previous
  | sign _ _ => previous = some .field
  | operand _ => previous = some .condition

/-- every symbol fits behind the one in front of it, the first behind `previous` -/
def Fit (previous : Option Role) : List (Symbol reg) → Prop
  | [] => True
  | x :: xs => x.Fits previous ∧ Fit (some x.role) xs

/-- where a category may begin -/
def Category.Opens (previous : Option Role) : Category → Prop
  | .query => OpensQuery previous
  | .clauses | .clause => OpensClause previous

namespace Derivation

/-- what follows a derivation stands behind the end of a clause -/
theorem fit_append {c : Category} (d : Derivation reg c) {previous : Option Role}
    (h : c.Opens previous) {xs : List (Symbol reg)} (hxs : ∀ r, EndsClause r → Fit r xs) :
    Fit previous (d.symbols ++ xs) := by
  induction d generalizing previous xs with
  | plain d ih => exact ih (.inl h) hxs
  | negated d ih => exact ⟨h, ih (.inr rfl) hxs⟩
  | one d ih => exact ih h hxs
  | more d j e ihd ihe =>
    show Fit previous (d.symbols ++ .conjunction j :: e.symbols ++ xs)
    rw [List.append_assoc]
    exact ihd h (fun r hr => ⟨hr, ihe (.inr rfl) hxs⟩)
  | comparison f hf s hs v => exact ⟨h, rfl, rfl, hxs _ (.inl rfl)⟩
  | group d ih =>
    show Fit previous (.openParen :: (d.symbols ++ [.closeParen] ++ xs))
    rw [List.append_assoc]
    exact ⟨trivial, ih (.inr rfl) (fun r _ => ⟨trivial, hxs _ (.inr rfl)⟩)⟩

/-- **Every symbol of a derivation fits in its place.** -/
theorem fit (d : Derivation reg .query) : Fit none d.symbols := by
  have h : Fit none (d.symbols ++ []) := d.fit_append (.inl rfl) (fun _ _ => trivial)
  rwa [List.append_nil] at h

/-- **The parentheses of a derivation match.** -/
theorem matched {c : Category} (d : Derivation reg c) : Matched (d.symbols.map Symbol.kind) := by
  have hword : Matched [.word] := Matched.singleton (by decide) (by decide)
  induction d with
  | plain d ih => exact ih
  | negated d ih => exact hword.append ih
  | one d ih => exact ih
  | more d j e ihd ihe =>
    rw [symbols, List.map_append]
    exact ihd.append (hword.append ihe)
  | comparison f hf s hs v =>
    have hsign : Matched [.operator] := Matched.singleton (by decide) (by decide)
    have hvalue : Matched [v.kind] := by
      cases v with
      | number digits h => exact hword
      | quotation content h => exact Matched.singleton (k := .literal) (by decide) (by decide)
    exact hword.append (hsign.append hvalue)
  | group d ih =>
    rw [symbols, List.cons_append, List.map_cons, List.map_append]
    exact ih.group

end Derivation

end FilterQuery
