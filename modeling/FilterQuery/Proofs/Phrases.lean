import FilterQuery.Verdict
import Mathlib.Data.List.TakeWhile

/-!
# Phrases

What may stand in a query, told of lexemes alone, without roles and without a pass over the text.

* `Place`, `Place.Takes`      the places of a comparison and of the conjunction behind it, and the
  lexemes that fit them;
* `Place.Follows`             lexemes that fill the places in turn and may stop at any;
* `IsRun`, `Registry.Phrase`  what stands between two parentheses, and how it has to go on from the
  first of them;
* `isNumber_iff`, `kind_eq_operator_of_mem_lex`   numbers and comparison signs, as the places have
  them.
-/

namespace FilterQuery

/-! ## places -/

/-- one digit or more, perhaps with a point and any digits behind it -/
def IsNumeral (s : Text) : Prop :=
  ∃ whole, whole ≠ [] ∧ (∀ c ∈ whole, c.isDigit) ∧
    (s = whole ∨ ∃ fraction, s = whole ++ '.' :: fraction ∧ ∀ c ∈ fraction, c.isDigit)

def comparisons : List Text :=
  ["=".toList, "<".toList, "<=".toList, ">".toList, ">=".toList]

inductive Place where
  | field
  | operator
  | value
  | conjunction
deriving DecidableEq, Repr

namespace Place

def next : Place → Place
  | .field => .operator
  | .operator => .value
  | .value => .conjunction
  | .conjunction => .field

/-- the lexemes that fit a place -/
def Takes (reg : Registry) : Place → Lexeme → Prop
  | .field, l => ∃ f ∈ reg.fields, f.name = l.text
  | .operator, l => l.text ∈ comparisons
  | .value, l => l.kind = .literal ∨ l.kind = .word ∧ IsNumeral l.text
  | .conjunction, l => l.text = "and".toList ∨ l.text = "or".toList

/-- The lexemes fill the places from this one on, and may stop at any. -/
def Follows (reg : Registry) : Place → List Lexeme → Prop
  | _, [] => True
  | p, l :: ls => p.Takes reg l ∧ p.next.Follows reg ls

/-- the role of a lexeme in a place -/
def role : Place → Role
  | .field => .field
  | .operator => .condition
  | .value => .value
  | .conjunction => .keyword

end Place

/-! ## phrases -/

def Lexeme.Kind.isParen : Lexeme.Kind → Bool
  | .openParen | .closeParen => true
  | _ => false

/-- the whole stretch `run` of a list between two parentheses, or the ends of the list -/
structure IsRun (ls front run back : List Lexeme) : Prop where
  eq : ls = front ++ run ++ back
  plain : ∀ l ∈ run, l.kind.isParen = false
  left : ∀ l ∈ front.getLast?, l.kind.isParen
  right : ∀ l ∈ back.head?, l.kind.isParen

/-- the first run of a list, and what is left behind it -/
theorem exists_first_run (ls : List Lexeme) : ∃ run back, ls = run ++ back ∧
    (∀ l ∈ run, l.kind.isParen = false) ∧ ∀ l ∈ back.head?, l.kind.isParen := by
  induction ls with
  | nil => exact ⟨[], [], rfl, fun _ h => absurd h List.not_mem_nil, fun _ h => absurd h (by simp)⟩
  | cons l ls ih =>
    by_cases hl : l.kind.isParen
    · refine ⟨[], l :: ls, rfl, fun _ h => absurd h List.not_mem_nil, ?_⟩
      intro m hm
      rw [← Option.some.inj hm]
      exact hl
    · obtain ⟨run, back, rfl, hrun, hback⟩ := ih
      refine ⟨l :: run, back, rfl, ?_, hback⟩
      exact List.forall_mem_cons.mpr ⟨by simpa using hl, hrun⟩

namespace Registry
variable (reg : Registry)

/-- A clause opens with a field, or with `not` and a field if no field has that name. -/
def Opens (run : List Lexeme) : Prop :=
  Place.field.Follows reg run ∨
    ∃ l rest, run = l :: rest ∧ l.text = "not".toList ∧ (∀ f ∈ reg.fields, f.name ≠ "not".toList) ∧
      Place.field.Follows reg rest

/-- Behind a closing parenthesis a run goes on with a conjunction; else it opens a clause. -/
def Phrase (front run : List Lexeme) : Prop :=
  if front.getLast?.map Lexeme.kind = some .closeParen then Place.conjunction.Follows reg run
  else reg.Opens run

variable {reg} {l : Lexeme} {run : List Lexeme}

theorem opens_cons_of_mem {f : Field} (hf : f ∈ reg.fields) (hname : f.name = l.text) :
    reg.Opens (l :: run) ↔ Place.operator.Follows reg run := by
  constructor
  · rintro (⟨-, h⟩ | ⟨m, rest, he, hnot, hno, -⟩)
    · exact h
    · obtain ⟨rfl, -⟩ := List.cons.inj he
      exact absurd (hname.trans hnot) (hno f hf)
  · intro h
    exact .inl ⟨⟨f, hf, hname⟩, h⟩

theorem not_follows_field_cons (hno : ∀ f ∈ reg.fields, f.name ≠ l.text) :
    ¬ Place.field.Follows reg (l :: run) := by
  rintro ⟨⟨f, hf, hname⟩, -⟩
  exact hno f hf hname

theorem opens_cons_of_not (hno : ∀ f ∈ reg.fields, f.name ≠ l.text)
    (hnot : l.text = "not".toList) : reg.Opens (l :: run) ↔ Place.field.Follows reg run := by
  constructor
  · rintro (h | ⟨m, rest, he, -, -, h⟩)
    · exact absurd h (not_follows_field_cons hno)
    · obtain ⟨rfl, rfl⟩ := List.cons.inj he
      exact h
  · intro h
    exact .inr ⟨l, run, rfl, hnot, hnot ▸ hno, h⟩

theorem not_opens_cons (hno : ∀ f ∈ reg.fields, f.name ≠ l.text) (hnot : l.text ≠ "not".toList) :
    ¬ reg.Opens (l :: run) := by
  rintro (h | ⟨m, rest, he, hm, -, -⟩)
  · exact not_follows_field_cons hno h
  · obtain ⟨rfl, -⟩ := List.cons.inj he
    exact hnot hm

end Registry

/-! ## numbers and signs -/

theorem isNumeral_of_isNumber {s : Text} (h : isNumber s = true) : IsNumeral s := by
  unfold isNumber at h
  rw [Bool.and_eq_true] at h
  obtain ⟨h1, h2⟩ := h
  have hsplit := List.takeWhile_append_dropWhile (p := Char.isDigit) (l := s)
  refine ⟨s.takeWhile Char.isDigit, ?_, fun c hc => List.mem_takeWhile_imp hc, ?_⟩
  · intro h0
    cases s with
    | nil => exact absurd h1 (by decide)
    | cons c s =>
      have hc : c.isDigit = true := h1
      rw [List.takeWhile_cons_of_pos hc] at h0
      exact absurd h0 (List.cons_ne_nil _ _)
  · cases hd : s.dropWhile Char.isDigit with
    | nil =>
      left
      rw [hd, List.append_nil] at hsplit
      exact hsplit.symm
    | cons c fraction =>
      right
      rw [hd] at h2 hsplit
      simp only [Bool.and_eq_true, decide_eq_true_eq, List.all_eq_true] at h2
      refine ⟨fraction, ?_, h2.2⟩
      rw [← h2.1]
      exact hsplit.symm

theorem head?_any_append {whole : Text} (hne : whole ≠ []) (h : ∀ c ∈ whole, c.isDigit)
    (rest : Text) : (whole ++ rest).head?.any Char.isDigit = true := by
  cases whole with
  | nil => exact absurd rfl hne
  | cons c whole => exact h c List.mem_cons_self

theorem isNumber_iff (s : Text) : isNumber s = true ↔ IsNumeral s := by
  refine ⟨isNumeral_of_isNumber, ?_⟩
  rintro ⟨whole, hne, hwhole, hs⟩
  have hhead := head?_any_append hne hwhole
  unfold isNumber
  rcases hs with rfl | ⟨fraction, rfl, hfraction⟩
  · have h0 := hhead []
    rw [List.append_nil] at h0
    have hd : s.dropWhile Char.isDigit = [] := List.dropWhile_eq_nil_iff.mpr hwhole
    rw [h0, hd]
    rfl
  · have hd : (whole ++ '.' :: fraction).dropWhile Char.isDigit = '.' :: fraction := by
      rw [List.dropWhile_append_of_pos hwhole]
      exact List.dropWhile_cons_of_neg (by decide)
    rw [hhead, hd]
    simpa using hfraction

theorem head_of_mem_comparisons {c : Char} {s : Text} (h : c :: s ∈ comparisons) :
    c = '=' ∨ c = '<' ∨ c = '>' := by
  have hc : some c ∈ comparisons.map List.head? := List.mem_map_of_mem h
  have he : comparisons.map List.head? = [some '=', some '<', some '<', some '>', some '>'] := rfl
  rw [he] at hc
  simpa using hc

/-- the lexer calls the five signs operators, and nothing else -/
theorem munch_kind_eq_operator (c : Char) (s : Text) :
    (munch c s).kind = .operator ↔ (munch c s).text ∈ comparisons := by
  -- a lexeme of any other kind starts with another character
  have hother : ∀ {k : Lexeme.Kind} {r : Text}, k ≠ .operator →
      ¬ (c = '=' ∨ c = '<' ∨ c = '>') → (k = .operator ↔ c :: r ∈ comparisons) := by
    intro k r hk hc
    exact iff_of_false hk (fun h => hc (head_of_mem_comparisons h))
  unfold munch
  split
  · next h =>
    refine hother (k := .blank) (by decide) ?_
    rintro (rfl | rfl | rfl) <;> exact absurd h (by decide)
  split
  · next h =>
    subst h
    exact hother (k := .openParen) (by decide) (by decide)
  split
  · next h =>
    subst h
    exact hother (k := .closeParen) (by decide) (by decide)
  split
  · next h =>
    subst h
    exact iff_of_true rfl (show ['='] ∈ comparisons by decide)
  split
  · next h =>
    have hc : c = '<' ∨ c = '>' := by simpa using h
    have h1 : [c] ∈ comparisons := by rcases hc with rfl | rfl <;> decide
    have h2 : [c, '='] ∈ comparisons := by rcases hc with rfl | rfl <;> decide
    unfold Munch.inequality
    split
    · exact iff_of_true rfl h2
    · exact iff_of_true rfl h1
  split
  · next h =>
    subst h
    unfold Munch.literal
    split
    · exact hother (k := .unclosedLiteral) (by decide) (by decide)
    · exact hother (k := .literal) (by decide) (by decide)
  · next h1 h2 _ =>
    refine hother (k := .word) (by decide) ?_
    rintro (rfl | rfl | rfl)
    · exact h1 rfl
    · exact h2 rfl
    · exact h2 rfl

theorem exists_munch_of_mem_lexFrom {l : Lexeme} {n : Nat} {s : Text} (h : l ∈ lexFrom n s) :
    ∃ c r m, l = (munch c r).lexeme m := by
  fun_induction lexFrom n s with
  | case1 => exact absurd h List.not_mem_nil
  | case2 n c s m l' ih =>
    rcases List.mem_cons.mp h with rfl | h
    · exact ⟨c, s, n, rfl⟩
    · exact ih h

theorem kind_eq_operator_of_mem_lex {l : Lexeme} {s : Text} (h : l ∈ lex s) :
    l.kind = .operator ↔ l.text ∈ comparisons := by
  obtain ⟨c, r, m, rfl⟩ := exists_munch_of_mem_lexFrom h
  exact munch_kind_eq_operator c r

end FilterQuery
