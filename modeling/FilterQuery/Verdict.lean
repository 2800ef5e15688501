import FilterQuery.Parentheses
import FilterQuery.Query
import FilterQuery.Registry

/-!
# Reading a text as a query

A query is one clause or several with `and` or `or` between them, perhaps with `not` in front; a
clause is a comparison of a field with a number or a quoted string, or a query in parentheses.

No tree is built.  The last role in front of a lexeme, blanks left out, says what is due:

* at the start, behind `(` and behind a keyword: a field, or `not` unless behind a keyword;
* behind a field: a comparison operator;
* behind an operator: a value;
* behind a value and behind `)`: `and` or `or`.

A lexeme takes the role that is due whether it fits or not, so one fault does not cause another.
Blanks and parentheses are what they are everywhere; parentheses are settled at the end.

The objects of this file:

* `Registry.judge`      one lexeme;
* `Registry.judgeAll`   the lexemes of a text, or of its rest;
* `Query.ofText`        the query that a text is.
-/

namespace FilterQuery

/-! ## one lexeme -/

/-- digits, perhaps with a point and more digits behind it -/
def isNumber (s : Text) : Bool :=
  s.head?.any Char.isDigit &&
    match s.dropWhile Char.isDigit with
    | [] => true
    | c :: fraction => c = '.' && fraction.all Char.isDigit

namespace Lexeme

/-- the token of a lexeme in a role -/
def token (l : Lexeme) (role : Role) (fault : Option Fault) : Token :=
  ⟨role, l.text, l.span, fault, none⟩

def asField (l : Lexeme) (fault : Option Fault) (resolution : Resolution) : Token :=
  ⟨.field, l.text, l.span, fault, some resolution⟩

/-- The text need not be looked at: a lexeme of this kind is one of the comparison signs, and no other
is (`kind_eq_operator_of_mem_lex`). -/
def asCondition (l : Lexeme) : Token :=
  l.token .condition (if l.kind = .operator then none else some .malformedOperator)

/-- what is wrong with a lexeme in the place of a value -/
def valueFault (l : Lexeme) : Option Fault :=
  match l.kind with
  | .literal => none
  | .unclosedLiteral => some .unterminatedLiteral
  | .word => if isNumber l.text then none else some .malformedValue
  | _ => some .malformedValue

def asValue (l : Lexeme) : Token := l.token .value l.valueFault

def asConjunction (l : Lexeme) : Token :=
  l.token .keyword
    (if l.text = "and".toList ∨ l.text = "or".toList then none else some .unexpectedKeyword)

end Lexeme

namespace Registry

/-- A lexeme where a field is due.  `not` opens a clause, so it does not follow another keyword;
a registered field of that name comes first. -/
def judgeOperand (reg : Registry) (previous : Option Role) (l : Lexeme) : Token :=
  match reg.get? l.text with
  | some f => l.asField none (.known f.valueType)
  | none =>
    if l.text = "not".toList ∧ previous ≠ some .keyword then l.token .keyword none
    else l.asField (some .unknownField) .unknown

/-- the token of a lexeme behind the role `previous`, parentheses unsettled -/
def judge (reg : Registry) (previous : Option Role) (l : Lexeme) : Token :=
  match l.kind with
  | .blank => l.token .blank none
  | .openParen => l.token .openParen none
  | .closeParen => l.token .closeParen none
  | _ =>
    match previous with
    | some .field => l.asCondition
    | some .condition => l.asValue
    | some .value | some .closeParen => l.asConjunction
    | _ => reg.judgeOperand previous l

theorem judge_text (reg : Registry) (previous : Option Role) (l : Lexeme) :
    (reg.judge previous l).text = l.text := by
  unfold judge judgeOperand
  repeat' split
  all_goals rfl

theorem judge_span (reg : Registry) (previous : Option Role) (l : Lexeme) :
    (reg.judge previous l).span = l.span := by
  unfold judge judgeOperand
  repeat' split
  all_goals rfl

/-! ## many lexemes -/

def judgeAll (reg : Registry) (previous : Option Role) : List Lexeme → List Token
  | [] => []
  | l :: ls =>
    let t := reg.judge previous l
    t :: judgeAll reg (after previous t.role) ls

theorem map_text_judgeAll (reg : Registry) (previous : Option Role) (ls : List Lexeme) :
    (reg.judgeAll previous ls).map Token.text = ls.map Lexeme.text := by
  induction ls generalizing previous with
  | nil => rfl
  | cons l ls ih => simp [judgeAll, judge_text, ih]

end Registry

/-! ## whole texts -/

namespace Query

def ofText (reg : Registry) (text : Text) : Query :=
  ⟨text, balanced (reg.judgeAll none (lex text))⟩

theorem map_text_ofText (reg : Registry) (text : Text) :
    (ofText reg text).tokens.map Token.text = (lex text).map Lexeme.text := by
  rw [← Registry.map_text_judgeAll reg none]
  exact map_settle Token.text (fun _ _ => rfl) 0 _

theorem render_ofText (reg : Registry) (text : Text) : (ofText reg text).render = text := by
  show (ofText reg text).tokens.flatMap Token.text = text
  rw [List.flatMap_def, map_text_ofText, ← List.flatMap_def]
  exact flatMap_text_lex text

end Query

end FilterQuery
