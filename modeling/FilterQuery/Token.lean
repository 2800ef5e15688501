import FilterQuery.Span
import FilterQuery.Text

/-!
# Tokens

A token is a piece of query text with the part it plays in the query.

* `Role`         the part: a parenthesis, field, condition, value, keyword, or a blank between them;
* `Fault`        what is wrong with a token; every fault concerns the token that carries it alone;
* `ValueType`    the type a registered field is declared with;
* `Resolution`   what a field token was found to be in a registry;
* `Token`        all of it, with the text and the span.

`after` keeps track of the last role other than a blank.
-/

namespace FilterQuery

/-! ## roles -/

inductive Role where
  | openParen
  | closeParen
  | field
  /-- a comparison operator between a field and a value -/
  | condition
  | value
  /-- `and`, `or`, `not` -/
  | keyword
  | blank
deriving DecidableEq, Repr, Inhabited

namespace Role

def isParen : Role → Bool
  | openParen | closeParen => true
  | _ => false

def name : Role → Text
  | openParen => "PARENTHESIS_OPEN".toList
  | closeParen => "PARENTHESIS_CLOSE".toList
  | field => "FIELD".toList
  | condition => "CONDITION".toList
  | value => "FIELD_VALUE".toList
  | keyword => "KEYWORD".toList
  | blank => "WHITESPACE".toList

end Role

/-- the last role other than a blank, after one more role; `none` as long as there was none -/
def after (previous : Option Role) : Role → Option Role
  | .blank => previous
  | r => some r

/-! ## faults -/

inductive Fault where
  | unknownField
  | malformedOperator
  | malformedValue
  | unmatchedOpen
  | unmatchedClose
  | unexpectedKeyword
  | unterminatedLiteral
deriving DecidableEq, Repr, Inhabited

namespace Fault

def name : Fault → Text
  | unknownField => "UnknownField".toList
  | malformedOperator => "MalformedOperator".toList
  | malformedValue => "MalformedValue".toList
  | unmatchedOpen => "UnmatchedOpenParen".toList
  | unmatchedClose => "UnmatchedCloseParen".toList
  | unexpectedKeyword => "UnexpectedKeyword".toList
  | unterminatedLiteral => "UnterminatedLiteral".toList

def message : Fault → Text
  | unknownField => "unknown field name".toList
  | malformedOperator => "expected a comparison operator (=, <, <=, >, >=)".toList
  | malformedValue => "expected a number or a quoted string".toList
  | unmatchedOpen => "unmatched opening parenthesis".toList
  | unmatchedClose => "unmatched closing parenthesis".toList
  | unexpectedKeyword => "expected `and` or `or`".toList
  | unterminatedLiteral => "unterminated string literal".toList

end Fault

/-! ## types of fields -/

inductive ValueType where
  | string
  | number
deriving DecidableEq, Repr, Inhabited

def ValueType.name : ValueType → Text
  | .string => "string".toList
  | .number => "number".toList

inductive Resolution where
  | known (t : ValueType)
  | unknown
deriving DecidableEq, Repr, Inhabited

def Resolution.name : Resolution → Text
  | .known t => t.name
  | .unknown => "unknown".toList

/-! ## tokens -/

structure Token where
  role : Role
  /-- the text as typed, with the quotes of a literal -/
  text : Text
  span : Span
  fault : Option Fault
  /-- only field tokens have one -/
  resolution : Option Resolution
deriving DecidableEq, Repr

namespace Token

def IsValid (t : Token) : Prop := t.fault = none

instance (t : Token) : Decidable t.IsValid := inferInstanceAs (Decidable (_ = _))

/-- the same token further right, or left if `d` is negative -/
def shift (t : Token) (d : Int) : Token := { t with span := t.span.shift d }

end Token

end FilterQuery
