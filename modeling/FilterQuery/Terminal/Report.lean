import FilterQuery.Query
import FilterQuery.Registry
import FilterQuery.Text.WhiteSpace

/-!
# Reports

The lines that the program prints about fields and queries.

* `Registry.listing`, `Registry.report`   the fields whose names start with a text;
* `Token.reportLine`            a token with its verdict;
* `Query.report`                all tokens but blanks, and a summary.
-/

namespace FilterQuery

/-! ## fields -/

def Field.reportLine (f : Field) : Text :=
  let name := "  ".toList ++ f.name.padEnd 12 ++ " ".toList
  match f.description with
  | some d => name ++ f.valueType.name.padEnd 8 ++ " ".toList ++ d
  | none => name ++ f.valueType.name

def Registry.listing (reg : Registry) (beginning : Text) : List Text :=
  (reg.startingWith beginning).map Field.reportLine

def Registry.report (reg : Registry) (beginning : Text) : List Text :=
  match reg.listing beginning with
  | [] => ["  no field starts with `".toList ++ beginning ++ "`".toList]
  | lines => lines

/-! ## queries -/

def Fault.verdict : Option Fault → Text
  | none => "✓".toList
  | some f => "✗ ".toList ++ f.message

def Token.reportLine (t : Token) : Text :=
  let resolved : Text :=
    match t.resolution with
    | none => []
    | some r => " [".toList ++ r.name ++ "]".toList
  "  ".toList ++ (Text.decimal t.span.start).padStart 3 ++ "..".toList ++
    (Text.decimal t.span.stop).padEnd 3 ++ " ".toList ++ t.role.name.padEnd 17 ++ " ".toList ++
    t.text.padEnd 12 ++ resolved ++ " ".toList ++ Fault.verdict t.fault

def Query.summary (q : Query) : Text :=
  match q.diagnostics.length with
  | 0 => "✓ query is well-formed".toList
  | n => "✗ ".toList ++ Text.decimal n ++ " problem(s)".toList

def Query.report (q : Query) : List Text :=
  (q.tokens.filter (fun t => t.role ≠ .blank)).map Token.reportLine ++ [q.summary]

end FilterQuery
