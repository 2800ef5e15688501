import FilterQuery.Json

/-!
# Writing JSON

* `escape`          a character inside a string;
* `Json.compact`    a value without blanks;
* `Json.pretty`     a value with one item or member on a line, two spaces deeper than its brackets.
-/

namespace FilterQuery.Json

/-! ## scalars -/

def hexDigit (n : Nat) : Char := Nat.digitChar n

/-- Quotes, backslashes and control characters are escaped, all else is written as it is. -/
def escape (c : Char) : Text :=
  if c = '"' then ['\\', '"']
  else if c = '\\' then ['\\', '\\']
  else if c = '\x08' then ['\\', 'b']
  else if c = '\x0c' then ['\\', 'f']
  else if c = '\n' then ['\\', 'n']
  else if c = '\r' then ['\\', 'r']
  else if c = '\t' then ['\\', 't']
  else if c < ' ' then ['\\', 'u', '0', '0', hexDigit (c.toNat / 16), hexDigit (c.toNat % 16)]
  else [c]

def quoted (s : Text) : Text := '"' :: s.flatMap escape ++ ['"']

/-- the power of ten is written if it is not zero -/
def Number.write (n : Number) : Text :=
  (if n.negative then ['-'] else []) ++ Text.decimal n.significand ++
    (if n.exponent = 0 then []
     else if n.exponent < 0 then 'e' :: '-' :: Text.decimal n.exponent.natAbs
     else 'e' :: Text.decimal n.exponent.natAbs)

def boolean (b : Bool) : Text := if b then "true".toList else "false".toList

/-! ## without blanks -/

mutual

def compact : Json → Text
  | .null => "null".toList
  | .bool b => boolean b
  | .num n => n.write
  | .str s => quoted s
  | .arr items => '[' :: compactItems items ++ [']']
  | .obj members => '\x7b' :: compactMembers members ++ ['\x7d']

def compactItems : List Json → Text
  | [] => []
  | [v] => compact v
  | v :: vs => compact v ++ ',' :: compactItems vs

def compactMembers : List (Text × Json) → Text
  | [] => []
  | [(k, v)] => quoted k ++ ':' :: compact v
  | (k, v) :: ms => quoted k ++ ':' :: compact v ++ ',' :: compactMembers ms

end

/-! ## one item a line -/

/-- a new line at a depth -/
def newline (depth : Nat) : Text := '\n' :: List.replicate (2 * depth) ' '

/-- what stands between brackets at a depth; nothing if nothing does -/
def block (depth : Nat) (opening closing : Char) (inside : Text) : Text :=
  if inside = [] then [opening, closing]
  else opening :: inside ++ newline depth ++ [closing]

mutual

def pretty (depth : Nat) : Json → Text
  | .null => "null".toList
  | .bool b => boolean b
  | .num n => n.write
  | .str s => quoted s
  | .arr items => block depth '[' ']' (prettyItems (depth + 1) items)
  | .obj members => block depth '\x7b' '\x7d' (prettyMembers (depth + 1) members)

def prettyItems (depth : Nat) : List Json → Text
  | [] => []
  | [v] => newline depth ++ pretty depth v
  | v :: vs => newline depth ++ pretty depth v ++ ',' :: prettyItems depth vs

def prettyMembers (depth : Nat) : List (Text × Json) → Text
  | [] => []
  | [(k, v)] => newline depth ++ quoted k ++ ':' :: ' ' :: pretty depth v
  | (k, v) :: ms =>
    newline depth ++ quoted k ++ ':' :: ' ' :: pretty depth v ++ ',' :: prettyMembers depth ms

end

end FilterQuery.Json
