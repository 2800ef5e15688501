import FilterQuery.Json
import FilterQuery.Query

/-!
# Queries as JSON

A query is an object with its `source` and its `tokens`.  A token has a `role`, a `text`, a `span`,
an `error` that is perhaps null and, if it is a field, a `resolved_type`.
-/

namespace FilterQuery

def Span.toJson (a : Span) : Json :=
  .obj [("start".toList, .num (.ofNat a.start)), ("end".toList, .num (.ofNat a.stop))]

def Token.toJson (t : Token) : Json :=
  let members : Json.Members := [
    ("role".toList, .str t.role.name),
    ("text".toList, .str t.text),
    ("span".toList, t.span.toJson),
    ("error".toList, match t.fault with
      | none => .null
      | some f => .str f.name)]
  match t.resolution with
  | none => .obj members
  | some r => .obj (members ++ [("resolved_type".toList, .str r.name)])

def Query.toJson (q : Query) : Json :=
  .obj [("source".toList, .str q.source), ("tokens".toList, .arr (q.tokens.map Token.toJson))]

end FilterQuery
