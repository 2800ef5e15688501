import FilterQuery.Proofs.Json.Reading
import FilterQuery.Proofs.Json.Writing
import FilterQuery.Query.Export

/-!
# Exported queries

What a query is exported to can be taken back, from the value and from the text.

* `Role.ofName`, `Fault.ofName`, `Resolution.ofName`   the names told apart;
* `Token.ofJson`, `Query.ofJson`   what an exported value stands for; a token without a resolved type
  has no resolution, and one with nothing under `error` has no fault;
* `Query.ofJson_toJson`            it stands for the query it was made from;
* `Query.export_lossless`          both texts of a query are JSON, and nothing is lost in them.
-/

namespace FilterQuery

/-! ## names -/

def Role.ofName (s : Text) : Option Role :=
  [Role.openParen, .closeParen, .field, .condition, .value, .keyword, .blank].find?
    (fun r => r.name = s)

def Fault.all : List Fault :=
  [.unknownField, .malformedOperator, .malformedValue, .unmatchedOpen, .unmatchedClose,
    .unexpectedKeyword, .unterminatedLiteral]

theorem Fault.mem_all (f : Fault) : f ∈ Fault.all := by
  cases f <;> decide

def Fault.ofName (s : Text) : Option Fault := Fault.all.find? (fun f => f.name = s)

def Resolution.ofName (s : Text) : Option Resolution :=
  [Resolution.known .string, .known .number, .unknown].find? (fun r => r.name = s)

@[simp] theorem Role.ofName_name (r : Role) : Role.ofName r.name = some r := by
  cases r <;> rfl

@[simp] theorem Fault.ofName_name (f : Fault) : Fault.ofName f.name = some f := by
  cases f <;> rfl

@[simp] theorem Resolution.ofName_name (r : Resolution) : Resolution.ofName r.name = some r := by
  cases r with
  | known t => cases t <;> rfl
  | unknown => rfl

/-! ## values -/

def Span.ofJson : Json → Option Span
  | .obj ms =>
    match Json.Members.values ms ["start".toList], Json.Members.values ms ["end".toList] with
    | [.num ⟨false, start, 0⟩], [.num ⟨false, stop, 0⟩] => some ⟨start, stop⟩
    | _, _ => none
  | _ => none

def Fault.ofJson : Json → Option (Option Fault)
  | .null => some none
  | .str s => (Fault.ofName s).map some
  | _ => none

/-- the values under `resolved_type` -/
def Resolution.ofValues : List Json → Option (Option Resolution)
  | [] => some none
  | [.str s] => (Resolution.ofName s).map some
  | _ => none

def Token.ofMembers (ms : Json.Members) : Option Token :=
  match ms.values ["role".toList], ms.values ["text".toList], ms.values ["span".toList],
      ms.values ["error".toList] with
  | [.str role], [.str text], [span], [fault] => do
    return ⟨← Role.ofName role, text, ← Span.ofJson span, ← Fault.ofJson fault,
      ← Resolution.ofValues (ms.values ["resolved_type".toList])⟩
  | _, _, _, _ => none

def Token.ofJson : Json → Option Token
  | .obj ms => ofMembers ms
  | _ => none

def Query.ofJson : Json → Option Query
  | .obj ms =>
    match Json.Members.values ms ["source".toList], Json.Members.values ms ["tokens".toList] with
    | [.str source], [.arr items] => do
      return ⟨source, ← items.mapM Token.ofJson⟩
    | _, _ => none
  | _ => none

theorem Token.ofJson_toJson (t : Token) : Token.ofJson t.toJson = some t := by
  obtain ⟨role, text, span, fault, resolution⟩ := t
  -- the value under `error` and whether there is a `resolved_type` depend on the token
  have hread : Token.ofJson (Token.toJson ⟨role, text, span, fault, resolution⟩) = (do
      return ⟨← Role.ofName role.name, text, ← Span.ofJson span.toJson,
        ← fault.elim (some none) (fun f => (Fault.ofName f.name).map some),
        ← resolution.elim (some none) (fun r => (Resolution.ofName r.name).map some)⟩) := by
    cases fault <;> cases resolution <;> rfl
  have hspan : Span.ofJson span.toJson = some span := rfl
  rw [hread, Role.ofName_name, hspan]
  cases fault <;> cases resolution <;> simp

theorem mapM_ofJson_toJson (ts : List Token) :
    (ts.map Token.toJson).mapM Token.ofJson = some ts := by
  induction ts with
  | nil => rfl
  | cons t ts ih =>
    rw [List.map_cons, List.mapM_cons, Token.ofJson_toJson, ih]
    rfl

/-- **The value that a query is exported to stands for this query.** -/
theorem Query.ofJson_toJson (q : Query) : Query.ofJson q.toJson = some q := by
  have hread : Query.ofJson q.toJson = (do
      return ⟨q.source, ← (q.tokens.map Token.toJson).mapM Token.ofJson⟩) := rfl
  rw [hread, mapM_ofJson_toJson]
  rfl

/-! ## texts -/

theorem Token.depth_toJson_le (t : Token) : t.toJson.depth ≤ 2 := by
  obtain ⟨role, text, span, fault, resolution⟩ := t
  cases fault <;> cases resolution <;> exact Nat.le_refl 2

theorem itemsDepth_toJson_le (ts : List Token) : Json.itemsDepth (ts.map Token.toJson) ≤ 2 := by
  induction ts with
  | nil => exact Nat.zero_le 2
  | cons t ts ih => exact Nat.max_le.mpr ⟨t.depth_toJson_le, ih⟩

theorem Query.depth_toJson_le (q : Query) : q.toJson.depth ≤ Json.maxDepth := by
  have hdepth : q.toJson.depth =
      max 0 (max (Json.itemsDepth (q.tokens.map Token.toJson) + 1) 0) + 1 := rfl
  have hitems := itemsDepth_toJson_le q.tokens
  have hmax : Json.maxDepth = 127 := rfl
  omega

/-- the two texts of a query -/
def Query.exports (q : Query) : List Text := [q.toJson.compact, q.toJson.pretty 0]

theorem Query.spelled_of_mem_exports {q : Query} {s : Text} (h : s ∈ q.exports) :
    Json.Spelled q.toJson s := by
  rcases List.mem_pair.mp h with rfl | rfl
  · exact Json.spelled_compact q.toJson
  · exact Json.spelled_pretty 0 q.toJson

/-- **The exports of a query lose nothing.** Both texts are one value and no other, this value is
read from either, and it stands for the query; so queries that share a text are the same. -/
theorem Query.export_lossless (q : Query) :
    (∀ s ∈ q.exports, (∀ v, Json.Spelled v s ↔ v = q.toJson) ∧ Json.read s = some (q.toJson, [])) ∧
    Query.ofJson q.toJson = some q ∧
    ∀ p : Query, (∃ s, s ∈ p.exports ∧ s ∈ q.exports) ↔ p = q := by
  refine ⟨fun s hs => ?_, q.ofJson_toJson, fun p => ⟨?_, ?_⟩⟩
  · have hspelled := Query.spelled_of_mem_exports hs
    exact ⟨fun v => ⟨fun hv => hv.unique hspelled, fun e => e ▸ hspelled⟩,
      hspelled.read q.depth_toJson_le⟩
  · rintro ⟨s, hp, hq⟩
    have hsame : p.toJson = q.toJson :=
      (Query.spelled_of_mem_exports hp).unique (Query.spelled_of_mem_exports hq)
    have hdecoded := p.ofJson_toJson
    rw [hsame, q.ofJson_toJson] at hdecoded
    exact (Option.some.inj hdecoded).symm
  · rintro rfl
    exact ⟨p.toJson.compact, List.mem_cons_self, List.mem_cons_self⟩

end FilterQuery
