import FilterQuery.Json.Number
import FilterQuery.Json.Reader
import FilterQuery.Registry

/-!
# Registry files

A registry is configured by a JSON text: a list of fields, or an object that has the list under the
key `fields`.  A field is an object, or a list of its name, its type and perhaps its description.

* `Field.ofJson`, `fieldsOfJson`   what a JSON value presents;
* `Registry.ofJsonText`            the registry of a text;
* `Registry.ofFile`                the registry of a file that may be missing;
* `LoadError`                      why there is none.
-/

namespace FilterQuery

/-! ## shapes -/

def ValueType.ofName (s : Text) : Option ValueType :=
  if s = ValueType.string.name then some .string
  else if s = ValueType.number.name then some .number
  else none

/-- the name of the type, or an object that has it as its only key, with nothing under it -/
def ValueType.ofJson : Json → Option ValueType
  | .str s => ofName s
  | .obj [(k, .null)] => ofName k
  | _ => none

/-- a description that is perhaps absent -/
def descriptionOfJson : Json → Option (Option Text)
  | .null => some none
  | .str s => some (some s)
  | _ => none

/-- A name and a type are due exactly once, the type under one of two keys; a description at most
once.  Other keys do not matter. -/
def Field.ofMembers (ms : Json.Members) : Option Field :=
  match ms.values ["name".toList], ms.values ["valueType".toList, "type".toList],
      ms.values ["description".toList] with
  | [.str name], [t], [] => do
    return ⟨name, ← ValueType.ofJson t, none⟩
  | [.str name], [t], [d] => do
    return ⟨name, ← ValueType.ofJson t, ← descriptionOfJson d⟩
  | _, _, _ => none

def Field.ofJson : Json → Option Field
  | .arr [.str name, t] => do
    return ⟨name, ← ValueType.ofJson t, none⟩
  | .arr [.str name, t, d] => do
    return ⟨name, ← ValueType.ofJson t, ← descriptionOfJson d⟩
  | .obj ms => ofMembers ms
  | _ => none

/-- all fields of a list, if every item is one -/
def fieldsOfItems : List Json → Option (List Field)
  | [] => some []
  | v :: vs => do
    let f ← Field.ofJson v
    return f :: (← fieldsOfItems vs)

def fieldsOfJson : Json → Option (List Field)
  | .arr items => fieldsOfItems items
  | .obj ms =>
    match Json.Members.values ms ["fields".toList] with
    | [.arr items] => fieldsOfItems items
    | _ => none
  | _ => none

/-! ## loading -/

inductive LoadError where
  | missing (path : Text)
  /-- the file cannot be read, or its bytes are no text -/
  | unreadable (path : Text)
  /-- the text is not JSON -/
  | malformed
  /-- the text is JSON, but does not present a list of fields -/
  | mismatched
  | invalid (e : RegistryError)
deriving DecidableEq, Repr

/-- The message.  The system that does not read a file, or the reader of JSON that rejects a text,
gives the reason behind the colon: their words are not the library's. -/
def LoadError.message (e : LoadError) (reason : Text := []) : Text :=
  match e with
  | .missing path => "config file does not exist: ".toList ++ path
  | .unreadable path => "cannot read config file ".toList ++ path ++ ": ".toList ++ reason
  | .malformed => "cannot parse field registry JSON: ".toList ++ reason
  | .mismatched =>
    "cannot parse field registry JSON: ".toList ++
      "data did not match any variant of untagged enum RegistryFile".toList
  | .invalid e => e.message

namespace Registry

/-- The first value of the text is read and matched before the text behind it is looked at. -/
def ofJsonText (s : Text) : Except LoadError Registry :=
  match Json.read s with
  | none => .error .malformed
  | some (v, rest) =>
    if ¬ v.inRange then .error .malformed
    else
      match fieldsOfJson v with
      | none => .error .mismatched
      | some fs =>
        if Json.skipBlank rest ≠ [] then .error .malformed
        else
          match ofFields fs with
          | .error e => .error (.invalid e)
          | .ok r => .ok r

end Registry

/-- what is found where a file is looked for -/
inductive Stored where
  | absent
  | unreadable
  | bytes (b : ByteArray)

def Registry.ofFile (path : Text) : Stored → Except LoadError Registry
  | .absent => .error (.missing path)
  | .unreadable => .error (.unreadable path)
  | .bytes b =>
    match String.fromUTF8? b with
    | none => .error (.unreadable path)
    | some s => ofJsonText s.toList

end FilterQuery
