import FilterQuery.Registry
import Std.Data.HashMap

/-!
# Registries with an index

The fields of a registry with the place of each name, entered while the fields are checked.

* `lexesAsWord`                whether a name is lexed as one word and nothing else;
* `IndexedRegistry.enter`      checks fields one after the other and enters their names;
* `IndexedRegistry.ofFields`   the same from the start; no index is left of a list with a problem;
* `IndexedRegistry.get?`       look-up by way of the index, `none` for a place that is not there.
-/

namespace FilterQuery

def lexesAsWord (name : Text) : Bool :=
  match lex name with
  | [l] => l.kind = .word
  | _ => false

/-- a name is hashed as a string is -/
instance : Hashable Text := ⟨fun s => hash (String.ofList s)⟩

structure IndexedRegistry where
  fields : List Field
  places : Std.HashMap Text Nat

namespace IndexedRegistry

/-- A name is entered before it is known whether it was there already. -/
def enter (index : Nat) (places : Std.HashMap Text Nat) :
    List Field → Except RegistryError (Std.HashMap Text Nat)
  | [] => .ok places
  | f :: fs =>
    if f.name = [] then .error (.emptyName index)
    else if !lexesAsWord f.name then .error (.notAWord f.name)
    else
      let (present, places) := places.containsThenInsert f.name index
      if present then .error (.duplicate f.name) else enter (index + 1) places fs

def ofFields (fs : List Field) : Except RegistryError IndexedRegistry :=
  (enter 0 ∅ fs).map (fun places => ⟨fs, places⟩)

def get? (r : IndexedRegistry) (name : Text) : Option (Option Field) :=
  match r.places[name]? with
  | none => some none
  | some i => r.fields[i]?.map some

def contains (r : IndexedRegistry) (name : Text) : Bool := r.places.contains name

end IndexedRegistry

end FilterQuery
