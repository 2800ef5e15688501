import FilterQuery.Lexeme
import FilterQuery.Token

/-!
# The field registry

The fields that a query may name, in the order in which they were declared.

* `Field`               a name, a value type and perhaps a description;
* `Registry`            a list of fields whose names are distinct and can each be typed as one word;
* `Registry.ofFields`   checks a list of fields; `RegistryError` tells the first thing wrong with it;
* `Registry.get?`, `Registry.startingWith`, `Registry.containing`   look-up by name, by the start of
  the name, by a part of it;
* `Registry.builtin`    the network-flow fields that need no configuration.
-/

namespace FilterQuery

structure Field where
  name : Text
  valueType : ValueType
  /-- shown next to a completion -/
  description : Option Text
deriving DecidableEq, Repr

structure Registry where
  fields : List Field
  distinct : (fields.map Field.name).Nodup
  typeable : ∀ f ∈ fields, IsWord f.name
deriving DecidableEq, Repr

/-! ## validation -/

inductive RegistryError where
  | emptyName (index : Nat)
  | duplicate (name : Text)
  /-- the name would not be read back as one word, so no query could name the field -/
  | notAWord (name : Text)
deriving DecidableEq, Repr

def RegistryError.message : RegistryError → Text
  | .emptyName i => "field #".toList ++ Text.decimal i ++ " has an empty name".toList
  | .duplicate n => "field `".toList ++ n ++ "` is declared more than once".toList
  | .notAWord n => "field `".toList ++ n ++ "` cannot be typed as a single bareword".toList

namespace Registry

/-- what is wrong with the field at an index, given the names before it -/
def problemAt (index : Nat) (earlier : List Text) (f : Field) : Option RegistryError :=
  if f.name = [] then some (.emptyName index)
  else if ¬ IsWord f.name then some (.notAWord f.name)
  else if f.name ∈ earlier then some (.duplicate f.name)
  else none

/-- the first problem of a list of fields that continues an accepted one -/
def firstProblem (index : Nat) (earlier : List Text) : List Field → Option RegistryError
  | [] => none
  | f :: fs =>
    match problemAt index earlier f with
    | some e => some e
    | none => firstProblem (index + 1) (f.name :: earlier) fs

theorem problemAt_eq_none {index : Nat} {earlier : List Text} {f : Field} :
    problemAt index earlier f = none ↔ IsWord f.name ∧ f.name ∉ earlier := by
  unfold problemAt
  constructor
  · intro h
    split at h
    · simp at h
    split at h
    · simp at h
    split at h
    · simp at h
    · next h2 h3 => exact ⟨Decidable.not_not.mp h2, h3⟩
  · rintro ⟨h1, h2⟩
    have h0 : f.name ≠ [] := by
      intro e
      rw [e] at h1
      exact h1
    rw [if_neg h0, if_neg (not_not_intro h1), if_neg h2]

theorem firstProblem_eq_none {index : Nat} {earlier : List Text} {fs : List Field} :
    firstProblem index earlier fs = none ↔
      (∀ f ∈ fs, IsWord f.name) ∧ (fs.map Field.name).Nodup ∧ ∀ f ∈ fs, f.name ∉ earlier := by
  induction fs generalizing index earlier with
  | nil => simp [firstProblem]
  | cons f fs ih =>
    unfold firstProblem
    split
    · next e he =>
      have hn : ¬ (IsWord f.name ∧ f.name ∉ earlier) := by
        intro h
        have h' := (problemAt_eq_none.mpr h).symm.trans he
        simp at h'
      constructor
      · simp
      · rintro ⟨h1, _, h3⟩
        exact absurd ⟨h1 f (by simp), h3 f (by simp)⟩ hn
    · next he =>
      rw [problemAt_eq_none] at he
      rw [ih]
      simp only [List.mem_cons, List.map_cons, List.nodup_cons, List.mem_map, not_or,
        forall_eq_or_imp]
      constructor
      · rintro ⟨h1, h2, h3⟩
        exact ⟨⟨he.1, h1⟩, ⟨fun ⟨g, hg, e⟩ => (h3 g hg).1 e, h2⟩, he.2, fun g hg => (h3 g hg).2⟩
      · rintro ⟨⟨_, h1⟩, ⟨h4, h2⟩, _, h3⟩
        exact ⟨h1, h2, fun g hg => ⟨fun e => h4 ⟨g, hg, e⟩, h3 g hg⟩⟩

def ofFields (fs : List Field) : Except RegistryError Registry :=
  match h : firstProblem 0 [] fs with
  | some e => .error e
  | none => .ok ⟨fs, (firstProblem_eq_none.mp h).2.1, (firstProblem_eq_none.mp h).1⟩

/-! ## look-up -/

def get? (r : Registry) (name : Text) : Option Field := r.fields.find? (fun f => f.name = name)

def contains (r : Registry) (name : Text) : Bool := (r.get? name).isSome

def startingWith (r : Registry) (beginning : Text) : List Field :=
  r.fields.filter (fun f => beginning.isPrefixOf f.name)

def containing (r : Registry) (part : Text) : List Field :=
  r.fields.filter (fun f => part.occursIn f.name)

/-! ## the built-in fields -/

def builtin : Registry where
  fields := [
    ⟨"src_ip".toList, .string, some "Source IP address".toList⟩,
    ⟨"src_port".toList, .number, some "Source port".toList⟩,
    ⟨"dst_ip".toList, .string, some "Destination IP address".toList⟩,
    ⟨"dst_port".toList, .number, some "Destination port".toList⟩]
  distinct := by decide
  typeable := by decide

end Registry

end FilterQuery
