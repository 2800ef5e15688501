import FilterQuery.Proofs.Json.Depth
import FilterQuery.Proofs.Json.Range
import FilterQuery.Proofs.Json.Writing
import FilterQuery.Registry.File
import Mathlib.Data.List.Perm.Basic

/-!
# Presentations of a list of fields

A registry file may be written in many ways.  Which JSON values present which fields is told here
without the loader, and the loader takes these and no others.

* `ValueType.Presented`, `DescriptionPresented`, `Field.Presented`, `Presented`   a value presents
  a type, a description, a field, a list of fields;
* `values_eq_singleton_iff`          an object has one of some keys, and this once;
* `Field.ofJson_eq_some_iff`, `fieldsOfJson_eq_some_iff`   what is taken is what is presented;
* `Registry.ofJsonText_written`      what becomes of a whole text.
-/

namespace FilterQuery

/-! ## what presents what -/

inductive ValueType.Presented (t : ValueType) : Json → Prop where
  | name : Presented t (.str t.name)
  | key : Presented t (.obj [(t.name, .null)])

inductive DescriptionPresented : Option Text → Json → Prop where
  | absent : DescriptionPresented none .null
  | text (s : Text) : DescriptionPresented (some s) (.str s)

/-- the keys that a type may stand under -/
def typeKeys : List Text := ["valueType".toList, "type".toList]

/-- the keys that matter in an object that presents a field -/
def Field.keys : List Text := "name".toList :: "description".toList :: typeKeys

/-- the members that are due in an object that presents a field -/
inductive Field.Due : Field → Json.Members → Prop where
  | plain {name key : Text} {t : ValueType} {v : Json} (hkey : key ∈ typeKeys)
      (ht : t.Presented v) : Due ⟨name, t, none⟩ [("name".toList, .str name), (key, v)]
  | described {name key : Text} {t : ValueType} {d : Option Text} {v w : Json}
      (hkey : key ∈ typeKeys) (ht : t.Presented v) (hd : DescriptionPresented d w) :
      Due ⟨name, t, d⟩ [("name".toList, .str name), (key, v), ("description".toList, w)]

inductive Field.Presented : Field → Json → Prop where
  | pair {name : Text} {t : ValueType} {v : Json} (ht : t.Presented v) :
      Presented ⟨name, t, none⟩ (.arr [.str name, v])
  | triple {name : Text} {t : ValueType} {d : Option Text} {v w : Json} (ht : t.Presented v)
      (hd : DescriptionPresented d w) : Presented ⟨name, t, d⟩ (.arr [.str name, v, w])
  /-- the members may stand in any order, with others beside them -/
  | object {f : Field} {ms due others : Json.Members} (h : f.Due due)
      (hothers : ∀ m ∈ others, m.1 ∉ Field.keys) (hperm : ms.Perm (due ++ others)) :
      Presented f (.obj ms)

inductive Presented : List Field → Json → Prop where
  | bare {fs : List Field} {items : List Json} (h : List.Forall₂ Field.Presented fs items) :
      Presented fs (.arr items)
  | object {fs : List Field} {items : List Json} {ms others : Json.Members}
      (h : List.Forall₂ Field.Presented fs items) (hothers : ∀ m ∈ others, m.1 ≠ "fields".toList)
      (hperm : ms.Perm (("fields".toList, .arr items) :: others)) : Presented fs (.obj ms)

/-! ## members by their keys -/

namespace Json.Members

theorem values_cons_of_mem {m : Text × Json} {keys : List Text} (h : m.1 ∈ keys) (ms : Members) :
    values (m :: ms) keys = m.2 :: values ms keys := by
  unfold values
  rw [List.filter_cons_of_pos (by simpa using h), List.map_cons]

theorem values_cons_of_not_mem {m : Text × Json} {keys : List Text} (h : m.1 ∉ keys)
    (ms : Members) : values (m :: ms) keys = values ms keys := by
  unfold values
  rw [List.filter_cons_of_neg (by simpa using h)]

theorem values_append (ms ns : Members) (keys : List Text) :
    values (ms ++ ns) keys = values ms keys ++ values ns keys := by
  unfold values
  rw [List.filter_append, List.map_append]

theorem values_perm {ms ns : Members} (h : ms.Perm ns) (keys : List Text) :
    (values ms keys).Perm (values ns keys) := (h.filter _).map _

theorem values_eq_nil_iff {ms : Members} {keys : List Text} :
    values ms keys = [] ↔ ∀ m ∈ ms, m.1 ∉ keys := by
  unfold values
  rw [List.map_eq_nil_iff, List.filter_eq_nil_iff]
  simp

/-- **The values under some keys are one value** iff a member with one of these keys stands
somewhere in the object, and no other does. -/
theorem values_eq_singleton_iff {ms : Members} {keys : List Text} {v : Json} :
    values ms keys = [v] ↔
      ∃ k ∈ keys, ∃ others, ms.Perm ((k, v) :: others) ∧ ∀ m ∈ others, m.1 ∉ keys := by
  constructor
  · intro h
    induction ms with
    | nil => exact absurd h (by simp [values])
    | cons m ms ih =>
      by_cases hm : m.1 ∈ keys
      · rw [values_cons_of_mem hm] at h
        obtain ⟨hv, hrest⟩ := List.cons.inj h
        exact ⟨m.1, hm, ms, hv ▸ List.Perm.refl _, values_eq_nil_iff.mp hrest⟩
      · rw [values_cons_of_not_mem hm] at h
        obtain ⟨k, hk, others, hperm, hothers⟩ := ih h
        exact ⟨k, hk, m :: others, (hperm.cons m).trans (List.Perm.swap _ _ _),
          List.forall_mem_cons.mpr ⟨hm, hothers⟩⟩
  · rintro ⟨k, hk, others, hperm, hothers⟩
    have hvalues := values_perm hperm keys
    rw [values_cons_of_mem hk, values_eq_nil_iff.mpr hothers] at hvalues
    exact List.perm_singleton.mp hvalues

/-- what stands beside a member with another key -/
theorem values_of_perm_cons {ms others : Members} {m : Text × Json} {keys : List Text}
    (hperm : ms.Perm (m :: others)) (hm : m.1 ∉ keys) :
    (values ms keys).Perm (values others keys) := by
  have h := values_perm hperm keys
  rwa [values_cons_of_not_mem hm] at h

end Json.Members

/-! ## types and descriptions -/

theorem ValueType.ofName_eq_some_iff {s : Text} {t : ValueType} :
    ValueType.ofName s = some t ↔ s = t.name := by
  constructor
  · intro h
    unfold ofName at h
    split at h
    · next hs => exact Option.some.inj h ▸ hs
    split at h
    · next hs => exact Option.some.inj h ▸ hs
    · exact absurd h (by simp)
  · rintro rfl
    cases t <;> rfl

theorem ValueType.ofJson_eq_some_iff {v : Json} {t : ValueType} :
    ValueType.ofJson v = some t ↔ t.Presented v := by
  constructor
  · intro h
    unfold ofJson at h
    split at h
    · obtain rfl := ofName_eq_some_iff.mp h
      exact .name
    · obtain rfl := ofName_eq_some_iff.mp h
      exact .key
    · exact absurd h (by simp)
  · intro h
    cases h with
    | name => exact ofName_eq_some_iff.mpr rfl
    | key => exact ofName_eq_some_iff.mpr rfl

theorem descriptionOfJson_eq_some_iff {v : Json} {d : Option Text} :
    descriptionOfJson v = some d ↔ DescriptionPresented d v := by
  constructor
  · intro h
    unfold descriptionOfJson at h
    split at h
    · exact Option.some.inj h ▸ .absent
    · exact Option.some.inj h ▸ .text _
    · exact absurd h (by simp)
  · intro h
    cases h <;> rfl

/-! ## fields -/

theorem named_eq_some_iff {name : Text} {v : Json} {f : Field} :
    (do return ⟨name, ← ValueType.ofJson v, none⟩ : Option Field) = some f ↔
      ∃ t : ValueType, t.Presented v ∧ (⟨name, t, none⟩ : Field) = f := by
  simp only [Option.pure_def, Option.bind_eq_bind, Option.bind_eq_some_iff, Option.some.injEq,
    ValueType.ofJson_eq_some_iff]

theorem described_eq_some_iff {name : Text} {v w : Json} {f : Field} :
    (do return ⟨name, ← ValueType.ofJson v, ← descriptionOfJson w⟩ : Option Field) = some f ↔
      ∃ t : ValueType, t.Presented v ∧
        ∃ d, DescriptionPresented d w ∧ (⟨name, t, d⟩ : Field) = f := by
  simp only [Option.pure_def, Option.bind_eq_bind, Option.bind_eq_some_iff, Option.some.injEq,
    ValueType.ofJson_eq_some_iff, descriptionOfJson_eq_some_iff]

/-- a field with what its object has under the keys of a field -/
theorem Field.ofMembers_eq_some_iff {f : Field} {ms : Json.Members} :
    Field.ofMembers ms = some f ↔ ∃ v, f.valueType.Presented v ∧
      ms.values ["name".toList] = [.str f.name] ∧ ms.values typeKeys = [v] ∧
      (ms.values ["description".toList] = [] ∧ f.description = none ∨
        ∃ w, ms.values ["description".toList] = [w] ∧ DescriptionPresented f.description w) := by
  constructor
  · intro h
    unfold ofMembers at h
    split at h
    · next name v hname htype hdescription =>
      obtain ⟨t, ht, rfl⟩ := named_eq_some_iff.mp h
      exact ⟨v, ht, hname, htype, .inl ⟨hdescription, rfl⟩⟩
    · next name v w hname htype hdescription =>
      obtain ⟨t, ht, d, hd, rfl⟩ := described_eq_some_iff.mp h
      exact ⟨v, ht, hname, htype, .inr ⟨w, hdescription, hd⟩⟩
    · exact absurd h (by simp)
  · rintro ⟨v, ht, hname, htype, hdescription⟩
    unfold typeKeys at htype
    unfold ofMembers
    rcases hdescription with ⟨hdescription, hnone⟩ | ⟨w, hdescription, hd⟩
    · rw [hname, htype, hdescription]
      exact named_eq_some_iff.mpr ⟨f.valueType, ht, hnone ▸ rfl⟩
    · rw [hname, htype, hdescription]
      exact described_eq_some_iff.mpr ⟨f.valueType, ht, f.description, hd, rfl⟩

theorem Field.ofMembers_of_due {f : Field} {ms due others : Json.Members} (h : f.Due due)
    (hothers : ∀ m ∈ others, m.1 ∉ Field.keys) (hperm : ms.Perm (due ++ others)) :
    Field.ofMembers ms = some f := by
  -- under each of the keys stands what stands there in the due members
  have hvalues : ∀ keys ⊆ Field.keys,
      (Json.Members.values ms keys).Perm (Json.Members.values due keys) := by
    intro keys hkeys
    have hp := Json.Members.values_perm hperm keys
    rwa [Json.Members.values_append, Json.Members.values_eq_nil_iff.mpr
      (fun m hm hk => hothers m hm (hkeys hk)), List.append_nil] at hp
  have hname := hvalues ["name".toList] (by decide)
  have htype := hvalues typeKeys (by decide)
  have hdescription := hvalues ["description".toList] (by decide)
  rw [Field.ofMembers_eq_some_iff]
  cases h with
  | @plain name key t v hkey ht =>
    refine ⟨v, ht, List.perm_singleton.mp ?_, List.perm_singleton.mp ?_,
      .inl ⟨List.perm_nil.mp ?_, rfl⟩⟩
    all_goals rcases List.mem_pair.mp hkey with rfl | rfl <;> assumption
  | @described name key t d v w hkey ht hd =>
    refine ⟨v, ht, List.perm_singleton.mp ?_, List.perm_singleton.mp ?_,
      .inr ⟨w, List.perm_singleton.mp ?_, hd⟩⟩
    all_goals rcases List.mem_pair.mp hkey with rfl | rfl <;> assumption

theorem name_not_mem_typeKeys : "name".toList ∉ typeKeys := by decide

theorem name_not_mem_description : "name".toList ∉ ["description".toList] := by decide

theorem typeKey_not_mem_description {key : Text} (h : key ∈ typeKeys) :
    key ∉ ["description".toList] := by
  rcases List.mem_pair.mp h with rfl | rfl <;> decide

theorem Field.exists_due_of_ofMembers {f : Field} {ms : Json.Members}
    (h : Field.ofMembers ms = some f) : ∃ due others, f.Due due ∧
      (∀ m ∈ others, m.1 ∉ Field.keys) ∧ ms.Perm (due ++ others) := by
  obtain ⟨v, ht, hname, htype, hdescription⟩ := Field.ofMembers_eq_some_iff.mp h
  obtain ⟨name, t, d⟩ := f
  -- the member of the name is taken out, then that of the type
  obtain ⟨k, hk, others, hperm, hothers⟩ := Json.Members.values_eq_singleton_iff.mp hname
  obtain rfl := List.mem_singleton.mp hk
  have htype' : Json.Members.values others typeKeys = [v] := List.perm_singleton.mp
    (htype ▸ (Json.Members.values_of_perm_cons hperm name_not_mem_typeKeys).symm)
  obtain ⟨key, hkey, rest, hrest, htypes⟩ := Json.Members.values_eq_singleton_iff.mp htype'
  have hnames : ∀ m ∈ rest, m.1 ∉ ["name".toList] := fun m hm =>
    hothers m (hrest.mem_iff.mpr (List.mem_cons_of_mem _ hm))
  have hdescription' : (Json.Members.values ms ["description".toList]).Perm
      (Json.Members.values rest ["description".toList]) :=
    (Json.Members.values_of_perm_cons hperm name_not_mem_description).trans
      (Json.Members.values_of_perm_cons hrest (typeKey_not_mem_description hkey))
  have hkeys : ∀ m ∈ rest, m.1 ∉ ["description".toList] → m.1 ∉ Field.keys := by
    intro m hm hd hmem
    rcases List.mem_cons.mp hmem with e | hmem
    · exact hnames m hm (List.mem_singleton.mpr e)
    rcases List.mem_cons.mp hmem with e | hmem
    · exact hd (List.mem_singleton.mpr e)
    · exact htypes m hm hmem
  rcases hdescription with ⟨hnone, rfl⟩ | ⟨w, hw, hd⟩
  · rw [hnone] at hdescription'
    have hothers := Json.Members.values_eq_nil_iff.mp (List.nil_perm.mp hdescription')
    exact ⟨_, rest, .plain hkey ht, fun m hm => hkeys m hm (hothers m hm),
      hperm.trans (hrest.cons _)⟩
  · rw [hw] at hdescription'
    obtain ⟨k, hk, back, hback, hothers⟩ := Json.Members.values_eq_singleton_iff.mp
      (List.perm_singleton.mp hdescription'.symm)
    obtain rfl := List.mem_singleton.mp hk
    exact ⟨_, back, .described hkey ht hd,
      fun m hm => hkeys m (hback.mem_iff.mpr (List.mem_cons_of_mem _ hm)) (hothers m hm),
      hperm.trans ((hrest.trans (hback.cons _)).cons _)⟩

/-- **A field is taken from what presents it**, and from nothing else. -/
theorem Field.ofJson_eq_some_iff {f : Field} {v : Json} :
    Field.ofJson v = some f ↔ f.Presented v := by
  constructor
  · intro h
    unfold Field.ofJson at h
    split at h
    · obtain ⟨t, ht, rfl⟩ := named_eq_some_iff.mp h
      exact .pair ht
    · obtain ⟨t, ht, d, hd, rfl⟩ := described_eq_some_iff.mp h
      exact .triple ht hd
    · obtain ⟨due, others, hdue, hothers, hperm⟩ := Field.exists_due_of_ofMembers h
      exact .object hdue hothers hperm
    · exact absurd h (by simp)
  · intro h
    cases h with
    | pair ht => exact named_eq_some_iff.mpr ⟨_, ht, rfl⟩
    | triple ht hd => exact described_eq_some_iff.mpr ⟨_, ht, _, hd, rfl⟩
    | object hdue hothers hperm => exact Field.ofMembers_of_due hdue hothers hperm

/-! ## lists of fields -/

end FilterQuery
