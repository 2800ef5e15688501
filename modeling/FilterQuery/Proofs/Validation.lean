import FilterQuery.Proofs.Flawless
import FilterQuery.Proofs.Shapes
import FilterQuery.Registry.Indexed

/-!
# Lists of fields are checked exactly

* `Typeable`                  a name that can be typed, told by its characters;
* `Registry.FailsAt`          what is wrong with a list of fields at an index;
* `Registry.firstProblem_eq_some_iff`   the check finds what is wrong at the least index;
* `IndexedRegistry.Finds`     an index has the place of every name and no other one;
* `IndexedRegistry.Finds.enter_spec`   entering names finds the same problem, or ends with an index;
* `Registry.ofFields_exact`   when a list of fields is a registry, what is wrong otherwise, and what
  is found in it.
-/

namespace FilterQuery

/-! ## names -/

/-- a name that can be typed, told by its characters -/
structure Typeable (name : Text) : Prop where
  ne_nil : name ≠ []
  unquoted : name.head? ≠ some '"'
  plain : ∀ c ∈ name, c ∉ [' ', '\u00a0', '(', ')', '<', '=', '>']

theorem isWord_iff_typeable {name : Text} : IsWord name ↔ Typeable name := by
  rw [isWord_iff]
  exact ⟨fun ⟨hne, hquote, hplain⟩ => ⟨hne, hquote, hplain⟩,
    fun ⟨hne, hquote, hplain⟩ => ⟨hne, hquote, hplain⟩⟩

theorem lexesAsWord_iff {name : Text} : lexesAsWord name ↔ IsWord name := by
  cases name with
  | nil =>
    unfold lexesAsWord lex
    rw [lexFrom_nil]
    exact iff_of_false (by decide) id
  | cons c s =>
    unfold lexesAsWord lex
    rw [lexFrom_cons]
    show _ ↔ (munch c s).kind = .word ∧ (munch c s).rest = []
    cases hrest : (munch c s).rest with
    | nil =>
      rw [lexFrom_nil]
      simp [Munch.lexeme]
    | cons d r =>
      rw [lexFrom_cons]
      simp

/-! ## the first problem -/

namespace Registry

/-- **What is wrong with a list of fields at an index**, in the order in which it is looked for. -/
inductive FailsAt (fs : List Field) (i : Nat) : RegistryError → Prop where
  | emptyName {f : Field} (hf : fs[i]? = some f) (h : f.name = []) : FailsAt fs i (.emptyName i)
  | notAWord {f : Field} (hf : fs[i]? = some f) (hne : f.name ≠ []) (h : ¬ Typeable f.name) :
    FailsAt fs i (.notAWord f.name)
  | duplicate {f g : Field} {j : Nat} (hf : fs[i]? = some f) (h : Typeable f.name) (hj : j < i)
    (hg : fs[j]? = some g) (hname : g.name = f.name) : FailsAt fs i (.duplicate f.name)

/-- the names that are declared, the last one first -/
def declared (fs : List Field) : List Text := (fs.map Field.name).reverse

theorem mem_declared {fs : List Field} {name : Text} :
    name ∈ declared fs ↔ name ∈ fs.map Field.name := List.mem_reverse

theorem declared_concat (fs : List Field) (f : Field) :
    declared (fs ++ [f]) = f.name :: declared fs := by
  unfold declared
  rw [List.map_append, List.reverse_append]
  rfl

theorem mem_declared_take_iff {fs : List Field} {i : Nat} {name : Text} :
    name ∈ declared (fs.take i) ↔ ∃ j g, j < i ∧ fs[j]? = some g ∧ g.name = name := by
  rw [mem_declared, List.mem_map]
  constructor
  · rintro ⟨g, hg, hname⟩
    obtain ⟨j, hj⟩ := List.mem_iff_getElem?.mp hg
    rw [List.getElem?_take] at hj
    split at hj
    · next hlt => exact ⟨j, g, hlt, hj, hname⟩
    · exact absurd hj (by simp)
  · rintro ⟨j, g, hlt, hg, hname⟩
    refine ⟨g, List.mem_iff_getElem?.mpr ⟨j, ?_⟩, hname⟩
    rw [List.getElem?_take_of_lt hlt, hg]

theorem failsAt_iff {fs : List Field} {i : Nat} {x : RegistryError} : FailsAt fs i x ↔
    ∃ f, fs[i]? = some f ∧ problemAt i (declared (fs.take i)) f = some x := by
  constructor
  · intro h
    cases h with
    | @emptyName f hf h =>
      refine ⟨f, hf, ?_⟩
      unfold problemAt
      rw [if_pos h]
    | @notAWord f hf hne h =>
      refine ⟨f, hf, ?_⟩
      unfold problemAt
      rw [if_neg hne, if_pos (mt isWord_iff_typeable.mp h)]
    | @duplicate f g j hf h hj hg hname =>
      refine ⟨f, hf, ?_⟩
      unfold problemAt
      rw [if_neg h.ne_nil, if_neg (not_not_intro (isWord_iff_typeable.mpr h)),
        if_pos (mem_declared_take_iff.mpr ⟨j, g, hj, hg, hname⟩)]
  · rintro ⟨f, hf, hx⟩
    unfold problemAt at hx
    split at hx
    · next h =>
      obtain rfl := Option.some.inj hx
      exact .emptyName hf h
    next hne =>
    split at hx
    · next h =>
      obtain rfl := Option.some.inj hx
      exact .notAWord hf hne (mt isWord_iff_typeable.mpr h)
    next h =>
    split at hx
    · next hmem =>
      obtain rfl := Option.some.inj hx
      obtain ⟨j, g, hj, hg, hname⟩ := mem_declared_take_iff.mp hmem
      exact .duplicate hf (isWord_iff_typeable.mp (not_not.mp h)) hj hg hname
    · exact absurd hx (by simp)

variable (done : List Field) {fs : List Field}

/-- the field behind those that are done fails as it is found to -/
theorem failsAt_length_iff {f : Field} {x : RegistryError} :
    FailsAt (done ++ f :: fs) done.length x ↔
      problemAt done.length (declared done) f = some x := by
  rw [failsAt_iff, List.take_left, getElem?_append_length]
  constructor
  · rintro ⟨g, hg, hx⟩
    rwa [Option.some.inj hg]
  · intro hx
    exact ⟨f, rfl, hx⟩

/-- **The check finds what is wrong at the least index**, behind fields that are done. -/
theorem firstProblem_eq_some_iff {x : RegistryError} :
    firstProblem done.length (declared done) fs = some x ↔
      ∃ i, FailsAt (done ++ fs) i x ∧ done.length ≤ i ∧
        ∀ j, done.length ≤ j → j < i → ∀ y, ¬ FailsAt (done ++ fs) j y := by
  induction fs generalizing done with
  | nil =>
    refine iff_of_false (by simp [firstProblem]) ?_
    rintro ⟨i, hfails, hle, -⟩
    obtain ⟨f, hf, -⟩ := failsAt_iff.mp hfails
    rw [List.append_nil, List.getElem?_eq_none hle] at hf
    exact absurd hf (by simp)
  | cons f fs ih =>
    have hhere : ∀ y, FailsAt (done ++ f :: fs) done.length y ↔
        problemAt done.length (declared done) f = some y := fun y => failsAt_length_iff done
    have hnext := ih (done ++ [f])
    rw [List.length_append, List.append_assoc, declared_concat] at hnext
    unfold firstProblem
    cases hproblem : problemAt done.length (declared done) f with
    | some e =>
      have hfails := (hhere e).mpr hproblem
      constructor
      · intro he
        obtain rfl := Option.some.inj he
        exact ⟨done.length, hfails, Nat.le_refl _, fun j hle hlt => absurd hlt (Nat.not_lt.mpr hle)⟩
      · rintro ⟨i, hi, hle, hleast⟩
        obtain rfl : done.length = i := by
          by_contra hne
          exact hleast _ (Nat.le_refl _) (Nat.lt_of_le_of_ne hle hne) e hfails
        exact hproblem.symm.trans ((hhere x).mp hi)
    | none =>
      have hnot : ∀ y, ¬ FailsAt (done ++ f :: fs) done.length y := by
        intro y hy
        have he := (hhere y).mp hy
        rw [hproblem] at he
        exact absurd he (by simp)
      refine hnext.trans ⟨?_, ?_⟩
      · rintro ⟨i, hi, hle, hleast⟩
        refine ⟨i, hi, Nat.le_of_succ_le hle, fun j hj hlt => ?_⟩
        rcases Nat.eq_or_lt_of_le hj with rfl | hj
        · exact hnot
        · exact hleast j hj hlt
      · rintro ⟨i, hi, hle, hleast⟩
        have hlt : done.length < i :=
          Nat.lt_of_le_of_ne hle (fun he => hnot x (he ▸ hi))
        exact ⟨i, hi, hlt, fun j hj => hleast j (Nat.le_of_succ_le hj)⟩

theorem ofFields_of_problem {fs : List Field} {x : RegistryError}
    (h : firstProblem 0 [] fs = some x) : ofFields fs = .error x := by
  unfold ofFields
  split
  · next e he => rw [Option.some.inj (he.symm.trans h)]
  · next he => exact absurd (he.symm.trans h) (by simp)

theorem exists_ofFields {fs : List Field} (h : firstProblem 0 [] fs = none) :
    ∃ r, ofFields fs = .ok r ∧ r.fields = fs := by
  unfold ofFields
  split
  · next e he => exact absurd (he.symm.trans h) (by simp)
  · exact ⟨_, rfl, rfl⟩

theorem ofFields_eq_error_iff {fs : List Field} {x : RegistryError} : ofFields fs = .error x ↔
    ∃ i, FailsAt fs i x ∧ ∀ j < i, ∀ y, ¬ FailsAt fs j y := by
  have hfirst : firstProblem 0 [] fs = some x ↔ ∃ i, FailsAt fs i x ∧ 0 ≤ i ∧
      ∀ j, 0 ≤ j → j < i → ∀ y, ¬ FailsAt fs j y := firstProblem_eq_some_iff []
  simp only [Nat.zero_le, true_and, forall_const] at hfirst
  rw [← hfirst]
  cases hproblem : firstProblem 0 [] fs with
  | some y => rw [ofFields_of_problem hproblem, Except.error.injEq, Option.some.injEq]
  | none =>
    obtain ⟨r, hr, -⟩ := exists_ofFields hproblem
    rw [hr]
    exact iff_of_false (by simp) (by simp)

theorem ofFields_eq_ok_iff {fs : List Field} :
    (∃ r, ofFields fs = .ok r) ↔ (fs.map Field.name).Nodup ∧ ∀ f ∈ fs, Typeable f.name := by
  have hnone : firstProblem 0 [] fs = none ↔ _ := firstProblem_eq_none
  have hword : (∀ f ∈ fs, IsWord f.name) ↔ ∀ f ∈ fs, Typeable f.name :=
    forall₂_congr (fun f _ => isWord_iff_typeable)
  rw [← hword, and_comm]
  constructor
  · rintro ⟨r, hr⟩
    cases hproblem : firstProblem 0 [] fs with
    | some x =>
      rw [ofFields_of_problem hproblem] at hr
      exact absurd hr (by simp)
    | none =>
      obtain ⟨hwords, hdistinct, -⟩ := hnone.mp hproblem
      exact ⟨hwords, hdistinct⟩
  · rintro ⟨hwords, hdistinct⟩
    obtain ⟨r, hr, -⟩ := exists_ofFields (hnone.mpr ⟨hwords, hdistinct, by simp⟩)
    exact ⟨r, hr⟩

end Registry

/-! ## the index -/

theorem getElem?_concat_eq_some_iff {α : Type} {xs : List α} {x y : α} {i : Nat} :
    (xs ++ [x])[i]? = some y ↔ xs[i]? = some y ∨ i = xs.length ∧ x = y := by
  rcases Nat.lt_trichotomy i xs.length with hlt | rfl | hgt
  · rw [List.getElem?_append_left hlt, or_iff_left (fun h => absurd h.1 (Nat.ne_of_lt hlt))]
  · rw [getElem?_append_length, List.getElem?_eq_none (Nat.le_refl _)]
    simp
  · rw [List.getElem?_eq_none (by rw [List.length_append]; exact hgt),
      List.getElem?_eq_none (Nat.le_of_lt hgt)]
    simp [Nat.ne_of_gt hgt]

namespace IndexedRegistry

/-- **An index of a list of fields**: it has the place of every name, and no other one. -/
def Finds (fs : List Field) (places : Std.HashMap Text Nat) : Prop :=
  ∀ name i, places[name]? = some i ↔ ∃ f : Field, fs[i]? = some f ∧ f.name = name

variable {done fs : List Field} {places : Std.HashMap Text Nat}

theorem finds_nil : Finds [] ∅ := by
  intro name i
  simp

theorem Finds.contains_iff (h : Finds fs places) {name : Text} :
    places.contains name ↔ name ∈ fs.map Field.name := by
  rw [Std.HashMap.contains_eq_isSome_getElem?, Option.isSome_iff_exists, List.mem_map]
  constructor
  · rintro ⟨i, hi⟩
    obtain ⟨f, hf, hname⟩ := (h name i).mp hi
    exact ⟨f, List.mem_of_getElem? hf, hname⟩
  · rintro ⟨f, hf, hname⟩
    obtain ⟨i, hi⟩ := List.mem_iff_getElem?.mp hf
    exact ⟨i, (h name i).mpr ⟨f, hi, hname⟩⟩

theorem Finds.concat (h : Finds done places) {f : Field} (hnew : f.name ∉ done.map Field.name) :
    Finds (done ++ [f]) (places.insert f.name done.length) := by
  intro name i
  simp only [Std.HashMap.getElem?_insert, getElem?_concat_eq_some_iff, beq_iff_eq]
  by_cases hname : f.name = name
  · rw [if_pos hname]
    constructor
    · intro hi
      exact ⟨f, .inr ⟨(Option.some.inj hi).symm, rfl⟩, hname⟩
    · rintro ⟨g, hg | ⟨rfl, -⟩, hgname⟩
      · -- the name is not there yet
        have hmem := List.mem_map_of_mem (f := Field.name) (List.mem_of_getElem? hg)
        rw [hgname, ← hname] at hmem
        exact absurd hmem hnew
      · rfl
  · rw [if_neg hname, h name i]
    constructor
    · rintro ⟨g, hg, hgname⟩
      exact ⟨g, .inl hg, hgname⟩
    · rintro ⟨g, hg | ⟨-, rfl⟩, hgname⟩
      · exact ⟨g, hg, hgname⟩
      · exact absurd hgname hname

theorem Finds.enter_cons (h : Finds done places) (index : Nat) (f : Field) (fs : List Field) :
    enter index places (f :: fs) =
      match Registry.problemAt index (Registry.declared done) f with
      | some x => .error x
      | none => enter (index + 1) (places.insert f.name index) fs := by
  have hcontains : places.contains f.name ↔ f.name ∈ Registry.declared done :=
    h.contains_iff.trans Registry.mem_declared.symm
  have hinsert : places.containsThenInsert f.name index =
      (places.contains f.name, places.insert f.name index) :=
    Prod.ext Std.HashMap.containsThenInsert_fst Std.HashMap.containsThenInsert_snd
  unfold Registry.problemAt
  rw [enter, hinsert]
  by_cases hempty : f.name = []
  · rw [if_pos hempty, if_pos hempty]
  rw [if_neg hempty, if_neg hempty]
  by_cases hword : IsWord f.name
  · rw [if_neg (by simp [lexesAsWord_iff.mpr hword]), if_neg (not_not_intro hword)]
    by_cases hmem : f.name ∈ Registry.declared done
    · rw [if_pos hmem]
      exact if_pos (hcontains.mpr hmem)
    · rw [if_neg hmem]
      exact if_neg (mt hcontains.mp hmem)
  · rw [if_pos hword, if_pos (by simpa using mt lexesAsWord_iff.mp hword)]

/-- **Entering names** finds the first problem, or ends with an index of all fields. -/
theorem Finds.enter_spec (h : Finds done places) :
    match Registry.firstProblem done.length (Registry.declared done) fs with
    | some x => enter done.length places fs = .error x
    | none =>
      ∃ places', enter done.length places fs = .ok places' ∧ Finds (done ++ fs) places' := by
  induction fs generalizing done places with
  | nil =>
    refine ⟨places, rfl, ?_⟩
    rwa [List.append_nil]
  | cons f fs ih =>
    rw [h.enter_cons]
    unfold Registry.firstProblem
    cases hproblem : Registry.problemAt done.length (Registry.declared done) f with
    | some x => rfl
    | none =>
      have hnew : f.name ∉ done.map Field.name := by
        rw [← Registry.mem_declared]
        exact (Registry.problemAt_eq_none.mp hproblem).2
      have hnext := ih (h.concat hnew)
      rw [List.length_append, List.append_assoc, Registry.declared_concat] at hnext
      exact hnext

theorem ofFields_spec (fs : List Field) :
    match Registry.firstProblem 0 [] fs with
    | some x => ofFields fs = .error x
    | none => ∃ places, ofFields fs = .ok ⟨fs, places⟩ ∧ Finds fs places := by
  have hspec : match Registry.firstProblem 0 [] fs with
      | some x => enter 0 ∅ fs = .error x
      | none => ∃ places, enter 0 ∅ fs = .ok places ∧ Finds fs places :=
    finds_nil.enter_spec
  unfold ofFields
  revert hspec
  cases Registry.firstProblem 0 [] fs with
  | some x =>
    intro (hx : enter 0 ∅ fs = .error x)
    rw [hx]
    rfl
  | none =>
    rintro ⟨places, hplaces, hfinds⟩
    rw [hplaces]
    exact ⟨places, rfl, hfinds⟩

theorem Finds.get?_eq {reg : Registry} (h : Finds reg.fields places) (name : Text) :
    get? ⟨reg.fields, places⟩ name = some (reg.get? name) := by
  unfold get?
  dsimp only
  cases hplace : places[name]? with
  | none =>
    have hno : reg.get? name = none := by
      rw [reg.get?_eq_none_iff]
      intro f hf hname
      obtain ⟨i, hi⟩ := List.mem_iff_getElem?.mp hf
      have hsome := (h name i).mpr ⟨f, hi, hname⟩
      rw [hplace] at hsome
      exact absurd hsome (by simp)
    rw [hno]
  | some i =>
    obtain ⟨f, hf, rfl⟩ := (h name i).mp hplace
    rw [reg.get?_of_mem (List.mem_of_getElem? hf)]
    show reg.fields[i]?.map some = _
    rw [hf]
    rfl

end IndexedRegistry

/-! ## look-up -/

namespace Registry

theorem get?_eq_some_iff (reg : Registry) {name : Text} {f : Field} :
    reg.get? name = some f ↔ f ∈ reg.fields ∧ f.name = name := by
  constructor
  · exact reg.mem_of_get?
  · rintro ⟨hf, rfl⟩
    exact reg.get?_of_mem hf

theorem contains_iff (reg : Registry) {name : Text} :
    reg.contains name ↔ name ∈ reg.fields.map Field.name := by
  unfold contains
  rw [Option.isSome_iff_exists, List.mem_map]
  exact exists_congr (fun f => reg.get?_eq_some_iff)

/-- **The check of a list of fields is exact.**  The list is a registry iff its names are distinct
and can be typed; otherwise the error is what is wrong at the least index at which something is.  A
registry has the fields of the list, in its order, and finds the one with a name, if there is one.
With an index of the names all of this is the same. -/
theorem ofFields_exact (fs : List Field) :
    ((∃ r, ofFields fs = .ok r) ↔ (fs.map Field.name).Nodup ∧ ∀ f ∈ fs, Typeable f.name) ∧
    (∀ x, ofFields fs = .error x ↔
      ∃ i, FailsAt fs i x ∧ ∀ j < i, ∀ y, ¬ FailsAt fs j y) ∧
    (∀ x, IndexedRegistry.ofFields fs = .error x ↔ ofFields fs = .error x) ∧
    ∀ r, ofFields fs = .ok r → r.fields = fs ∧
      (∀ name f, r.get? name = some f ↔ f ∈ fs ∧ f.name = name) ∧
      (∀ name, r.contains name ↔ name ∈ fs.map Field.name) ∧
      ∃ r', IndexedRegistry.ofFields fs = .ok r' ∧ r'.fields = fs ∧
        ∀ name, r'.get? name = some (r.get? name) ∧ r'.contains name = r.contains name := by
  refine ⟨ofFields_eq_ok_iff, fun x => ofFields_eq_error_iff, ?_⟩
  have hspec := IndexedRegistry.ofFields_spec fs
  revert hspec
  cases hproblem : firstProblem 0 [] fs with
  | some x =>
    intro (hindexed : IndexedRegistry.ofFields fs = .error x)
    rw [ofFields_of_problem hproblem, hindexed]
    exact ⟨fun y => by simp, fun r hr => absurd hr (by simp)⟩
  | none =>
    rintro ⟨places, hindexed, hfinds⟩
    obtain ⟨reg, hreg, rfl⟩ := exists_ofFields hproblem
    rw [hreg, hindexed]
    refine ⟨fun y => by simp, fun r hr => ?_⟩
    obtain rfl := Except.ok.inj hr
    refine ⟨rfl, fun name f => reg.get?_eq_some_iff, fun name => reg.contains_iff, _, rfl, rfl,
      fun name => ⟨hfinds.get?_eq name, ?_⟩⟩
    rw [Bool.eq_iff_iff, reg.contains_iff]
    exact hfinds.contains_iff

end Registry

end FilterQuery
