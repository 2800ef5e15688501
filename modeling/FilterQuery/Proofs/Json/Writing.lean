import FilterQuery.Json.Writer
import FilterQuery.Proofs.Json.Spelled
import Mathlib.Tactic.IntervalCases

/-!
# What is written is spelled

* `wholeDigits_decimal`    a number has no zero in front;
* `spelledChar_escape`     every character is spelled by its escape, whatever it is;
* `spelled_compact`        a value is spelled by its compact form;
* `spelled_pretty`         and by its form with one item on a line, at any depth.
-/

namespace FilterQuery.Json

/-! ## numbers -/

theorem head?_toDigits_ne {n : Nat} (h : 0 < n) : (Nat.toDigits 10 n).head? ≠ some '0' := by
  induction n using Nat.strongRecOn with
  | ind n ih =>
    by_cases hn : n < 10
    · rw [Nat.toDigits_of_lt_base hn]
      interval_cases n <;> decide
    · have hle : 10 ≤ n := Nat.le_of_not_lt hn
      have hlt : n / 10 < n := Nat.div_lt_self h (by decide)
      obtain ⟨d, ds, hds⟩ := List.exists_cons_of_ne_nil (Nat.toDigits_ne_nil (n := n / 10) (b := 10))
      have hd := ih (n / 10) hlt (Nat.div_pos hle (by decide))
      rw [Nat.toDigits_of_base_le (by decide) hle]
      rw [hds] at hd ⊢
      exact hd

theorem digits_decimal (n : Nat) : Digits (Text.decimal n) :=
  ⟨Nat.toDigits_ne_nil, fun _ hc => Nat.isDigit_of_mem_toDigits (by decide) (by decide) hc⟩

theorem wholeDigits_decimal (n : Nat) : WholeDigits (Text.decimal n) := by
  refine ⟨digits_decimal n, fun hzero => ?_⟩
  cases n with
  | zero => rfl
  | succ n => exact absurd hzero (head?_toDigits_ne (Nat.succ_pos n))

theorem spelledPower_natAbs (k : Int) :
    SpelledPower k (if k < 0 then 'e' :: '-' :: Text.decimal k.natAbs
      else 'e' :: Text.decimal k.natAbs) := by
  have hdigits := digits_decimal k.natAbs
  by_cases hneg : k < 0
  · have hk : k = -(digitsValue (Text.decimal k.natAbs) : Int) := by
      rw [digitsValue_decimal]
      omega
    rw [if_pos hneg]
    conv => enter [1]; rw [hk]
    exact .minus (.inl rfl) hdigits
  · have hk : k = (digitsValue (Text.decimal k.natAbs) : Int) := by
      rw [digitsValue_decimal]
      omega
    rw [if_neg hneg]
    conv => enter [1]; rw [hk]
    exact .plain (.inl rfl) hdigits

theorem Number.spelled_write (n : Number) : n.Spelled n.write := by
  obtain ⟨negative, significand, exponent⟩ := n
  have hwhole := wholeDigits_decimal significand
  have hvalue : digitsValue (Text.decimal significand ++ []) = significand := by
    rw [List.append_nil, digitsValue_decimal]
  have hpower : SpelledPower exponent (if exponent = 0 then []
      else if exponent < 0 then 'e' :: '-' :: Text.decimal exponent.natAbs
      else 'e' :: Text.decimal exponent.natAbs) := by
    by_cases h0 : exponent = 0
    · rw [if_pos h0, h0]
      exact .absent
    · rw [if_neg h0]
      exact spelledPower_natAbs exponent
  have h := Number.Spelled.intro negative hwhole .absent hpower
  rw [hvalue, List.length_nil, Int.natCast_zero, Int.sub_zero, List.nil_append,
    ← List.append_assoc] at h
  exact h

/-! ## strings -/

theorem hexDigit_digitChar {n : Nat} (h : n < 16) : HexDigit (hexDigit n) n := by
  interval_cases n <;> exact .inl rfl

/-- **A character is spelled by its escape.** -/
theorem spelledChar_escape (c : Char) : SpelledChar c (escape c) := by
  unfold escape
  split
  · next h => subst h; exact .short (by decide)
  next hquote =>
  split
  · next h => subst h; exact .short (by decide)
  next hslash =>
  split
  · next h => subst h; exact .short (by decide)
  split
  · next h => subst h; exact .short (by decide)
  split
  · next h => subst h; exact .short (by decide)
  split
  · next h => subst h; exact .short (by decide)
  split
  · next h => subst h; exact .short (by decide)
  split
  · next hcontrol =>
    -- a control character has two digits
    have hc : c.toNat < 32 := hcontrol
    have hcode : SpelledCode (((0 * 16 + 0) * 16 + c.toNat / 16) * 16 + c.toNat % 16)
        ['0', '0', hexDigit (c.toNat / 16), hexDigit (c.toNat % 16)] :=
      .intro (.inl rfl) (.inl rfl) (hexDigit_digitChar (by omega)) (hexDigit_digitChar (by omega))
    have hn : ((0 * 16 + 0) * 16 + c.toNat / 16) * 16 + c.toNat % 16 = c.toNat := by omega
    rw [hn] at hcode
    exact .code hcode
  · next hcontrol => exact .plain hquote hslash hcontrol

theorem spelledText_escape (s : Text) : SpelledText s (s.flatMap escape) := by
  induction s with
  | nil => exact .nil
  | cons c s ih => exact .cons (spelledChar_escape c) ih

theorem spelledMember_quoted {P : Json → Text → Prop} (k : Text) {v : Json} {s b : Text}
    (hb : Blank b) (h : P v s) : SpelledMember P (k, v) (quoted k ++ ':' :: (b ++ s)) := by
  have hm := SpelledMember.intro [] b (spelledText_escape k) (fun _ hc => absurd hc (by simp)) hb h
  have htext : quoted k ++ ':' :: (b ++ s)
      = '"' :: (k.flatMap escape ++ '"' :: ([] ++ ':' :: (b ++ s))) := by
    simp [quoted]
  rw [htext]
  exact hm

theorem blank_nil : Blank [] := fun _ hc => absurd hc List.not_mem_nil

/-! ## without blanks -/

section
variable {α : Type} {P : α → Text → Prop} {a : α} {as : List α} {s t : Text}

theorem Listed.single (h : P a s) : Listed P [a] s := by
  have hl := Listed.one [] [] blank_nil h blank_nil
  rwa [List.nil_append, List.append_nil] at hl

theorem Listed.cons (h : P a s) (ht : Listed P as t) : Listed P (a :: as) (s ++ ',' :: t) :=
  .more [] [] blank_nil h blank_nil ht

theorem Listed.in_front {b : Text} (hb : Blank b) (h : P a s) : Listed P [a] (b ++ s) := by
  have hl := Listed.one b [] hb h blank_nil
  rwa [List.append_nil] at hl

theorem Listed.cons_in_front {b : Text} (hb : Blank b) (h : P a s) (ht : Listed P as t) :
    Listed P (a :: as) (b ++ s ++ ',' :: t) := by
  have hl := Listed.more b [] hb h blank_nil ht
  rwa [List.nil_append, ← List.append_assoc] at hl

theorem Listed.append_blank {b : Text} (hb : Blank b) (h : Listed P as s) : Listed P as (s ++ b) := by
  induction h with
  | one front back hfront h hback =>
    have hl := Listed.one front (back ++ b) hfront h (List.forall_mem_append.mpr ⟨hback, hb⟩)
    simpa only [List.append_assoc] using hl
  | more front back hfront h hback ht ih =>
    have hl := Listed.more front back hfront h hback ih
    simpa only [List.append_assoc, List.cons_append] using hl

end

theorem listed_compactItems {items : List Json} (h : ∀ v ∈ items, Spelled v v.compact)
    (hne : items ≠ []) : Listed Spelled items (compactItems items) := by
  induction items with
  | nil => exact absurd rfl hne
  | cons v vs ih =>
    have hv := h v List.mem_cons_self
    cases vs with
    | nil => exact .single hv
    | cons w ws => exact .cons hv (ih (fun u hu => h u (List.mem_cons_of_mem v hu)) (by simp))

theorem listed_compactMembers {members : Members} (h : ∀ m ∈ members, Spelled m.2 m.2.compact)
    (hne : members ≠ []) : Listed (SpelledMember Spelled) members (compactMembers members) := by
  induction members with
  | nil => exact absurd rfl hne
  | cons m ms ih =>
    obtain ⟨k, v⟩ := m
    have hv := spelledMember_quoted k blank_nil (h (k, v) List.mem_cons_self)
    cases ms with
    | nil => exact .single hv
    | cons m ms =>
      have hl := Listed.cons hv (ih (fun u hu => h u (List.mem_cons_of_mem _ hu)) (by simp))
      exact hl

/-- **A value is spelled by its compact form.** -/
theorem spelled_compact (v : Json) : Spelled v v.compact := by
  induction v using Json.induction with
  | null => exact .null
  | bool b => exact .bool b
  | num n => exact .num n.spelled_write
  | str s => exact .str (spelledText_escape s)
  | arr items ih =>
    by_cases hne : items = []
    · subst hne
      exact .emptyArr blank_nil
    · exact .arr (listed_compactItems ih hne)
  | obj members ih =>
    by_cases hne : members = []
    · subst hne
      exact .emptyObj blank_nil
    · exact .obj (listed_compactMembers ih hne)

/-! ## one item a line -/

theorem blank_newline (depth : Nat) : Blank (newline depth) := by
  intro c hc
  rcases List.mem_cons.mp hc with rfl | hc
  · rfl
  · rw [List.eq_of_mem_replicate hc]
    rfl

theorem listed_prettyItems {depth : Nat} {items : List Json}
    (h : ∀ v ∈ items, Spelled v (v.pretty depth)) (hne : items ≠ []) :
    Listed Spelled items (prettyItems depth items) := by
  induction items with
  | nil => exact absurd rfl hne
  | cons v vs ih =>
    have hv := h v List.mem_cons_self
    cases vs with
    | nil => exact .in_front (blank_newline depth) hv
    | cons w ws =>
      exact .cons_in_front (blank_newline depth) hv
        (ih (fun u hu => h u (List.mem_cons_of_mem v hu)) (by simp))

theorem listed_prettyMembers {depth : Nat} {members : Members}
    (h : ∀ m ∈ members, Spelled m.2 (m.2.pretty depth)) (hne : members ≠ []) :
    Listed (SpelledMember Spelled) members (prettyMembers depth members) := by
  induction members with
  | nil => exact absurd rfl hne
  | cons m ms ih =>
    obtain ⟨k, v⟩ := m
    have hspace : Blank [' '] := by decide
    have hv := spelledMember_quoted k hspace (h (k, v) List.mem_cons_self)
    cases ms with
    | nil =>
      have hl := Listed.in_front (blank_newline depth) hv
      rw [← List.append_assoc] at hl
      exact hl
    | cons m ms =>
      have hl := Listed.cons_in_front (blank_newline depth) hv
        (ih (fun u hu => h u (List.mem_cons_of_mem _ hu)) (by simp))
      rw [← List.append_assoc (newline depth)] at hl
      exact hl

theorem prettyItems_ne_nil (depth : Nat) {items : List Json} (h : items ≠ []) :
    prettyItems depth items ≠ [] := by
  cases items with
  | nil => exact absurd rfl h
  | cons v vs => cases vs <;> exact List.cons_ne_nil _ _

theorem prettyMembers_ne_nil (depth : Nat) {members : Members} (h : members ≠ []) :
    prettyMembers depth members ≠ [] := by
  cases members with
  | nil => exact absurd rfl h
  | cons m ms => cases ms <;> exact List.cons_ne_nil _ _

theorem block_eq {depth : Nat} {opening closing : Char} {inside : Text} (h : inside ≠ []) :
    block depth opening closing inside = opening :: (inside ++ newline depth ++ [closing]) := by
  unfold block
  rw [if_neg h]
  rfl

/-- **A value is spelled by its form with one item on a line.** -/
theorem spelled_pretty (depth : Nat) (v : Json) : Spelled v (v.pretty depth) := by
  induction v using Json.induction generalizing depth with
  | null => exact .null
  | bool b => exact .bool b
  | num n => exact .num n.spelled_write
  | str s => exact .str (spelledText_escape s)
  | arr items ih =>
    by_cases hne : items = []
    · subst hne
      exact .emptyArr blank_nil
    · have hl : Listed Spelled items (prettyItems (depth + 1) items) :=
        listed_prettyItems (fun v hv => ih v hv _) hne
      rw [pretty, block_eq (prettyItems_ne_nil _ hne)]
      exact .arr (hl.append_blank (blank_newline depth))
  | obj members ih =>
    by_cases hne : members = []
    · subst hne
      exact .emptyObj blank_nil
    · have hl : Listed (SpelledMember Spelled) members (prettyMembers (depth + 1) members) :=
        listed_prettyMembers (fun m hm => ih m hm _) hne
      rw [pretty, block_eq (prettyMembers_ne_nil _ hne)]
      exact .obj (hl.append_blank (blank_newline depth))

end FilterQuery.Json
