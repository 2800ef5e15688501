import FilterQuery.Proofs.Cut

/-!
# The edit between two texts

* `Text.prefix_commonStart`    the common beginning of two texts is the longest one;
* `Difference old new`         two texts divided into what they have in common, at the start and then at
  the end, each as long as it can be, and what they have not;
* `Difference.smallest`        no edit that turns one text into the other starts behind it, removes less
  or inserts less;
* `Edit.between_eq`            the edit between two texts is that of their difference, so it fits the old
  text and its result is the new one (`Edit.exists_cut_of_between`);
* `Edit.between_eq_none_iff`   there is none exactly between equal texts.
-/

namespace FilterQuery
open Text

/-! ## common beginnings -/

theorem Text.prefix_commonStart {a s t : Text} (hs : a <+: s) (ht : a <+: t) :
    a <+: commonStart s t := by
  induction a generalizing s t with
  | nil => exact List.nil_prefix
  | cons c a ih =>
    obtain ⟨x, rfl⟩ := hs
    obtain ⟨y, rfl⟩ := ht
    show c :: a <+: commonStart (c :: (a ++ x)) (c :: (a ++ y))
    rw [commonStart, if_pos rfl]
    exact List.cons_prefix_cons.mpr ⟨rfl, ih (List.prefix_append a x) (List.prefix_append a y)⟩

/-- a text without a beginning of its reverse is cut off at the end -/
theorem Text.take_append_reverse {s c : Text} (h : c <+: s.reverse) :
    s.take (s.length - c.length) ++ c.reverse = s := by
  obtain ⟨x, hx⟩ := h
  have hs : s = x.reverse ++ c.reverse := by
    rw [← List.reverse_append, hx, List.reverse_reverse]
  have hlen : s.length - c.length = x.reverse.length := by
    rw [hs, List.length_append, List.length_reverse, List.length_reverse]
    omega
  rw [hlen, hs, List.take_left]

theorem Text.append_drop_of_start {s c : Text} (h : c <+: s) : c ++ s.drop c.length = s :=
  List.prefix_iff_eq_append.mp h

theorem Text.eq_nil_of_append_suffix {s t : Text} (h : s ++ t <:+ t) : s = [] := by
  have hle := h.length_le
  rw [List.length_append] at hle
  exact List.eq_nil_of_length_eq_zero (by omega)

theorem Text.byteLength_le_of_sublist {s t : Text} (h : List.Sublist s t) :
    byteLength s ≤ byteLength t := by
  induction h with
  | slnil => exact Nat.le_refl _
  | cons c _ ih => exact Nat.le_trans ih (Nat.le_add_left _ _)
  | cons_cons c _ ih => exact Nat.add_le_add_left ih _

/-! ## differences -/

/-- **What two texts have in common and what they have not.** -/
structure Difference (old new : Text) where
  front : Text
  removed : Text
  inserted : Text
  back : Text
  old_eq : old = front ++ (removed ++ back)
  new_eq : new = front ++ (inserted ++ back)
  front_max : ∀ a, a <+: old → a <+: new → a <+: front
  back_max : ∀ a, a <:+ removed ++ back → a <:+ inserted ++ back → a <:+ back

namespace Difference
variable {old new : Text} (d : Difference old new)

/-- what follows a common front, with the longest common end taken off -/
def ofRests (front before after : Text) (hold : front ++ before = old) (hnew : front ++ after = new)
    (hmax : ∀ a, a <+: old → a <+: new → a <+: front) : Difference old new where
  front := front
  removed := before.take (before.length - (commonStart before.reverse after.reverse).length)
  inserted := after.take (after.length - (commonStart before.reverse after.reverse).length)
  back := (commonStart before.reverse after.reverse).reverse
  old_eq := by rw [take_append_reverse (commonStart_left ..), hold]
  new_eq := by rw [take_append_reverse (commonStart_right ..), hnew]
  front_max := hmax
  back_max a ha ha' := by
    rw [take_append_reverse (commonStart_left ..)] at ha
    rw [take_append_reverse (commonStart_right ..)] at ha'
    rw [← List.reverse_prefix, List.reverse_reverse]
    exact prefix_commonStart (List.reverse_prefix.mpr ha) (List.reverse_prefix.mpr ha')

def of (old new : Text) : Difference old new :=
  ofRests (old.commonStart new) (old.drop (old.commonStart new).length)
    (new.drop (old.commonStart new).length) (append_drop_of_start (commonStart_left ..))
    (append_drop_of_start (commonStart_right ..)) (fun _ ha ha' => prefix_commonStart ha ha')

def edit : Edit := ⟨⟨byteLength d.front, byteLength d.front + byteLength d.removed⟩, d.inserted⟩

def cut : d.edit.Cut old where
  front := d.front
  removed := d.removed
  back := d.back
  text_eq := by rw [List.append_assoc, ← d.old_eq]
  start_eq := rfl
  stop_eq := byteLength_append ..

theorem result_cut : d.cut.result = new := by
  show d.front ++ d.inserted ++ d.back = new
  rw [List.append_assoc, ← d.new_eq]

/-! ## no smaller edit -/

theorem removed_eq_nil (h : d.removed ++ d.back <:+ d.inserted ++ d.back) : d.removed = [] :=
  eq_nil_of_append_suffix (d.back_max _ List.suffix_rfl h)

theorem inserted_eq_nil (h : d.inserted ++ d.back <:+ d.removed ++ d.back) : d.inserted = [] :=
  eq_nil_of_append_suffix (d.back_max _ h List.suffix_rfl)

/-- **A common end reaches over the back only if there is nothing to remove or nothing to insert**:
then it goes on into the common front. -/
theorem suffix_back {b : Text} (hold : b <:+ old) (hnew : b <:+ new) :
    b <:+ d.back ∨ d.removed = [] ∨ d.inserted = [] := by
  have hbefore : d.removed ++ d.back <:+ old := ⟨d.front, d.old_eq.symm⟩
  have hafter : d.inserted ++ d.back <:+ new := ⟨d.front, d.new_eq.symm⟩
  rcases List.suffix_or_suffix_of_suffix hold hbefore with hb | hb
  · rcases List.suffix_or_suffix_of_suffix hnew hafter with ha | ha
    · exact .inl (d.back_max b hb ha)
    · exact .inr (.inr (d.inserted_eq_nil (ha.trans hb)))
  · rcases List.suffix_or_suffix_of_suffix (hb.trans hnew) hafter with ha | ha
    · exact .inr (.inl (d.removed_eq_nil ha))
    · exact .inr (.inr (d.inserted_eq_nil ha))

/-- **No edit from one text to the other is smaller.** -/
theorem smallest {e : Edit} (k : e.Cut old) (hk : k.result = new) :
    d.edit.range.length ≤ e.range.length ∧
      d.edit.replacement.byteLength ≤ e.replacement.byteLength ∧
      e.range.start ≤ d.edit.range.start := by
  have hresult : new = k.front ++ (e.replacement ++ k.back) := by
    rw [← hk, Edit.Cut.result, List.append_assoc]
  have htext : old = k.front ++ (k.removed ++ k.back) := by
    rw [← List.append_assoc]
    exact k.text_eq
  have hfront : byteLength k.front ≤ byteLength d.front :=
    byteLength_le_of_sublist
      (d.front_max _ ⟨_, htext.symm⟩ ⟨_, hresult.symm⟩).sublist
  have hback := d.suffix_back (b := k.back)
    ⟨k.front ++ k.removed, by rw [List.append_assoc, ← htext]⟩
    ⟨k.front ++ e.replacement, by rw [List.append_assoc, ← hresult]⟩
  -- both edits leave the same sums of lengths
  have hold := congrArg byteLength (d.old_eq.symm.trans htext)
  have hnew := congrArg byteLength (d.new_eq.symm.trans hresult)
  simp only [byteLength_append] at hold hnew
  have hlength : e.range.length = byteLength k.removed := by
    show e.range.stop - e.range.start = _
    rw [← k.start_eq, ← k.stop_eq, byteLength_append]
    omega
  have hremoved : d.edit.range.length = byteLength d.removed := Nat.add_sub_cancel_left ..
  have hinserted : d.edit.replacement.byteLength = byteLength d.inserted := rfl
  have hstart : d.edit.range.start = byteLength d.front := rfl
  rw [hlength, hremoved, hinserted, hstart, ← k.start_eq]
  refine ⟨?_, ?_, hfront⟩
  all_goals
    rcases hback with hb | h0 | h0
    · have hb := byteLength_le_of_sublist hb.sublist
      omega
    · have hnone := byteLength_eq_zero.mpr h0
      omega
    · have hnone := byteLength_eq_zero.mpr h0
      omega

end Difference

/-! ## the edit -/

namespace Edit

theorem between_eq_none_iff {old new : Text} : between old new = none ↔ old = new := by
  unfold between
  by_cases h : old = new
  · rw [if_pos h]
    exact ⟨fun _ => h, fun _ => rfl⟩
  · rw [if_neg h]
    exact ⟨fun h0 => absurd h0 (by simp), fun h0 => absurd h0 h⟩

theorem between_eq {old new : Text} (h : old ≠ new) :
    between old new = some (Difference.of old new).edit := by
  unfold between
  rw [if_neg h]
  rfl

/-- **The edit between two texts turns one into the other.** -/
theorem exists_cut_of_between {old new : Text} {e : Edit} (h : between old new = some e) :
    ∃ k : e.Cut old, k.result = new := by
  have hne : old ≠ new := fun h0 => by
    rw [between_eq_none_iff.mpr h0] at h
    exact absurd h (by simp)
  rw [between_eq hne] at h
  obtain rfl := Option.some.inj h
  exact ⟨(Difference.of old new).cut, (Difference.of old new).result_cut⟩

end Edit

end FilterQuery
