import FilterQuery.Edit

/-!
# The three parts of an edited text

An edit that fits a text divides it into what stands in front of the range, what is removed and
what stands behind it.

* `Text.append_inj_of_byteLength`, `Text.exists_of_append_eq_append`   two ways to divide one text;
* `Edit.Cut e s`             the three parts of `s`;
* `Edit.check_eq_ok_iff`     an edit passes its check exactly if there is such a cut;
* `Edit.Cut.apply_eq`        the text after the edit, from the parts.
-/

namespace FilterQuery

/-! ## two divisions of one text -/

namespace Text

theorem append_inj_of_byteLength {a b c d : Text} (h : a ++ b = c ++ d)
    (hl : byteLength a = byteLength c) : a = c ∧ b = d := by
  have ha := takeBytes_byteLength_append a b
  have hb := dropBytes_byteLength_append a b
  rw [h, hl, takeBytes_byteLength_append] at ha
  rw [h, hl, dropBytes_byteLength_append] at hb
  exact ⟨ha.symm, hb.symm⟩

/-- the shorter front is a beginning of the longer one -/
theorem exists_of_append_eq_append {a b c d : Text} (h : a ++ b = c ++ d)
    (hl : byteLength a ≤ byteLength c) : ∃ m, c = a ++ m ∧ b = m ++ d := by
  rcases List.append_eq_append_iff.mp h with ⟨m, hc, hb⟩ | ⟨m, ha, hd⟩
  · exact ⟨m, hc, hb⟩
  · have hm : m = [] := by
      rw [← byteLength_eq_zero]
      rw [ha, byteLength_append] at hl
      omega
    subst hm
    exact ⟨[], by simpa using ha.symm, by simpa using hd.symm⟩

theorem byteLength_pos {s : Text} (h : s ≠ []) : 0 < byteLength s :=
  Nat.pos_of_ne_zero (fun h0 => h (byteLength_eq_zero.mp h0))

end Text

/-! ## cuts -/

namespace Edit

/-- **The parts of a text that an edit fits.** -/
structure Cut (e : Edit) (s : Text) where
  front : Text
  removed : Text
  back : Text
  text_eq : s = front ++ removed ++ back
  start_eq : front.byteLength = e.range.start
  stop_eq : (front ++ removed).byteLength = e.range.stop

namespace Cut
variable {e : Edit} {s : Text} (k : e.Cut s)

/-- the text after the edit -/
def result : Text := k.front ++ e.replacement ++ k.back

theorem apply_eq : e.apply s = k.result := by
  obtain ⟨a, r, b, rfl, hs, ht⟩ := k
  show (a ++ r ++ b).takeBytes e.range.start ++ e.replacement
    ++ (a ++ r ++ b).dropBytes e.range.stop = a ++ e.replacement ++ b
  rw [← ht, Text.dropBytes_byteLength_append, ← hs, List.append_assoc a r b,
    Text.takeBytes_byteLength_append]

theorem delta_eq : e.delta = (e.replacement.byteLength : Int) - k.removed.byteLength := by
  have h : e.range.length = k.removed.byteLength := by
    show e.range.stop - e.range.start = _
    rw [← k.start_eq, ← k.stop_eq, Text.byteLength_append]
    omega
  show (e.replacement.byteLength : Int) - (e.range.length : Int) = _
  rw [h]

theorem stop_eq_byteLength : e.stop = (k.front ++ e.replacement).byteLength := by
  rw [Text.byteLength_append, k.start_eq]
  rfl

theorem byteLength_text :
    s.byteLength = k.front.byteLength + k.removed.byteLength + k.back.byteLength := by
  obtain ⟨a, r, b, rfl, _, _⟩ := k
  simp only [Text.byteLength_append]

theorem byteLength_result : (k.result.byteLength : Int) = s.byteLength + e.delta := by
  rw [k.delta_eq, k.byteLength_text]
  unfold result
  simp only [Text.byteLength_append]
  omega

end Cut

/-! ## the check -/

theorem Cut.check_eq_ok {e : Edit} {s : Text} (k : e.Cut s) : e.check s = .ok () := by
  have hlen := k.byteLength_text
  have h1 : s.IsBoundary e.range.start :=
    (Text.isBoundary_iff ..).mpr
      ⟨k.front, k.removed ++ k.back, k.text_eq.trans (List.append_assoc ..), k.start_eq⟩
  have h2 : s.IsBoundary e.range.stop :=
    (Text.isBoundary_iff ..).mpr ⟨k.front ++ k.removed, k.back, k.text_eq, k.stop_eq⟩
  have h3 : ¬ (e.range.stop < e.range.start ∨ s.byteLength < e.range.stop) := by
    rw [← k.start_eq, ← k.stop_eq, Text.byteLength_append]
    omega
  unfold check
  rw [if_neg h3, if_neg (not_not_intro h1), if_neg (not_not_intro h2)]

/-- what passes the check is cut at its two ends -/
def cutOfCheck {e : Edit} {s : Text} (h : e.check s = .ok ()) : e.Cut s where
  front := s.takeBytes e.range.start
  removed := (s.dropBytes e.range.start).takeBytes (e.range.stop - e.range.start)
  back := (s.dropBytes e.range.start).dropBytes (e.range.stop - e.range.start)
  text_eq := by simp [List.append_assoc]
  start_eq := by
    unfold check at h
    split at h
    · simp at h
    split at h
    · simp at h
    · next h1 => exact Decidable.not_not.mp h1
  stop_eq := by
    unfold check at h
    split at h
    · simp at h
    next h0 =>
    split at h
    · simp at h
    next h1 =>
    split at h
    · simp at h
    next h2 =>
    obtain ⟨a, b, hab, ha⟩ := (Text.isBoundary_iff ..).mp (Decidable.not_not.mp h1)
    obtain ⟨c, d, hcd, hc⟩ := (Text.isBoundary_iff ..).mp (Decidable.not_not.mp h2)
    have hle : a.byteLength ≤ c.byteLength := by omega
    obtain ⟨m, hm, hb⟩ := Text.exists_of_append_eq_append (hab.symm.trans hcd) hle
    have h3 : s.takeBytes e.range.start = a := by
      rw [← ha, hab, Text.takeBytes_byteLength_append]
    have h4 : s.dropBytes e.range.start = m ++ d := by
      rw [← ha, hab, Text.dropBytes_byteLength_append, hb]
    have h5 : e.range.stop - e.range.start = m.byteLength := by
      rw [← ha, ← hc, hm, Text.byteLength_append]
      omega
    rw [h3, h4, h5, Text.takeBytes_byteLength_append, ← hm, hc]

/-- **An edit passes the check exactly if the text can be cut for it.** -/
theorem check_eq_ok_iff {e : Edit} {s : Text} : e.check s = .ok () ↔ Nonempty (e.Cut s) :=
  ⟨fun h => ⟨cutOfCheck h⟩, fun ⟨k⟩ => k.check_eq_ok⟩

end Edit

end FilterQuery
