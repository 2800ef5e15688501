import FilterQuery.Trimming
import FilterQuery.Proofs.Checked
import FilterQuery.Proofs.Difference

/-!
# Trimming by bytes trims by characters

* `Text.bytes_inj`           texts with the same bytes are the same;
* `le_agreement_iff`         how far two lists of bytes agree;
* `retreat?_eq`              counting down finds the largest number that passes;
* `Difference.trimFront?_eq`, `Difference.trimBack?_eq`   bytes in common, taken back to a boundary of
  both texts, are the characters in common;
* `Edit.trim?_eq`            so trimming byte after byte never fails and gives the edit between the texts;
* `Edit.trim?_smallest`      and that is the smallest edit that turns one text into the other.
-/

namespace FilterQuery
open Text

/-! ## bytes -/

namespace Text

theorem bytes_append (s t : Text) : (s ++ t).bytes = s.bytes ++ t.bytes := List.flatMap_append ..

theorem length_bytes (s : Text) : s.bytes.length = byteLength s := by
  induction s with
  | nil => rfl
  | cons c s ih =>
    show (String.utf8EncodeChar c ++ bytes s).length = _
    rw [List.length_append, String.length_utf8EncodeChar, ih]
    rfl

/-- **A text is known from its bytes.** -/
theorem bytes_inj {s t : Text} (h : s.bytes = t.bytes) : s = t := by
  have hencoded : s.utf8Encode = t.utf8Encode := congrArg List.toByteArray h
  rw [← String.toByteArray_ofList, ← String.toByteArray_ofList, String.toByteArray_inj] at hencoded
  exact String.ofList_injective hencoded

end Text

/-! ## agreement -/

theorem agreement_of_prefix {cs as bs : List UInt8} (ha : cs <+: as) (hb : cs <+: bs) :
    cs.length ≤ agreement as bs := by
  induction cs generalizing as bs with
  | nil => exact Nat.zero_le _
  | cons c cs ih =>
    obtain ⟨as, rfl⟩ := ha
    obtain ⟨bs, rfl⟩ := hb
    rw [List.cons_append, List.cons_append, agreement_cons_self]
    exact Nat.succ_le_succ (ih (List.prefix_append cs as) (List.prefix_append cs bs))

/-- **Two lists agree as far as they have a beginning in common.** -/
theorem le_agreement_iff {as bs : List UInt8} {n : Nat} :
    n ≤ agreement as bs ↔ ∃ cs, cs.length = n ∧ cs <+: as ∧ cs <+: bs := by
  constructor
  · intro h
    induction n generalizing as bs with
    | zero => exact ⟨[], rfl, List.nil_prefix, List.nil_prefix⟩
    | succ n ih =>
      cases as with
      | nil => exact absurd h (Nat.not_succ_le_zero n)
      | cons a as =>
        cases bs with
        | nil => exact absurd h (Nat.not_succ_le_zero n)
        | cons b bs =>
          by_cases hab : a = b
          · subst hab
            rw [agreement_cons_self] at h
            obtain ⟨cs, rfl, hcs, hcs'⟩ := ih (Nat.le_of_succ_le_succ h)
            exact ⟨a :: cs, rfl, List.cons_prefix_cons.mpr ⟨rfl, hcs⟩,
              List.cons_prefix_cons.mpr ⟨rfl, hcs'⟩⟩
          · rw [agreement_cons_of_ne hab] at h
            exact absurd h (Nat.not_succ_le_zero n)
  · rintro ⟨cs, rfl, ha, hb⟩
    exact agreement_of_prefix ha hb

theorem eq_of_prefix_append {cs as bs : List UInt8} (h : cs <+: as ++ bs)
    (hl : cs.length = as.length) : cs = as := by
  rw [List.prefix_iff_eq_take.mp h, hl, List.take_left]

theorem Text.eq_of_agreement_front {a b x y : Text} (hl : byteLength a = byteLength b)
    (h : byteLength a ≤ agreement (a ++ x).bytes (b ++ y).bytes) : a = b := by
  obtain ⟨cs, hcs, ha, hb⟩ := le_agreement_iff.mp h
  rw [bytes_append] at ha hb
  have ha := eq_of_prefix_append ha (by rw [hcs, length_bytes])
  have hb := eq_of_prefix_append hb (by rw [hcs, length_bytes, hl])
  exact bytes_inj (ha.symm.trans hb)

theorem Text.eq_of_agreement_back {a b x y : Text} (hl : byteLength a = byteLength b)
    (h : byteLength a ≤ agreement (x ++ a).bytes.reverse (y ++ b).bytes.reverse) : a = b := by
  obtain ⟨cs, hcs, ha, hb⟩ := le_agreement_iff.mp h
  rw [bytes_append, List.reverse_append] at ha hb
  have ha := eq_of_prefix_append ha (by rw [hcs, List.length_reverse, length_bytes])
  have hb := eq_of_prefix_append hb (by rw [hcs, List.length_reverse, length_bytes, hl])
  exact bytes_inj (List.reverse_inj.mp (ha.symm.trans hb))

theorem Text.le_byteLength_of_agreement {s t : Text} {n : Nat}
    (h : n ≤ agreement s.bytes.reverse t.bytes.reverse) : n ≤ byteLength s ∧ n ≤ byteLength t := by
  obtain ⟨cs, rfl, hs, ht⟩ := le_agreement_iff.mp h
  have hs := hs.length_le
  have ht := ht.length_le
  rw [List.length_reverse, length_bytes] at hs ht
  exact ⟨hs, ht⟩

/-! ## counting down -/

theorem minus?_eq {n m d : Nat} (h : n = m + d) : minus? n m = some d := by
  unfold minus?
  rw [if_pos (by omega), h, Nat.add_sub_cancel_left]

/-- **Counting down finds the largest number that passes**, if all above it can be tested. -/
theorem retreat?_eq {p : Nat → Option Bool} {m n : Nat} (hm : m ≤ n) (hp : p m = some true)
    (habove : ∀ k, m < k → k ≤ n → p k = some false) : retreat? p n = some m := by
  induction n with
  | zero =>
    obtain rfl : m = 0 := Nat.le_zero.mp hm
    rw [retreat?, hp]
    rfl
  | succ n ih =>
    rcases Nat.eq_or_lt_of_le hm with rfl | hlt
    · rw [retreat?, hp]
      rfl
    · rw [retreat?, habove (n + 1) hlt (Nat.le_refl _)]
      exact ih (Nat.le_of_lt_succ hlt) (fun k hk hkn => habove k hk (Nat.le_succ_of_le hkn))

/-! ## offsets from the end -/

namespace Text

theorem endsAfter?_append (a b : Text) : (a ++ b).endsAfter? (byteLength b) = some true := by
  unfold endsAfter?
  rw [minus?_eq (d := byteLength a) (by rw [byteLength_append, Nat.add_comm]), Option.map_some,
    decide_eq_true (isBoundary_append a b)]

theorem endsAfter?_isSome {s : Text} {n : Nat} (h : n ≤ byteLength s) :
    ∃ b, s.endsAfter? n = some b := by
  unfold endsAfter?
  rw [minus?_eq (Nat.add_sub_cancel' h).symm]
  exact ⟨_, rfl⟩

theorem endsAfter?_eq_true {s : Text} {n : Nat} (h : s.endsAfter? n = some true) :
    ∃ a b, s = a ++ b ∧ byteLength b = n := by
  unfold endsAfter? minus? at h
  split at h
  · next hle =>
    rw [Option.map_some, Option.some.injEq, decide_eq_true_eq] at h
    obtain ⟨a, b, rfl, ha⟩ := (isBoundary_iff ..).mp h
    refine ⟨a, b, rfl, ?_⟩
    rw [byteLength_append] at ha hle
    omega
  · exact absurd h (by simp)

end Text

/-! ## what two texts have in common -/

namespace Difference
variable {old new : Text} (d : Difference old new)

theorem trimFront?_eq : Edit.trimFront? old new = some (byteLength d.front) := by
  refine retreat?_eq ?_ ?_ (fun n hlt hn => ?_)
  · rw [← length_bytes]
    refine agreement_of_prefix ?_ ?_
    · exact ⟨(d.removed ++ d.back).bytes, by rw [← bytes_append, ← d.old_eq]⟩
    · exact ⟨(d.inserted ++ d.back).bytes, by rw [← bytes_append, ← d.new_eq]⟩
  · have hold := isBoundary_append d.front (d.removed ++ d.back)
    have hnew := isBoundary_append d.front (d.inserted ++ d.back)
    rw [← d.old_eq] at hold
    rw [← d.new_eq] at hnew
    simp [hold, hnew]
  · -- a boundary of both further on would end a longer common beginning
    refine congrArg some (Bool.eq_false_iff.mpr (fun h => ?_))
    simp only [Bool.and_eq_true, decide_eq_true_eq] at h
    obtain ⟨a, x, hold, rfl⟩ := (isBoundary_iff ..).mp h.1
    obtain ⟨b, y, hnew, hb⟩ := (isBoundary_iff ..).mp h.2
    rw [hold, hnew] at hn
    obtain rfl := eq_of_agreement_front hb.symm hn
    have hle := byteLength_le_of_sublist (d.front_max a ⟨x, hold.symm⟩ ⟨y, hnew.symm⟩).sublist
    omega

theorem trimBack?_eq :
    Edit.trimBack? (d.removed ++ d.back) (d.inserted ++ d.back) = some (byteLength d.back) := by
  refine retreat?_eq ?_ ?_ (fun n hlt hn => ?_)
  · rw [← length_bytes, ← List.length_reverse]
    refine agreement_of_prefix ?_ ?_
    · rw [bytes_append, List.reverse_append]
      exact List.prefix_append _ _
    · rw [bytes_append, List.reverse_append]
      exact List.prefix_append _ _
  · rw [endsAfter?_append]
    exact endsAfter?_append d.inserted d.back
  · obtain ⟨b, hb⟩ := endsAfter?_isSome (le_byteLength_of_agreement hn).1
    obtain ⟨c, hc⟩ := endsAfter?_isSome (le_byteLength_of_agreement hn).2
    -- a boundary of both further in front would begin a longer common end
    have hfalse : (b && c) = false := Bool.eq_false_iff.mpr (fun h => by
      rw [Bool.and_eq_true] at h
      obtain ⟨x, u, hu, rfl⟩ := endsAfter?_eq_true (h.1 ▸ hb)
      obtain ⟨y, v, hv, hlen⟩ := endsAfter?_eq_true (h.2 ▸ hc)
      rw [hu, hv] at hn
      obtain rfl := eq_of_agreement_back hlen.symm hn
      have hle := byteLength_le_of_sublist (d.back_max u ⟨x, hu.symm⟩ ⟨y, hv.symm⟩).sublist
      omega)
    rw [hb]
    cases b with
    | false => rfl
    | true => exact hc.trans (congrArg some hfalse)

/-- bytes trimmed off both texts leave what they do not have in common -/
theorem trim?_eq (h : old ≠ new) : Edit.trim? old new = some (some d.edit) := by
  have hold := from?_append d.front (d.removed ++ d.back)
  have hnew := from?_append d.front (d.inserted ++ d.back)
  have hpart := part?_append [] d.inserted d.back
  have hlength := congrArg byteLength d.old_eq
  rw [byteLength_append, byteLength_append] at hlength
  have hstop : minus? (byteLength old) (byteLength d.back) =
      some (byteLength d.front + byteLength d.removed) :=
    minus?_eq (by omega)
  have hend : minus? (byteLength (d.inserted ++ d.back)) (byteLength d.back) =
      some (byteLength d.inserted) :=
    minus?_eq (by rw [byteLength_append]; omega)
  rw [← d.old_eq] at hold
  rw [← d.new_eq] at hnew
  rw [List.nil_append, List.nil_append, byteLength_nil] at hpart
  unfold Edit.trim?
  simp only [if_neg h, d.trimFront?_eq, hold, hnew, d.trimBack?_eq, hstop, hend, hpart,
    Option.bind_eq_bind, Option.bind_some]
  rfl

end Difference

/-! ## the edit -/

namespace Edit

/-- **Trimming byte after byte never fails, and it gives the edit between the texts.** -/
theorem trim?_eq (old new : Text) : trim? old new = some (between old new) := by
  by_cases h : old = new
  · rw [trim?, if_pos h, between_eq_none_iff.mpr h]
  · rw [(Difference.of old new).trim?_eq h, between_eq h]

/-- An edit that turns one text into another and is as small as it can be: no other one removes or
inserts fewer bytes, or starts further behind. -/
structure Smallest (e : Edit) (old new : Text) : Prop where
  check_eq : e.check old = .ok ()
  apply_eq : e.apply old = new
  /-- what is inserted is cut out of the new text between characters -/
  part : new.part? ⟨e.range.start, e.stop⟩ = some e.replacement
  least : ∀ e' : Edit, e'.check old = .ok () → e'.apply old = new →
    e.range.length ≤ e'.range.length ∧
      e.replacement.byteLength ≤ e'.replacement.byteLength ∧
      e'.range.start ≤ e.range.start

end Edit

theorem Difference.edit_smallest {old new : Text} (d : Difference old new) :
    d.edit.Smallest old new where
  check_eq := d.cut.check_eq_ok
  apply_eq := d.cut.apply_eq.trans d.result_cut
  part := by
    have h := part?_append d.front d.inserted d.back
    rw [← d.new_eq, byteLength_append] at h
    exact h
  least e' hcheck happly := by
    obtain ⟨k⟩ := Edit.check_eq_ok_iff.mp hcheck
    exact d.smallest k (k.apply_eq.symm.trans happly)

/-- **The edit between two texts**: trimming gives one exactly if they differ, and the smallest. -/
theorem Edit.trim?_smallest (old new : Text) :
    ∃ r, trim? old new = some r ∧ between old new = r ∧ (r = none ↔ old = new) ∧
      ∀ e, r = some e → e.Smallest old new := by
  refine ⟨between old new, trim?_eq old new, rfl, between_eq_none_iff, fun e he => ?_⟩
  have hne : old ≠ new := fun h => by
    rw [between_eq_none_iff.mpr h] at he
    exact absurd he (by simp)
  rw [between_eq hne] at he
  obtain rfl := Option.some.inj he
  exact (Difference.of old new).edit_smallest

/-- first bytes in common are given back, as are last ones -/
example : Edit.trim? "a=é".toList "a=è".toList = some (some ⟨⟨2, 4⟩, "è".toList⟩) ∧
    Edit.trim? "ä!".toList "¤!".toList = some (some ⟨⟨0, 2⟩, "¤".toList⟩) := by
  decide +kernel

end FilterQuery
