import FilterQuery.Proofs.Checked
import FilterQuery.Proofs.Splicing

/-!
# Reading in place

* `Lexed.pairwise_apart`       each token starts where one in front of it has ended;
* `Lexed.partitionPoint?_eq`   a search by halves finds the tokens in front of an edit;
* `Passed`                 the tokens in front of an index start in front of an offset; the index of
  the next old token only moves on;
* `tailFrom_eq`, `takeover?_eq`   such an index finds the token that looking from the first one finds;
* `readOn?_eq`             so reading in place reads and keeps what `Registry.rescan` does.
-/

namespace FilterQuery
open Text

/-! ## the tokens in front -/

theorem pairwise_apart_lexFrom (n : Nat) (s : Text) : (lexFrom n s).Pairwise
    (fun l m => l.span.stop ≤ m.span.start ∧ m.span.start ≤ m.span.stop) := by
  have hbehind : ∀ (n : Nat) (s : Text), ∀ l ∈ lexFrom n s,
      n ≤ l.span.start ∧ l.span.start ≤ l.span.stop := by
    intro n s l hl
    obtain ⟨ls, ms, hlex⟩ := List.append_of_mem hl
    obtain ⟨hstart, hstop⟩ := start_eq_of_lexFrom hlex
    exact ⟨hstart ▸ Nat.le_add_right _ _, hstop ▸ Nat.le_add_right _ _⟩
  fun_induction lexFrom n s with
  | case1 n => exact .nil
  | case2 n c s m l ih => exact .cons (hbehind l.span.stop m.rest) ih

/-- each token ends before any behind it starts -/
theorem Lexed.pairwise_apart {s : Text} {ts : List Token} (h : Lexed (lex s) ts) :
    ts.Pairwise (fun t u => t.span.stop ≤ u.span.start ∧ u.span.start ≤ u.span.stop) := by
  have hpieces : (ts.map Token.piece).Pairwise
      (fun x y => x.2.stop ≤ y.2.start ∧ y.2.start ≤ y.2.stop) := by
    rw [h, List.pairwise_map]
    exact pairwise_apart_lexFrom 0 s
  rwa [List.pairwise_map] at hpieces

theorem Lexed.pairwise_stop_lt {s : Text} {ts : List Token} (h : Lexed (lex s) ts) (offset : Nat) :
    ts.Pairwise (fun t u => decide (u.span.stop < offset) = true →
      decide (t.span.stop < offset) = true) := by
  refine h.pairwise_apart.imp (fun {t u} hapart hu => decide_eq_true ?_)
  exact Nat.lt_of_le_of_lt (hapart.1.trans hapart.2) (of_decide_eq_true hu)

theorem length_untouched (offset : Nat) (ts : List Token) :
    (untouched offset ts).length =
      (ts.takeWhile (fun t => t.span.stop < offset)).length - 1 := List.length_dropLast

theorem Lexed.partitionPoint?_eq {s : Text} {ts : List Token} (h : Lexed (lex s) ts) (offset : Nat) :
    partitionPoint? (fun t => t.span.stop < offset) ts 0 ts.length =
      some (ts.takeWhile (fun t => t.span.stop < offset)).length :=
  FilterQuery.partitionPoint?_eq
    (fun _ _ ht => lt_length_takeWhile_iff (h.pairwise_stop_lt offset) ht)
    (Nat.zero_le _) (List.takeWhile_prefix _).length_le (Nat.le_refl _)

/-! ## reading on -/

/-- where the old tokens go on, by the number of those that are passed -/
theorem tailFrom_eq (offset : Nat) (role previous : Option Role) (ts : List Token) :
    tailFrom offset role previous ts =
      let n := (ts.takeWhile (fun t => t.span.start < offset)).length
      match ts[n]? with
      | none => none
      | some t =>
        if t.span.start = offset ∧ lastRole previous (ts.take n) = role then some (ts.drop n)
        else none := by
  induction ts generalizing previous with
  | nil => rfl
  | cons t ts ih =>
    unfold tailFrom
    by_cases hlt : t.span.start < offset
    · rw [if_pos hlt, ih, List.takeWhile_cons_of_pos (by simpa using hlt)]
      rfl
    · rw [if_neg hlt, List.takeWhile_cons_of_neg (by simpa using hlt)]
      rfl

theorem shift_mono {n m : Nat} (h : n ≤ m) (d : Int) : shift n d ≤ shift m d := by
  unfold shift
  omega

section
variable {e : Edit} (head : List Token) {tail : List Token}

/-- the first tokens of the tail that start in front of where an offset of the new text was -/
def Passed (e : Edit) (tail : List Token) (start index : Nat) : Prop :=
  index ≤ tail.length ∧ ∀ t ∈ tail.take index, t.span.start < shift start (-e.delta)

theorem Passed.mono {start stop index : Nat} (h : Passed e tail start index) (hle : start ≤ stop) :
    Passed e tail stop index :=
  ⟨h.1, fun t ht => Nat.lt_of_lt_of_le (h.2 t ht) (shift_mono hle _)⟩

/-- from an index that has only passed tokens in front of an offset, all of them are passed -/
theorem passTo_append {offset index : Nat} (hindex : index ≤ tail.length)
    (h : ∀ t ∈ tail.take index, t.span.start < offset) :
    passTo (head ++ tail) offset (head.length + index) =
      head.length + (tail.takeWhile (fun t => t.span.start < offset)).length := by
  have hbefore : ∀ t ∈ tail.take index, decide (t.span.start < offset) = true :=
    fun t ht => decide_eq_true (h t ht)
  have hall : (tail.take index ++ tail.drop index).takeWhile _ = _ :=
    List.takeWhile_append_of_pos hbefore
  rw [List.take_append_drop] at hall
  rw [passTo_eq, List.drop_length_add_append, hall, List.length_append,
    List.length_take_of_le hindex, Nat.add_assoc]

theorem roleInFront?_take {n : Nat} (hn : n ≤ tail.length) :
    roleInFront? (head ++ tail) (head.length + n) =
      some (lastRole (lastRole none head) (tail.take n)) := by
  have hfront := roleInFront?_append (head ++ tail.take n) (tail.drop n)
  rwa [List.append_assoc, List.take_append_drop, List.length_append, List.length_take_of_le hn,
    lastRole_append] at hfront

/-- **An index that only moves on** finds the token that looking from the first one on finds. -/
theorem takeover?_eq {start stop index : Nat} (h : Passed e tail start index) (hle : start ≤ stop)
    (role : Option Role) :
    ∃ next, Passed e tail stop next ∧
      e.takeover? (head ++ tail) stop role (head.length + index) =
        some (head.length + next,
          (e.keepable (lastRole none head) tail stop role).isSome) ∧
      ∀ kept, e.keepable (lastRole none head) tail stop role = some kept → kept = tail.drop next := by
  have hmoved := h.mono hle
  unfold Edit.takeover? Edit.keepable
  by_cases hstop : stop < e.stop
  · rw [if_pos hstop, if_pos hstop]
    exact ⟨index, hmoved, rfl, fun kept hkept => absurd hkept (by simp)⟩
  rw [if_neg hstop, if_neg hstop, tailFrom_eq]
  dsimp only
  rw [passTo_append head hmoved.1 hmoved.2]
  generalize hoffset : shift stop (-e.delta) = offset
  have hprefix := List.takeWhile_prefix (l := tail) (fun t : Token => t.span.start < offset)
  have htake := List.prefix_iff_eq_take.mp hprefix
  have hlength := hprefix.length_le
  have hstarts : ∀ t ∈ tail.takeWhile (fun t => t.span.start < offset), t.span.start < offset :=
    fun t ht => by simpa using List.mem_takeWhile_imp ht
  generalize (tail.takeWhile (fun t => t.span.start < offset)).length = n at htake hlength ⊢
  rw [htake] at hstarts
  have hpassed : Passed e tail stop n := ⟨hlength, fun t ht => hoffset ▸ hstarts t ht⟩
  have hitem : (head ++ tail)[head.length + n]? = tail[n]? := by
    rw [List.getElem?_append_right (Nat.le_add_right _ _), Nat.add_sub_cancel_left]
  refine ⟨n, hpassed, ?_⟩
  rw [hitem]
  cases tail[n]? with
  | none => exact ⟨rfl, fun kept hkept => absurd hkept (by simp)⟩
  | some t =>
    dsimp only
    by_cases hstart : t.span.start = offset
    · rw [if_pos hstart, roleInFront?_take head hlength, Option.map_some]
      by_cases hr : lastRole (lastRole none head) (tail.take n) = role
      · rw [if_pos ⟨hstart, hr⟩, decide_eq_true hr]
        exact ⟨rfl, fun kept hkept => (Option.some.inj hkept).symm⟩
      · rw [if_neg (fun h => hr h.2), decide_eq_false hr]
        exact ⟨rfl, fun kept hkept => absurd hkept (by simp)⟩
    · rw [if_neg hstart, if_neg (fun h => hstart h.1)]
      exact ⟨rfl, fun kept hkept => absurd hkept (by simp)⟩

theorem readOn?_of_end (reg : Registry) {s : Text} {start : Nat} (h : lexemeAt? s start = some none)
    (ts : List Token) (e : Edit) (previous : Option Role) (index : Nat) :
    reg.readOn? s ts e start previous index = some ([], ts.length) := by
  rw [Registry.readOn?]
  split
  · next hl => exact absurd (h.symm.trans hl) (by simp)
  · rfl
  · next l hl => exact absurd (h.symm.trans hl) (by simp)

theorem readOn?_of_lexeme (reg : Registry) {s : Text} {start : Nat} {l : Lexeme}
    (h : lexemeAt? s start = some (some l)) (ts : List Token) (e : Edit) (previous : Option Role)
    (index : Nat) :
    reg.readOn? s ts e start previous index =
      let t := reg.judge previous l
      let role := after previous t.role
      match e.takeover? ts l.span.stop role index with
      | none => none
      | some (index, true) => some ([t], index)
      | some (index, false) =>
        (reg.readOn? s ts e l.span.stop role index).map (fun (read, last) => (t :: read, last)) := by
  rw [Registry.readOn?]
  split
  · next hl => exact absurd (h.symm.trans hl) (by simp)
  · next hl => exact absurd (h.symm.trans hl) (by simp)
  · next m hl =>
    obtain rfl : l = m := by simpa using h.symm.trans hl
    rfl

/-- **Reading in place** reads what `Registry.rescan` reads and stops in front of what that keeps. -/
theorem readOn?_eq (reg : Registry) {a : Text} {start index : Nat} (ha : byteLength a = start)
    (s : Text) (previous : Option Role) (h : Passed e tail start index) :
    ∃ gone, tail = gone ++
        (reg.rescan (e.keepable (lastRole none head) tail) previous start s).2 ∧
      reg.readOn? (a ++ s) (head ++ tail) e start previous (head.length + index) =
        some ((reg.rescan (e.keepable (lastRole none head) tail) previous start s).1,
          head.length + gone.length) := by
  -- by induction on what is read; the text in front and the index move on with it
  fun_induction Registry.rescan reg (e.keepable (lastRole none head) tail) previous start s
    generalizing a index with
  | case1 previous start =>
    subst ha
    refine ⟨tail, (List.append_nil tail).symm, ?_⟩
    rw [List.append_nil, readOn?_of_end reg (lexemeAt?_end a), List.length_append]
  | case2 previous start c s m l t role =>
    rename_i kept hkept
    have hlexeme : lexemeAt? (a ++ c :: s) start = some (some l) := by
      have hat := lexemeAt?_append a c s
      rwa [ha] at hat
    have hle : start ≤ l.span.stop := Nat.le_add_right _ _
    obtain ⟨next, hnext, htakeover, hdrop⟩ := takeover?_eq head h hle role
    rw [hkept, Option.isSome_some] at htakeover
    refine ⟨tail.take next, ?_, ?_⟩
    · rw [hdrop kept hkept, List.take_append_drop]
    · rw [readOn?_of_lexeme reg hlexeme]
      dsimp only
      rw [htakeover, List.length_take_of_le hnext.1]
  | case3 previous start c s m l t role hnone read kept =>
    rename_i hread ih
    have hlexeme : lexemeAt? (a ++ c :: s) start = some (some l) := by
      have hat := lexemeAt?_append a c s
      rwa [ha] at hat
    have hle : start ≤ l.span.stop := Nat.le_add_right _ _
    obtain ⟨next, hnext, htakeover, -⟩ := takeover?_eq head h hle role
    rw [hnone, Option.isSome_none] at htakeover
    have hfront : byteLength (a ++ m.text) = l.span.stop := by
      rw [byteLength_append, ha]
      rfl
    obtain ⟨gone, htail, hrest⟩ := ih hfront hnext
    rw [hread] at htail hrest
    rw [List.append_assoc, munch_text_append_rest] at hrest
    refine ⟨gone, htail, ?_⟩
    rw [readOn?_of_lexeme reg hlexeme]
    dsimp only
    rw [htakeover]
    dsimp only
    rw [hrest, Option.map_some]

end

end FilterQuery
