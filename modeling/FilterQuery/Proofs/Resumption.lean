import FilterQuery.Proofs.Division
import FilterQuery.Proofs.Exactness
import FilterQuery.Proofs.Flawless
import FilterQuery.Proofs.Repainting
import Mathlib.Order.Bounds.Basic

/-!
# Reading stops at the first place where it may

* `Query.roleUpTo q n`       the last role other than a blank of the tokens up to an offset;
* `Edit.Resumes e old new n`   the old tokens can go on at the offset `n` of the new text, told by the
  tokens of the two whole texts; `Edit.resumes_iff` tells the same by their lexemes;
* `tailFrom_append`          such old tokens are found;
* `Splicing.resumes_stop`, `Splicing.stop_le_of_resumes`   where reading stops, tokens go on, and they
  do not go on before;
* `Change.Earliest`, `Query.edit_earliest`   so the extent of a change is the least it can be.
-/

namespace FilterQuery
open Text

/-! ## lexemes and the offsets between them -/

section
variable {s : Text} {ls ms : List Lexeme} {l : Lexeme}

theorem stop_le_of_mem_front (h : lex s = ls ++ ms) (hl : l ∈ ls) :
    l.span.stop ≤ byteLength (ls.flatMap Lexeme.text) := by
  obtain ⟨as, bs, rfl⟩ := List.append_of_mem hl
  rw [List.append_assoc] at h
  obtain ⟨hstart, hstop⟩ := start_eq_of_lexFrom h
  rw [hstop, hstart, List.flatMap_append, byteLength_append, List.flatMap_cons, byteLength_append]
  omega

theorem le_start_of_mem_back (h : lex s = ls ++ ms) (hl : l ∈ ms) :
    byteLength (ls.flatMap Lexeme.text) ≤ l.span.start := by
  obtain ⟨as, bs, rfl⟩ := List.append_of_mem hl
  rw [← List.append_assoc] at h
  have hstart := (start_eq_of_lexFrom h).1
  rw [List.flatMap_append, byteLength_append] at hstart
  omega

theorem lt_stop_of_mem_back (h : lex s = ls ++ ms) (hl : l ∈ ms) :
    byteLength (ls.flatMap Lexeme.text) < l.span.stop :=
  Nat.lt_of_le_of_lt (le_start_of_mem_back h hl)
    (Lexeme.standsIn_of_mem_lex (h ▸ List.mem_append_right ls hl)).start_lt_stop

theorem exists_of_lex_eq_append {ls' ms' : List Lexeme} (h : lex s = ls ++ ms)
    (h' : lex s = ls' ++ ms')
    (hle : byteLength (ls.flatMap Lexeme.text) ≤ byteLength (ls'.flatMap Lexeme.text)) :
    ∃ between, ls' = ls ++ between ∧ ms = between ++ ms' := by
  rcases List.append_eq_append_iff.mp (h.symm.trans h') with ⟨as, hls', hms⟩ | ⟨as, hls, hms'⟩
  · exact ⟨as, hls', hms⟩
  · cases as with
    | nil => exact ⟨[], by rw [hls, List.append_nil, List.append_nil], hms'.symm⟩
    | cons a as =>
      -- a lexeme in between would make the first beginning the longer one
      have hlt := lt_stop_of_mem_back h' (by rw [hms']; exact List.mem_cons_self)
      have ha : a ∈ ls := by rw [hls]; exact List.mem_append_right _ List.mem_cons_self
      have hstop := stop_le_of_mem_front h ha
      omega

end

theorem Lexed.exists_span_iff {ls : List Lexeme} {ts : List Token} (h : Lexed ls ts)
    {P : Span → Prop} : (∃ t ∈ ts, P t.span) ↔ ∃ l ∈ ls, P l.span := by
  have hpieces : (∃ x ∈ ts.map Token.piece, P x.2) ↔ ∃ x ∈ ls.map Lexeme.piece, P x.2 := by rw [h]
  simp only [List.mem_map, exists_exists_and_eq_and] at hpieces
  exact hpieces

theorem Lexed.exists_span {ls : List Lexeme} {ts : List Token} (h : Lexed ls ts) {t : Token}
    (ht : t ∈ ts) : ∃ l ∈ ls, l.span = t.span :=
  (h.exists_span_iff (P := (· = t.span))).mp ⟨t, ht, rfl⟩

theorem Lexed.exists_append {ls ms : List Lexeme} {ts : List Token} (h : Lexed (ls ++ ms) ts) :
    ∃ us vs, ts = us ++ vs ∧ us.length = ls.length := by
  refine ⟨ts.take ls.length, ts.drop ls.length, (List.take_append_drop ..).symm, ?_⟩
  refine List.length_take_of_le ?_
  rw [h.length_eq, List.length_append]
  exact Nat.le_add_right _ _

theorem Lexed.exists_stop_iff {s : Text} {ts : List Token} (h : Lexed (lex s) ts) {n : Nat} :
    (∃ t ∈ ts, t.span.stop = n) ↔
      ∃ ls ms, lex s = ls ++ ms ∧ ls ≠ [] ∧ byteLength (ls.flatMap Lexeme.text) = n := by
  rw [h.exists_span_iff (P := fun a => a.stop = n)]
  constructor
  · rintro ⟨l, hl, rfl⟩
    obtain ⟨ls, ms, hlex⟩ := List.append_of_mem hl
    obtain ⟨hstart, hstop⟩ := start_eq_of_lexFrom hlex
    refine ⟨ls ++ [l], ms, by rw [hlex, List.append_assoc]; rfl, by simp, ?_⟩
    rw [hstop, hstart, List.flatMap_append, byteLength_append, List.flatMap_singleton, Nat.zero_add]
  · rintro ⟨ls, ms, hlex, hne, rfl⟩
    obtain ⟨as, l, rfl⟩ := List.eq_nil_or_concat ls |>.resolve_left hne
    rw [List.concat_eq_append] at hlex ⊢
    rw [List.append_assoc] at hlex
    obtain ⟨hstart, hstop⟩ := start_eq_of_lexFrom hlex
    refine ⟨l, by rw [hlex]; exact List.mem_append_right _ List.mem_cons_self, ?_⟩
    rw [hstop, hstart, List.flatMap_append, byteLength_append, List.flatMap_singleton, Nat.zero_add]

theorem Lexed.exists_start_iff {s : Text} {ts : List Token} (h : Lexed (lex s) ts)
    {P : Nat → Prop} : (∃ t ∈ ts, P t.span.start) ↔
      ∃ ls ms, lex s = ls ++ ms ∧ ms ≠ [] ∧ P (byteLength (ls.flatMap Lexeme.text)) := by
  rw [h.exists_span_iff (P := fun a => P a.start)]
  constructor
  · rintro ⟨l, hl, hp⟩
    obtain ⟨ls, ms, hlex⟩ := List.append_of_mem hl
    rw [(start_eq_of_lexFrom hlex).1, Nat.zero_add] at hp
    exact ⟨ls, l :: ms, hlex, List.cons_ne_nil _ _, hp⟩
  · rintro ⟨ls, ms, hlex, hne, hp⟩
    obtain ⟨l, ms, rfl⟩ := List.exists_cons_of_ne_nil hne
    refine ⟨l, by rw [hlex]; exact List.mem_append_right _ List.mem_cons_self, ?_⟩
    rwa [(start_eq_of_lexFrom hlex).1, Nat.zero_add]

/-! ## the last role up to an offset -/

namespace Query

/-- the last role other than a blank of the tokens that do not end behind an offset -/
def roleUpTo (q : Query) (n : Nat) : Option Role :=
  (q.tokens.filter (fun t => t.role ≠ .blank ∧ t.span.stop ≤ n)).getLast?.map Token.role

/-- **Up to a lexeme, the last role is that behind the lexemes in front of it.** -/
theorem roleUpTo_ofText (reg : Registry) {s : Text} {ls ms : List Lexeme} (h : lex s = ls ++ ms) :
    (ofText reg s).roleUpTo (byteLength (ls.flatMap Lexeme.text)) = reg.roleBehind ls := by
  have hreads := reads_ofText reg s
  have hlexed := lexed_ofText reg s
  unfold roleUpTo
  generalize (ofText reg s).tokens = ts at hreads hlexed
  rw [h] at hreads hlexed
  obtain ⟨us, vs, rfl, hlength⟩ := hlexed.exists_append
  obtain ⟨hus, hvs⟩ := hlexed.of_append hlength
  have hfront : ∀ t ∈ us, t.span.stop ≤ byteLength (ls.flatMap Lexeme.text) := by
    intro t ht
    obtain ⟨l, hl, hspan⟩ := hus.exists_span ht
    exact hspan ▸ stop_le_of_mem_front h hl
  have hback : ∀ t ∈ vs, byteLength (ls.flatMap Lexeme.text) < t.span.stop := by
    intro t ht
    obtain ⟨l, hl, hspan⟩ := hvs.exists_span ht
    exact hspan ▸ lt_stop_of_mem_back h hl
  have hnone : vs.filter (fun t => t.role ≠ .blank ∧
      t.span.stop ≤ byteLength (ls.flatMap Lexeme.text)) = [] := by
    refine List.filter_eq_nil_iff.mpr (fun t ht hp => ?_)
    have hlt := hback t ht
    have hle := (of_decide_eq_true hp).2
    omega
  have hall : us.filter (fun t => t.role ≠ .blank ∧
      t.span.stop ≤ byteLength (ls.flatMap Lexeme.text)) =
        us.filter (fun t => t.role ≠ .blank) := by
    refine List.filter_congr (fun t ht => ?_)
    simp only [hfront t ht, and_true]
  rw [List.filter_append, hnone, hall, List.append_nil, ← lastRole_eq_getLast?]
  exact ((hreads.of_append hlength).1.lastRole_eq none).symm

end Query

/-! ## where old tokens can go on -/

/-- **Old tokens can go on at an offset of the new text**: a token ends there, not in front of the end
of the edit, an old one started there before the text grew, and both stand behind the same role. -/
structure Edit.Resumes (e : Edit) (old new : Query) (n : Nat) : Prop where
  ends : ∃ t ∈ new.tokens, t.span.stop = n
  behind : e.range.start + e.replacement.byteLength ≤ n
  starts : ∃ t ∈ old.tokens, (t.span.start : Int) + e.delta = n ∧
    new.roleUpTo n = old.roleUpTo t.span.start

theorem Edit.resumes_iff (reg : Registry) {e : Edit} {s t : Text} {n : Nat} :
    e.Resumes (.ofText reg s) (.ofText reg t) n ↔
      ∃ ls ms ls' ms', lex s = ls ++ ms ∧ ms ≠ [] ∧ lex t = ls' ++ ms' ∧ ls' ≠ [] ∧
        e.stop ≤ n ∧ byteLength (ls'.flatMap Lexeme.text) = n ∧
        (byteLength (ls.flatMap Lexeme.text) : Int) + e.delta = n ∧
        reg.roleBehind ls' = reg.roleBehind ls := by
  have hends := (Query.lexed_ofText reg t).exists_stop_iff (n := n)
  have hstarts := (Query.lexed_ofText reg s).exists_start_iff (P := fun m =>
    (m : Int) + e.delta = n ∧
      (Query.ofText reg t).roleUpTo n = (Query.ofText reg s).roleUpTo m)
  constructor
  · rintro ⟨hend, hbehind, hstart⟩
    obtain ⟨ls', ms', hlex', hne', rfl⟩ := hends.mp hend
    obtain ⟨ls, ms, hlex, hne, hplace, hrole⟩ := hstarts.mp hstart
    rw [Query.roleUpTo_ofText reg hlex, Query.roleUpTo_ofText reg hlex'] at hrole
    exact ⟨ls, ms, ls', ms', hlex, hne, hlex', hne', hbehind, rfl, hplace, hrole⟩
  · rintro ⟨ls, ms, ls', ms', hlex, hne, hlex', hne', hbehind, rfl, hplace, hrole⟩
    rw [← Query.roleUpTo_ofText reg hlex, ← Query.roleUpTo_ofText reg hlex'] at hrole
    exact ⟨hends.mpr ⟨ls', ms', hlex', hne', rfl⟩, hbehind,
      hstarts.mpr ⟨ls, ms, hlex, hne, hplace, hrole⟩⟩

theorem tailFrom_append {us vs : List Token} {v : Token} (previous : Option Role)
    (h : ∀ u ∈ us, u.span.start < v.span.start) :
    tailFrom v.span.start (lastRole previous us) previous (us ++ v :: vs) = some (v :: vs) := by
  induction us generalizing previous with
  | nil =>
    show tailFrom _ _ _ (v :: vs) = _
    rw [tailFrom, if_neg (Nat.lt_irrefl _)]
    exact if_pos ⟨rfl, rfl⟩
  | cons u us ih =>
    rw [List.cons_append, tailFrom, if_pos (h u List.mem_cons_self)]
    exact ih (after previous u.role) (fun w hw => h w (List.mem_cons_of_mem _ hw))

/-! ## the extent of a change -/

namespace Splicing
variable {reg : Registry} {s : Text} {e : Edit} {k : e.Cut s} (p : Splicing reg (.ofText reg s) k)

theorem role_front : lastRole none p.head = reg.roleBehind p.front := by
  have h := Query.reads_ofText reg s
  rw [show lex s = _ from p.old_eq, p.tokens_eq] at h
  exact ((h.of_append p.head_lexed.length_eq).1.lastRole_eq none).symm

theorem role_removed : lastRole none (p.head ++ p.gone) = reg.roleBehind (p.front ++ p.removed) := by
  have h := Query.reads_ofText reg s
  rw [show lex s = _ from p.old_eq, p.tokens_eq, ← List.append_assoc, ← List.append_assoc] at h
  refine ((h.of_append ?_).1.lastRole_eq none).symm
  rw [List.length_append, List.length_append, p.head_lexed.length_eq, p.gone_lexed.length_eq]

theorem role_fresh (ls : List Lexeme) :
    lastRole (lastRole none p.head) (reg.judgeAll (lastRole none p.head) ls) =
      reg.roleBehind (p.front ++ ls) := by
  rw [p.role_front, reg.roleBehind_append]

theorem exists_tailFrom {ls ms : List Lexeme} (h : lex s = p.front ++ (ls ++ ms)) (hne : ms ≠ []) :
    ∃ kept, tailFrom (byteLength ((p.front ++ ls).flatMap Lexeme.text))
      (reg.roleBehind (p.front ++ ls)) (lastRole none p.head) (p.gone ++ p.kept) = some kept := by
  have hreads := Query.reads_ofText reg s
  have hlexed := Query.lexed_ofText reg s
  rw [h, p.tokens_eq] at hreads hlexed
  have htail := (hlexed.of_append p.head_lexed.length_eq).2
  have hread := (hreads.of_append p.head_lexed.length_eq).2
  generalize p.gone ++ p.kept = tail at htail hread
  obtain ⟨us, vs, rfl, hlength⟩ := htail.exists_append
  obtain ⟨hus, hvs⟩ := htail.of_append hlength
  obtain ⟨m, ms, rfl⟩ := List.exists_cons_of_ne_nil hne
  obtain ⟨v, vs, rfl⟩ :=
    List.exists_cons_of_ne_nil (fun h0 => List.cons_ne_nil m ms (hvs.eq_nil_iff.mp h0))
  rw [← List.append_assoc] at h
  have hstart : v.span.start = byteLength ((p.front ++ ls).flatMap Lexeme.text) := by
    rw [hvs.cons_cons.2, (start_eq_of_lexFrom h).1, Nat.zero_add]
  have hrole : lastRole (lastRole none p.head) us = reg.roleBehind (p.front ++ ls) := by
    rw [← p.role_fresh, (hread.of_append hlength).1.lastRole_eq]
  have hbefore : ∀ u ∈ us, u.span.start < v.span.start := by
    intro u hu
    obtain ⟨l, hl, hspan⟩ := hus.exists_span hu
    have hmem : l ∈ p.front ++ ls := List.mem_append_right _ hl
    have hlt := (Lexeme.standsIn_of_mem_lex (h ▸ List.mem_append_left _ hmem)).start_lt_stop
    have hle := stop_le_of_mem_front h hmem
    rw [hstart, ← hspan]
    omega
  rw [← hstart, ← hrole]
  exact ⟨_, tailFrom_append _ hbefore⟩

theorem front_lt (h : p.front ≠ []) : byteLength (p.front.flatMap Lexeme.text) < e.range.start := by
  have hstop := stop_eq p.old_eq p.head_lexed
  rw [Nat.zero_add] at hstop
  have hhead : p.head ≠ [] := fun h0 => h (p.head_lexed.eq_nil_iff.mp h0)
  have hmem := List.getLast_mem hhead
  rw [List.getLast?_eq_some_getLast hhead] at hstop
  rw [← hstop]
  -- all tokens of the head end in front of the edit
  generalize p.head.getLast hhead = t at hmem
  rw [← p.head_eq] at hmem
  simpa using List.mem_takeWhile_imp (List.dropLast_subset _ hmem)

/-- reading starts with the token in front of the first one that the edit can reach -/
theorem exists_touched :
    ∃ front back, (Query.ofText reg s).tokens = front ++ back ∧
      (∀ t ∈ front, t.span.stop < e.range.start) ∧
      (∀ t ∈ back.head?, e.range.start ≤ t.span.stop) ∧
      byteLength (p.front.flatMap Lexeme.text) =
        (front.getLast?.map (fun t => t.span.start)).getD 0 := by
  have hhead := p.head_eq
  have hlexed := Query.lexed_ofText reg s
  unfold untouched at hhead
  generalize (Query.ofText reg s).tokens = ts at hhead hlexed
  refine ⟨_, _, (List.takeWhile_append_dropWhile (p := fun t => t.span.stop < e.range.start)).symm,
    fun t ht => by simpa using List.mem_takeWhile_imp ht, fun t ht => ?_, ?_⟩
  · have hnot := List.head?_dropWhile_not (fun t : Token => t.span.stop < e.range.start) ts
    rw [ht] at hnot
    simpa using hnot
  · have hts := List.takeWhile_append_dropWhile (p := fun t => t.span.stop < e.range.start) (l := ts)
    generalize ts.takeWhile (fun t => t.span.stop < e.range.start) = us at hhead hts
    generalize ts.dropWhile (fun t => t.span.stop < e.range.start) = vs at hts
    rcases List.eq_nil_or_concat us with rfl | ⟨us, t, rfl⟩
    · rw [p.head_lexed.eq_nil_iff.mp hhead.symm]
      rfl
    · rw [List.concat_eq_append] at hhead hts ⊢
      rw [List.dropLast_concat] at hhead
      have hold : lex s = _ := p.old_eq
      rw [← hts, hold, hhead, List.append_assoc] at hlexed
      have htail := (hlexed.of_append p.head_lexed.length_eq).2
      generalize p.removed ++ p.back = ms at hold htail
      cases ms with
      | nil => exact absurd htail (List.cons_ne_nil _ _)
      | cons m ms =>
        rw [List.getLast?_concat, Option.map_some, Option.getD_some, htail.cons_cons.2,
          (start_eq_of_lexFrom hold).1, Nat.zero_add]

/-- **Where reading stops, old tokens can go on**, unless none is left. -/
theorem resumes_stop (h : p.kept ≠ []) :
    e.Resumes (.ofText reg s) (.ofText reg k.result)
      (byteLength ((p.front ++ p.fresh).flatMap Lexeme.text)) := by
  have hback : p.back ≠ [] := fun h0 => h (p.kept_lexed.eq_nil_iff.mpr h0)
  have hfresh : p.fresh ≠ [] := by
    refine p.fresh_ne_nil (fun h0 => hback ?_)
    have hnew := p.new_eq
    rw [h0, show lex [] = [] from lexFrom_nil 0] at hnew
    simpa using (List.append_eq_nil_iff.mp (List.append_eq_nil_iff.mp hnew.symm).2).2
  refine (Edit.resumes_iff reg).mpr ⟨p.front ++ p.removed, p.back, p.front ++ p.fresh,
    p.back.map (fun l => l.shift e.delta), ?_, hback, ?_,
    List.append_ne_nil_of_right_ne_nil _ hfresh, p.stop_le, rfl, p.place_eq.symm, ?_⟩
  · rw [List.append_assoc]
    exact p.old_eq
  · rw [List.append_assoc]
    exact p.new_eq
  · have hrole := p.role_eq h
    rw [lastRole_append none p.head (reg.judgeAll _ _), p.role_fresh, p.role_removed] at hrole
    exact hrole.symm

/-- **In front of where reading stops, no old token can go on.** -/
theorem stop_le_of_resumes {n : Nat} (h : e.Resumes (.ofText reg s) (.ofText reg k.result) n) :
    byteLength ((p.front ++ p.fresh).flatMap Lexeme.text) ≤ n := by
  obtain ⟨ls, ms, ls', ms', hold, hne, hnew, hne', hbehind, rfl, hplace, hrole⟩ :=
    (Edit.resumes_iff reg).mp h
  by_contra hlt
  rw [Nat.not_le] at hlt
  have hstart := p.front_le
  have hstop : e.stop = e.range.start + e.replacement.byteLength := rfl
  have hdelta : e.delta = (e.replacement.byteLength : Int) - (e.range.length : Int) := rfl
  -- both divisions are behind the front
  obtain ⟨cs, rfl, hrest⟩ := exists_of_lex_eq_append p.old_eq hold (by omega)
  obtain ⟨as, rfl, -⟩ := exists_of_lex_eq_append p.new_eq hnew (by omega)
  have has : as ≠ [] := by
    rintro rfl
    rw [List.append_nil] at hne' hbehind
    have hfront := p.front_lt hne'
    omega
  have hnew' := p.new_eq
  rw [← List.append_assoc] at hnew'
  obtain ⟨bs, hfresh, -⟩ := exists_of_lex_eq_append hnew hnew' (Nat.le_of_lt hlt)
  rw [List.append_assoc, List.append_cancel_left_eq] at hfresh
  have hbs : bs ≠ [] := by
    rintro rfl
    rw [hfresh, List.append_nil] at hlt
    exact Nat.lt_irrefl _ hlt
  have hnone := p.keepable_eq as bs hfresh has hbs
  obtain ⟨kept, hkept⟩ := p.exists_tailFrom (by rw [← hrest]; exact p.old_eq) hne
  have hshift : shift (byteLength ((p.front ++ as).flatMap Lexeme.text)) (-e.delta) =
      byteLength ((p.front ++ cs).flatMap Lexeme.text) := by
    unfold shift
    omega
  rw [p.role_fresh, hrole, Edit.keepable, if_neg (Nat.not_lt_of_le hbehind), hshift, hkept] at hnone
  exact absurd hnone (by simp)

end Splicing

/-- **The extent of a change is the least it can be.** -/
structure Change.Earliest (c : Change) (e : Edit) (old new : Query) : Prop where
  /-- It starts with the token in front of the first one that does not end in front of the edit. -/
  starts : ∃ front back, old.tokens = front ++ back ∧
    (∀ t ∈ front, t.span.stop < e.range.start) ∧
    (∀ t ∈ back.head?, e.range.start ≤ t.span.stop) ∧
    c.extent.start = (front.getLast?.map (fun t => t.span.start)).getD 0
  /-- It stops where old tokens can go on for the first time, or with the text. -/
  stops : IsLeast {n | e.Resumes old new n} c.extent.stop ∨
    (∀ n, ¬ e.Resumes old new n) ∧ c.extent.stop = new.source.byteLength

theorem Splicing.earliest {reg : Registry} {s : Text} {e : Edit} {k : e.Cut s}
    (p : Splicing reg (.ofText reg s) k) :
    ((Query.ofText reg s).splice reg e).2.Earliest e (.ofText reg s) (.ofText reg k.result) := by
  rw [p.change_eq]
  refine ⟨p.exists_touched, ?_⟩
  by_cases hkept : p.kept = []
  · right
    have hnew := flatMap_text_lex k.result
    have hback := p.kept_lexed.eq_nil_iff.mp hkept
    have hlex : lex k.result = _ := p.new_eq
    rw [hlex, hback, List.map_nil, List.append_nil] at hnew
    have hstop : byteLength ((p.front ++ p.fresh).flatMap Lexeme.text) = k.result.byteLength := by
      rw [hnew]
    refine ⟨fun n hn => ?_, hstop⟩
    -- no token of the old text starts at its end
    have hle := p.stop_le_of_resumes hn
    obtain ⟨ls, ms, ls', ms', hold, hne, -, -, -, -, hplace, -⟩ := (Edit.resumes_iff reg).mp hn
    have hlen := k.byteLength_result
    have hms := List.head_mem hne
    have hlt := lt_stop_of_mem_back hold hms
    have hall := stop_le_of_mem_front (hold.trans (List.append_nil _).symm)
      (List.mem_append_right ls hms)
    rw [← hold, show (lex s).flatMap Lexeme.text = s from flatMap_text_lex s] at hall
    omega
  · left
    exact ⟨p.resumes_stop hkept, fun n hn => p.stop_le_of_resumes hn⟩

/-- **Reading stops at the first place where it may.**  The extent that an edit reports, in place or
not, starts with the last token in front of those that it can reach and stops where the old tokens can
go on for the first time; both are told by the tokens of the old text and of the new one. -/
theorem Query.edit_earliest (reg : Registry) {s : Text} {e : Edit} (h : e.check s = .ok ()) :
    ∃ c, (ofText reg s).editInPlace reg e = some (ofText reg (e.apply s), .ok c) ∧
      (ofText reg s).edit reg e = .ok (ofText reg (e.apply s), c) ∧
      c.Earliest e (ofText reg s) (ofText reg (e.apply s)) := by
  obtain ⟨k⟩ := Edit.check_eq_ok_iff.mp h
  obtain ⟨p⟩ := exists_splicing reg (ofText reg s) k (lexed_ofText reg s)
  have hedit : (ofText reg s).edit reg e =
      .ok (ofText reg (e.apply s), ((ofText reg s).splice reg e).2) := by
    rw [edit_of_cut reg (ofText reg s) k, k.apply_eq]
    exact congrArg Except.ok (Prod.ext p.splice_ofText rfl)
  refine ⟨((ofText reg s).splice reg e).2, ?_, hedit, ?_⟩
  · rw [editInPlace_eq reg (lexed_ofText reg s), hedit]
    rfl
  · rw [k.apply_eq]
    exact p.earliest

/-- a digit is typed behind another one -/
theorem Query.edit_earliest_digit :
    (Edit.insert 3 "0".toList).check "a=1 and b=2".toList = .ok () ∧
      ∃ c, (ofText .builtin "a=1 and b=2".toList).editInPlace .builtin (.insert 3 "0".toList) =
          some (ofText .builtin ((Edit.insert 3 "0".toList).apply "a=1 and b=2".toList), .ok c) ∧
        (ofText .builtin "a=1 and b=2".toList).edit .builtin (.insert 3 "0".toList) =
          .ok (ofText .builtin ((Edit.insert 3 "0".toList).apply "a=1 and b=2".toList), c) ∧
        c.Earliest (.insert 3 "0".toList) (ofText .builtin "a=1 and b=2".toList)
          (ofText .builtin ((Edit.insert 3 "0".toList).apply "a=1 and b=2".toList)) :=
  ⟨by decide, edit_earliest .builtin (by decide)⟩

/-- what is read there ends with the number -/
example : ((Query.ofText .builtin "a=1 and b=2".toList).splice .builtin
    (.insert 3 "0".toList)).2.extent = ⟨1, 4⟩ := by
  decide +kernel

end FilterQuery
