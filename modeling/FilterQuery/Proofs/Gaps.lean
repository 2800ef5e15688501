import FilterQuery.Proofs.Resumption
import FilterQuery.Proofs.Spelling

/-!
# Blanks make no difference

Blanks only divide a text into lexemes; where a role is due they are skipped.  So a gap that is put in
where two lexemes meet changes nothing but the places of those behind it.

* `solidLexemes`, `solidTokens`   what is left without the blanks;
* `Query.solidTokens_ofText`      the tokens left are those of the lexemes left;
* `solidLexemes_gap_append`       a gap in front of a text changes none of its other lexemes;
* `solidLexemes_insert`           a gap between two lexemes changes none either, and moves those behind;
* `Query.solidTokens_insert`      so the tokens of a text stay, with a gap put in wherever one ends.
-/

namespace FilterQuery
open Text

/-! ## without the blanks -/

def solidLexemes (ls : List Lexeme) : List Lexeme := ls.filter (fun l => l.kind ≠ .blank)

def solidTokens (ts : List Token) : List Token := ts.filter (fun t => t.role ≠ .blank)

theorem solidLexemes_append (ls ms : List Lexeme) :
    solidLexemes (ls ++ ms) = solidLexemes ls ++ solidLexemes ms := List.filter_append ..

theorem solidLexemes_cons_of_blank {l : Lexeme} (h : l.kind = .blank) (ls : List Lexeme) :
    solidLexemes (l :: ls) = solidLexemes ls := List.filter_cons_of_neg (by simpa using h)

theorem solidLexemes_map_relocate (place : Span → Span) (ls : List Lexeme) :
    solidLexemes (ls.map (Lexeme.relocate place)) = (solidLexemes ls).map (Lexeme.relocate place) :=
  List.filter_map ..

theorem solidTokens_cons_of_blank {t : Token} (h : t.role = .blank) (ts : List Token) :
    solidTokens (t :: ts) = solidTokens ts := List.filter_cons_of_neg (by simpa using h)

theorem solidTokens_cons_of_ne {t : Token} (h : t.role ≠ .blank) (ts : List Token) :
    solidTokens (t :: ts) = t :: solidTokens ts := List.filter_cons_of_pos (by simpa using h)

theorem Registry.solidTokens_judgeAll (reg : Registry) (previous : Option Role) (ls : List Lexeme) :
    solidTokens (reg.judgeAll previous ls) = reg.judgeAll previous (solidLexemes ls) := by
  induction ls generalizing previous with
  | nil => rfl
  | cons l ls ih =>
    show solidTokens (reg.judge previous l :: reg.judgeAll _ ls) = _
    have hiff := reg.role_judge_eq_iff previous .blank l
    by_cases hk : l.kind = .blank
    · rw [solidTokens_cons_of_blank (hiff.mpr hk), solidLexemes_cons_of_blank hk, ih,
        hiff.mpr hk]
      rfl
    · rw [solidTokens_cons_of_ne (fun hr => hk (hiff.mp hr)), ih, solidLexemes, solidLexemes,
        List.filter_cons_of_pos (by simpa using hk)]
      rfl

theorem closing_solidTokens (ts : List Token) : closing (solidTokens ts) = closing ts := by
  induction ts with
  | nil => rfl
  | cons t ts ih =>
    by_cases hr : t.role = .blank
    · have hplain : ∀ u ∈ [t], u.role.isParen = false := by simp [hr, Role.isParen]
      rw [solidTokens_cons_of_blank hr, ih]
      exact (closing_append_of_plain hplain ts).symm
    · rw [solidTokens_cons_of_ne hr]
      exact closing_cons_congr rfl ih

theorem solidTokens_settle (opened : Nat) (ts : List Token) :
    solidTokens (settle opened ts).1 = (settle opened (solidTokens ts)).1 := by
  induction ts generalizing opened with
  | nil => rfl
  | cons t ts ih =>
    rw [fst_settle_cons]
    by_cases hr : t.role = .blank
    · have hopened : openAfter opened t.role = opened := by rw [hr]; rfl
      rw [solidTokens_cons_of_blank ((Token.role_settled ..).trans hr), ih, hopened,
        solidTokens_cons_of_blank hr]
    · rw [solidTokens_cons_of_ne (fun h => hr ((Token.role_settled ..).symm.trans h)), ih,
        solidTokens_cons_of_ne hr, fst_settle_cons, closing_solidTokens]

/-- **The tokens other than blanks** are those of the lexemes other than blanks. -/
theorem Query.solidTokens_ofText (reg : Registry) (s : Text) :
    solidTokens (ofText reg s).tokens = balanced (reg.judgeAll none (solidLexemes (lex s))) := by
  rw [← reg.solidTokens_judgeAll]
  exact solidTokens_settle 0 _

/-! ## gaps -/

/-- spaces in front of a text only tell where its other lexemes start -/
theorem solidLexemes_dropWhile (n : Nat) (s : Text) :
    solidLexemes (lexFrom n s) =
      solidLexemes (lexFrom (n + byteLength (s.takeWhile isSpace)) (s.dropWhile isSpace)) := by
  cases s with
  | nil => rfl
  | cons c s =>
    by_cases hc : isSpace c
    · rw [lexFrom_cons, munch_of_isSpace hc, List.takeWhile_cons_of_pos hc,
        List.dropWhile_cons_of_pos hc]
      exact solidLexemes_cons_of_blank rfl _
    · rw [List.takeWhile_cons_of_neg hc, List.dropWhile_cons_of_neg hc]
      rfl

/-- **A gap in front of a text** changes none of its other lexemes. -/
theorem solidLexemes_gap_append {gap : Text} (hgap : IsGap gap) (n : Nat) (s : Text) :
    solidLexemes (lexFrom n (gap ++ s)) = solidLexemes (lexFrom (n + byteLength gap) s) := by
  have hspaces : ∀ c ∈ gap, isSpace c := fun c hc => isSpace_iff.mpr (hgap c hc)
  rw [solidLexemes_dropWhile n, List.takeWhile_append_of_pos hspaces,
    List.dropWhile_append_of_pos hspaces, byteLength_append, ← Nat.add_assoc,
    ← solidLexemes_dropWhile]

/-- a gap behind some lexemes of a text, the last of them closed -/
theorem solidLexemes_gap_between {s : Text} {ls ms : List Lexeme}
    (h : lex (ls.flatMap Lexeme.text ++ s) = ls ++ ms)
    (hclosed : ∀ l ∈ ls.getLast?, l.kind ≠ .unclosedLiteral) {gap : Text} (hgap : IsGap gap)
    (hne : gap ≠ []) :
    solidLexemes (lex (ls.flatMap Lexeme.text ++ (gap ++ s))) =
      solidLexemes ls ++
        solidLexemes (lexFrom (byteLength (ls.flatMap Lexeme.text) + byteLength gap) s) := by
  rcases List.eq_nil_or_concat ls with rfl | ⟨as, l, rfl⟩
  · exact solidLexemes_gap_append hgap 0 s
  rw [List.concat_eq_append] at h hclosed ⊢
  by_cases hblank : l.kind = .blank
  · -- the gap goes on where the blank ends
    have hmem : l ∈ lex ((as ++ [l]).flatMap Lexeme.text ++ s) := by
      rw [h]
      simp
    have hshape : l.kind.Shape l.text := (Lexeme.standsIn_of_mem_lex hmem).shape
    have hmore : IsGap (l.text ++ gap) := by
      rw [hblank] at hshape
      exact List.forall_mem_append.mpr ⟨hshape.2, hgap⟩
    rw [List.flatMap_append, List.flatMap_singleton, List.append_assoc, List.append_assoc] at h
    have hexchange := lexFrom_exchange h (y := l.text ++ (gap ++ s)) (by
      rw [List.head?_append_of_ne_nil _ hshape.ne_nil]
      exact ends_of_getLast? h)
    rw [List.flatMap_append, List.flatMap_singleton, List.append_assoc, lex, hexchange,
      solidLexemes_append, solidLexemes_append, ← List.append_assoc, solidLexemes_gap_append hmore,
      solidLexemes_cons_of_blank hblank, byteLength_append, byteLength_append]
    simp only [Nat.zero_add, Nat.add_assoc]
    exact (congrArg (· ++ _) (List.append_nil _)).symm
  · have hexchange := lexFrom_exchange h (y := gap ++ s) (by
      intro m hm
      obtain rfl : l = m := by simpa using hm
      refine Lexeme.Kind.ends_of_space hblank (hclosed l hm) l.text (fun c hc => ?_)
      rw [List.head?_append_of_ne_nil _ hne] at hc
      exact hgap c (List.mem_of_head? hc))
    rw [lex, hexchange, solidLexemes_append, solidLexemes_gap_append hgap, Nat.zero_add]

/-! ## room for a gap -/

/-- the span when room is made at an offset: what ends behind it moves -/
def Span.makeRoom (offset size : Nat) (a : Span) : Span :=
  if a.stop ≤ offset then a else a.shift size

/-- **A gap between two lexemes** leaves those in front of it and moves those behind it. -/
theorem solidLexemes_insert {s : Text} {ls ms : List Lexeme}
    (h : lex (ls.flatMap Lexeme.text ++ s) = ls ++ ms)
    (hclosed : ∀ l ∈ ls.getLast?, l.kind ≠ .unclosedLiteral) {gap : Text} (hgap : IsGap gap)
    (hne : gap ≠ []) :
    solidLexemes (lex (ls.flatMap Lexeme.text ++ (gap ++ s))) =
      (solidLexemes (lex (ls.flatMap Lexeme.text ++ s))).map (Lexeme.relocate
        (Span.makeRoom (byteLength (ls.flatMap Lexeme.text)) (byteLength gap))) := by
  obtain ⟨r, hr, hms⟩ := lexFrom_eq_append h
  obtain rfl := List.append_cancel_left hr
  have hfront : ls.map (Lexeme.relocate
      (Span.makeRoom (byteLength (ls.flatMap Lexeme.text)) (byteLength gap))) = ls := by
    refine (List.map_congr_left (fun l hl => ?_)).trans ls.map_id
    have hstop := stop_le_of_mem_front h hl
    rw [Lexeme.relocate, Span.makeRoom, if_pos hstop]
    rfl
  have hback : ms.map (Lexeme.relocate
      (Span.makeRoom (byteLength (ls.flatMap Lexeme.text)) (byteLength gap))) =
        lexFrom (byteLength (ls.flatMap Lexeme.text) + byteLength gap) s := by
    have hshift := lexFrom_shift (n := 0 + byteLength (ls.flatMap Lexeme.text))
      (d := byteLength gap) (by omega) s
    rw [← hms] at hshift
    have hplace : shift (0 + byteLength (ls.flatMap Lexeme.text)) (byteLength gap) =
        byteLength (ls.flatMap Lexeme.text) + byteLength gap := by
      unfold shift
      omega
    rw [← hplace, hshift]
    refine List.map_congr_left (fun l hl => ?_)
    have hstop := Nat.not_le.mpr (lt_stop_of_mem_back h hl)
    rw [Lexeme.relocate, Span.makeRoom, if_neg hstop]
    rfl
  rw [solidLexemes_gap_between h hclosed hgap hne, ← solidLexemes_map_relocate, h, List.map_append,
    hfront, hback, solidLexemes_append]

/-! ## texts with room made -/

theorem Edit.apply_insert (front gap back : Text) :
    (insert (byteLength front) gap).apply (front ++ back) = front ++ (gap ++ back) := by
  show takeBytes (byteLength front) (front ++ back) ++ gap ++
    dropBytes (byteLength front) (front ++ back) = _
  rw [takeBytes_byteLength_append, dropBytes_byteLength_append, List.append_assoc]

/-- lexemes in front of an offset are closed, but for one at the end of the text -/
theorem closed_of_getLast? {s : Text} {ls ms : List Lexeme} (h : lex s = ls ++ ms)
    (hopen : byteLength (ls.flatMap Lexeme.text) = byteLength s →
      ∀ l ∈ (lex s).getLast?, l.kind ≠ .unclosedLiteral) :
    ∀ l ∈ ls.getLast?, l.kind ≠ .unclosedLiteral := by
  intro l hl hk
  cases ms with
  | nil =>
    have htext := flatMap_text_lex s
    rw [h, List.append_nil] at htext
    rw [List.append_nil] at h
    exact hopen (congrArg byteLength htext) l (h ▸ hl) hk
  | cons m ms =>
    have hends := ends_of_getLast? h l hl
    rw [hk] at hends
    have hm : m ∈ lex s := h ▸ List.mem_append_right ls List.mem_cons_self
    have hshape := (Lexeme.standsIn_of_mem_lex hm).shape
    exact hshape.ne_nil (List.head?_eq_none_iff.mp hends)

/-- **Blanks make no difference.**  With a gap put in at the start of a text or where a token ends,
but not into a literal that is not closed, its tokens other than blanks stay as they are, and those
behind the gap move by its length. -/
theorem Query.solidTokens_insert (reg : Registry) {s gap : Text} {offset : Nat} (hgap : IsGap gap)
    (hne : gap ≠ []) (hoffset : offset = 0 ∨ ∃ t ∈ (ofText reg s).tokens, t.span.stop = offset)
    (hopen : offset = byteLength s → ∀ l ∈ (lex s).getLast?, l.kind ≠ .unclosedLiteral) :
    (∀ t ∈ (ofText reg s).tokens, t.span.stop ≤ offset ∨ offset ≤ t.span.start) ∧
      solidTokens (ofText reg ((Edit.insert offset gap).apply s)).tokens =
        (solidTokens (ofText reg s).tokens).map
          (Token.relocate (Span.makeRoom offset (byteLength gap))) := by
  have hlexed := lexed_ofText reg s
  obtain ⟨ls, ms, hlex, rfl⟩ : ∃ ls ms, lex s = ls ++ ms ∧
      byteLength (ls.flatMap Lexeme.text) = offset := by
    rcases hoffset with rfl | hstop
    · exact ⟨[], lex s, rfl, rfl⟩
    · obtain ⟨ls, ms, hlex, -, hlength⟩ := hlexed.exists_stop_iff.mp hstop
      exact ⟨ls, ms, hlex, hlength⟩
  obtain ⟨r, hs, hms⟩ := lexFrom_eq_append hlex
  subst hs
  have hclosed := closed_of_getLast? hlex hopen
  constructor
  · intro t ht
    obtain ⟨l, hl, hspan⟩ := hlexed.exists_span ht
    rw [hlex] at hl
    rw [← hspan]
    rcases List.mem_append.mp hl with hl | hl
    · exact .inl (stop_le_of_mem_front hlex hl)
    · exact .inr (le_start_of_mem_back hlex hl)
  · rw [Edit.apply_insert, solidTokens_ofText, solidTokens_ofText,
      solidLexemes_insert hlex hclosed hgap hne, Registry.judgeAll_map_relocate]
    exact settle_map_relocate 0 _ _

/-- a no-break space between a literal and the word that touches it -/
theorem Query.solidTokens_insert_literal :
    let s : Text := "(src_ip=\"a\"and dst_port<80)".toList
    let gap : Text := ['\u00a0']
    IsGap gap ∧ gap ≠ [] ∧ (11 = 0 ∨ ∃ t ∈ (ofText .builtin s).tokens, t.span.stop = 11) ∧
      (11 = byteLength s → ∀ l ∈ (lex s).getLast?, l.kind ≠ .unclosedLiteral) ∧
      (∀ t ∈ (ofText .builtin s).tokens, t.span.stop ≤ 11 ∨ 11 ≤ t.span.start) ∧
      solidTokens (ofText .builtin ((Edit.insert 11 gap).apply s)).tokens =
        (solidTokens (ofText .builtin s).tokens).map
          (Token.relocate (Span.makeRoom 11 (byteLength gap))) := by
  intro s gap
  have hgap : IsGap gap := by decide
  have hoffset : 11 = 0 ∨ ∃ t ∈ (ofText .builtin s).tokens, t.span.stop = 11 := by decide +kernel
  have hopen : 11 = byteLength s → ∀ l ∈ (lex s).getLast?, l.kind ≠ .unclosedLiteral :=
    fun h => absurd h (by decide)
  exact ⟨hgap, by decide, hoffset, hopen,
    solidTokens_insert .builtin hgap (by decide) hoffset hopen⟩

end FilterQuery
