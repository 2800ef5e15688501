import FilterQuery.Proofs.Shapes

/-!
# The one division of a text into lexemes

* `Text.slice`             the part of a text that a span covers;
* `Lexeme.StandsIn s l`    the lexeme is a part of `s`, between two boundaries, with the shape of its
  kind, and ends in front of what follows it;
* `Contiguous n m ls`      the spans of `ls` lead from the offset `n` to the offset `m` without a gap;
* `Divides s ls`           the lexemes `ls` cover `s` so, told by offsets and shapes, without the lexer;
* `Shape.not_longer`       no more of a text than its first lexeme takes has the shape of any kind;
* `eq_lexFrom_of_standsIn` shapes and ends leave no choice, from any lexeme on;
* `divides_iff_eq_lex`     so the lexemes of a text are its only division.
-/

namespace FilterQuery
open Text

/-! ## parts of a text -/

namespace Text

/-- the part of a text that a span covers -/
def slice (s : Text) (a : Span) : Text := (s.dropBytes a.start).takeBytes a.length

theorem slice_append (front w back : Text) :
    (front ++ w ++ back).slice ⟨byteLength front, byteLength (front ++ w)⟩ = w := by
  have hlen : byteLength (front ++ w) - byteLength front = byteLength w := by
    rw [byteLength_append]
    omega
  show takeBytes (byteLength (front ++ w) - byteLength front) (dropBytes _ _) = w
  rw [hlen, List.append_assoc, dropBytes_byteLength_append, takeBytes_byteLength_append]

theorem exists_slice {s : Text} {a : Span} (hstart : s.IsBoundary a.start)
    (hstop : s.IsBoundary a.stop) (hle : a.start ≤ a.stop) :
    ∃ front back, s = front ++ s.slice a ++ back ∧
      a = ⟨byteLength front, byteLength (front ++ s.slice a)⟩ := by
  obtain ⟨start, stop⟩ := a
  obtain ⟨front, rest, hs, rfl⟩ := (isBoundary_iff s start).mp hstart
  obtain ⟨upTo, back, hs', rfl⟩ := (isBoundary_iff s stop).mp hstop
  obtain ⟨w, rfl, -⟩ := exists_of_append_eq_append (hs.symm.trans hs') hle
  have hw := slice_append front w back
  rw [← hs'] at hw
  exact ⟨front, back, by rw [hw, hs'], by rw [hw]⟩

end Text

/-! ## one lexeme -/

namespace Lexeme

/-- **What makes a lexeme of a text**, told by its offsets and its shape. -/
structure StandsIn (s : Text) (l : Lexeme) : Prop where
  start_lt_stop : l.span.start < l.span.stop
  start_boundary : s.IsBoundary l.span.start
  stop_boundary : s.IsBoundary l.span.stop
  text_eq : l.text = s.slice l.span
  shape : l.kind.Shape l.text
  ends : l.kind.Ends l.text (s.dropBytes l.span.stop).head?

/-- the same told by the text in front of the lexeme and the text behind it -/
theorem standsIn_iff {s : Text} {l : Lexeme} :
    l.StandsIn s ↔ ∃ front back, s = front ++ l.text ++ back ∧
      l.span = ⟨byteLength front, byteLength (front ++ l.text)⟩ ∧
      l.kind.Shape l.text ∧ l.kind.Ends l.text back.head? := by
  constructor
  · rintro ⟨hlt, hstart, hstop, htext, hshape, hends⟩
    obtain ⟨front, back, hs, hspan⟩ := exists_slice hstart hstop (Nat.le_of_lt hlt)
    rw [← htext] at hs hspan
    have hback : s.dropBytes l.span.stop = back := by
      rw [hspan, hs, dropBytes_byteLength_append]
    exact ⟨front, back, hs, hspan, hshape, hback ▸ hends⟩
  · rintro ⟨front, back, hs, hspan, hshape, hends⟩
    have hpos := byteLength_pos hshape.ne_nil
    constructor
    · rw [hspan, byteLength_append]
      exact Nat.lt_add_of_pos_right hpos
    · rw [hspan]
      exact (isBoundary_iff s _).mpr ⟨front, l.text ++ back, by rw [hs, List.append_assoc], rfl⟩
    · rw [hspan]
      exact (isBoundary_iff s _).mpr ⟨front ++ l.text, back, hs, rfl⟩
    · rw [hspan, hs, slice_append]
    · exact hshape
    · rw [hspan, hs, dropBytes_byteLength_append]
      exact hends

theorem standsIn_of_mem_lex {s : Text} {l : Lexeme} (h : l ∈ lex s) : l.StandsIn s := by
  obtain ⟨ls, ms, hlex⟩ := List.append_of_mem h
  obtain ⟨r, hs, hr⟩ := lexFrom_eq_append hlex
  obtain ⟨back, rfl, hshape, hends, hspan, -⟩ := shape_of_lexFrom hr.symm
  refine standsIn_iff.mpr ⟨ls.flatMap Lexeme.text, back, ?_, ?_, hshape, hends⟩
  · rw [hs, List.append_assoc]
  · rw [hspan, byteLength_append, Nat.zero_add]

theorem Kind.ends_none (k : Kind) (w : Text) : k.Ends w none := by
  cases k <;> simp [Ends]

/-- **No more of a text than its first lexeme takes** has the shape of a lexeme. -/
theorem Kind.Shape.not_longer {k : Kind} {w x : Text} (h : k.Shape w) (he : k.Ends w x.head?)
    {more : Text} (hne : more ≠ []) (hmore : more <+: x) (k' : Kind) : ¬ k'.Shape (w ++ more) := by
  intro h'
  obtain ⟨c, r, rfl⟩ := List.exists_cons_of_ne_nil h.ne_nil
  obtain ⟨y, rfl⟩ := hmore
  rw [List.head?_append_of_ne_nil _ hne] at he
  -- on the longer text alone the lexer would take the shorter lexeme and the longer one
  have hshort : munch c (r ++ more) = ⟨k, c :: r, more⟩ := munch_of_shape h he
  have hlong : munch c (r ++ more ++ []) = ⟨k', c :: (r ++ more), []⟩ :=
    munch_of_shape h' (k'.ends_none _)
  rw [List.append_nil, hshort] at hlong
  exact hne (congrArg Munch.rest hlong)

end Lexeme

/-! ## many lexemes -/

/-- The spans lead from one offset to another, each from where the one in front of it ends. -/
def Contiguous : Nat → Nat → List Lexeme → Prop
  | start, stop, [] => start = stop
  | start, stop, l :: ls => l.span.start = start ∧ Contiguous l.span.stop stop ls

theorem contiguous_lexFrom (n : Nat) (s : Text) : Contiguous n (n + byteLength s) (lexFrom n s) := by
  fun_induction lexFrom n s with
  | case1 n => rfl
  | case2 n c s m l ih =>
    have hstop : l.span.stop + byteLength m.rest = n + byteLength (c :: s) := by
      rw [← munch_text_append_rest c s, byteLength_append, ← Nat.add_assoc]
      rfl
    rw [hstop] at ih
    exact ⟨rfl, ih⟩

theorem length_lexFrom_le (n : Nat) (s : Text) : (lexFrom n s).length ≤ s.length := by
  fun_induction lexFrom n s with
  | case1 n => exact Nat.le_refl _
  | case2 n c s m l ih =>
    have hrest := munch_rest_length_le c s
    exact Nat.succ_le_succ (Nat.le_trans ih hrest)

/-- **What makes a division of a text into lexemes.** -/
structure Divides (s : Text) (ls : List Lexeme) : Prop where
  contiguous : Contiguous 0 (byteLength s) ls
  standsIn : ∀ l ∈ ls, l.StandsIn s

theorem divides_lex (s : Text) : Divides s (lex s) where
  contiguous := by
    have h := contiguous_lexFrom 0 s
    rwa [Nat.zero_add] at h
  standsIn _ h := Lexeme.standsIn_of_mem_lex h

/-- the lexemes behind any part of a text are those that the lexer reads there -/
theorem eq_lexFrom_of_standsIn (front : Text) {rest : Text} {ls : List Lexeme}
    (hc : Contiguous (byteLength front) (byteLength (front ++ rest)) ls)
    (h : ∀ l ∈ ls, l.StandsIn (front ++ rest)) : ls = lexFrom (byteLength front) rest := by
  induction ls generalizing front rest with
  | nil =>
    have hlen : byteLength front = byteLength (front ++ rest) := hc
    rw [byteLength_append] at hlen
    have hrest : rest = [] := byteLength_eq_zero.mp (by omega)
    rw [hrest, lexFrom_nil]
  | cons l ls ih =>
    obtain ⟨hstart, hc⟩ := hc
    obtain ⟨hl, hls⟩ := List.forall_mem_cons.mp h
    obtain ⟨front', back, hs, hspan, hshape, hends⟩ := Lexeme.standsIn_iff.mp hl
    rw [hspan] at hstart hc
    rw [List.append_assoc] at hs
    obtain ⟨rfl, rfl⟩ := append_inj_of_byteLength hs hstart.symm
    rw [← List.append_assoc] at hc hls
    rw [lexFrom_append_of_shape _ hshape hends, ← byteLength_append, ← ih _ hc hls, ← hspan]

/-! ## whole texts -/

/-- **The lexemes of a text are its only division**, and each of them is as long as it can be.  There
are no more of them than characters, and the tokens that they become spell out the text. -/
theorem divides_iff_eq_lex (s : Text) :
    (∀ ls, Divides s ls ↔ ls = lex s) ∧
      (∀ l ∈ lex s, ∀ more, more ≠ [] → more <+: s.dropBytes l.span.stop →
        ∀ k : Lexeme.Kind, ¬ k.Shape (l.text ++ more)) ∧
      (lex s).length ≤ s.length ∧
      ∀ reg, (Query.ofText reg s).render = s := by
  refine ⟨fun ls => ⟨fun h => ?_, ?_⟩, fun l hl more hne hmore => ?_, length_lexFrom_le 0 s,
    fun reg => Query.render_ofText reg s⟩
  · exact eq_lexFrom_of_standsIn [] h.contiguous h.standsIn
  · rintro rfl
    exact divides_lex s
  · have hstands := Lexeme.standsIn_of_mem_lex hl
    exact hstands.shape.not_longer hstands.ends hne hmore

end FilterQuery
