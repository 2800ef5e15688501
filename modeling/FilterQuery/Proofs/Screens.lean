import FilterQuery.Proofs.Carets
import FilterQuery.Terminal.Screen

/-!
# Painted text on a screen

* `readSequence?_start`    a colour sequence is read back, whatever follows it;
* `readSequence?_of_ne`    no character but one opens a sequence;
* `Screen.feed_around`     a text in a colour is printed in that colour, which is then left;
* `Screen.feed_paint`      so it is with many tokens;
* `Palette.paint_shown`    a painted text shows every character in the colour of its token.
-/

namespace FilterQuery
open Text

/-! ## sequences -/

theorem byteOfDigits?_decimal (b : UInt8) : byteOfDigits? (decimal b.toNat) = some b := by
  have hvalue : Nat.ofDigitChars 10 (decimal b.toNat) 0 = b.toNat :=
    Nat.ofDigitChars_toDigits (by decide) (by decide)
  unfold byteOfDigits?
  rw [hvalue, if_pos ⟨Nat.toDigits_ne_nil, b.toNat_lt⟩, UInt8.ofNat_toNat]

theorem readByte?_decimal (b : UInt8) {mark : Char} (hmark : mark.isDigit = false) (x : Text) :
    readByte? mark (decimal b.toNat ++ mark :: x) = some (b, x) := by
  have hdigits : ∀ c ∈ decimal b.toNat, c.isDigit = true :=
    fun _ hc => Nat.isDigit_of_mem_toDigits (by decide) (by decide) hc
  have htake : (decimal b.toNat ++ mark :: x).takeWhile Char.isDigit = decimal b.toNat := by
    rw [List.takeWhile_append_of_pos hdigits, List.takeWhile_cons_of_neg (by simp [hmark]),
      List.append_nil]
  have hdrop : (decimal b.toNat ++ mark :: x).dropWhile Char.isDigit = mark :: x := by
    rw [List.dropWhile_append_of_pos hdigits, List.dropWhile_cons_of_neg (by simp [hmark])]
  have hafter : after? [mark] (mark :: x) = some x := after?_eq_some_iff.mpr rfl
  unfold readByte?
  rw [htake, hdrop, byteOfDigits?_decimal, hafter]
  rfl

theorem readColor?_start (c : Color) (x : Text) : readColor? (c.start ++ x) = some (c, x) := by
  have hparts : c.start ++ x = "\x1b[38;2;".toList ++ (decimal c.red.toNat ++ ';' ::
      (decimal c.green.toNat ++ ';' :: (decimal c.blue.toNat ++ 'm' :: x))) := by
    unfold Color.start
    simp only [List.append_assoc, List.cons_append, List.nil_append]
  have hsemicolon : Char.isDigit ';' = false := rfl
  have hm : Char.isDigit 'm' = false := rfl
  unfold readColor?
  rw [after?_eq_some_iff.mpr hparts]
  simp only [Option.bind_eq_bind, Option.bind_some, readByte?_decimal _ hsemicolon,
    readByte?_decimal _ hm]
  rfl

/-- **A colour sequence is read back**, whatever follows it. -/
theorem readSequence?_start (c : Color) (x : Text) :
    readSequence? (c.start ++ x) = some (some c, x) := by
  have hreset : after? "\x1b[0m".toList (c.start ++ x) = none := by
    unfold Color.start
    rfl
  unfold readSequence?
  rw [hreset, readColor?_start]
  rfl

theorem readSequence?_plain (x : Text) : readSequence? (plain ++ x) = some (none, x) := by
  unfold readSequence?
  rw [show after? "\x1b[0m".toList (plain ++ x) = some x from after?_eq_some_iff.mpr rfl]

theorem readSequence?_of_ne {c : Char} (h : c ≠ '\x1b') (s : Text) :
    readSequence? (c :: s) = none := by
  have hno : ∀ beginning : Text, beginning.head? = some '\x1b' →
      after? beginning (c :: s) = none := by
    intro beginning hhead
    obtain ⟨r, rfl⟩ := List.head?_eq_some_iff.mp hhead
    refine Option.eq_none_iff_forall_ne_some.mpr (fun rest hrest => ?_)
    exact h (List.cons.inj (after?_eq_some_iff.mp hrest)).1
  unfold readSequence? readColor?
  rw [hno _ rfl, hno _ rfl]
  rfl

/-! ## printing -/

namespace Screen
variable (a : Screen)

theorem print_print (s t : Text) : (a.print s).print t = a.print (s ++ t) := by
  unfold print
  rw [List.map_append, List.append_assoc]

theorem feed_of_sequence {s rest : Text} {color : Option Color}
    (h : readSequence? s = some (color, rest)) :
    a.feed s = feed { a with color := color } rest := by
  cases s with
  | nil =>
    have hnil : readSequence? [] = none := rfl
    exact absurd (hnil.symm.trans h) (by simp)
  | cons c s =>
    rw [feed]
    split
    · next hsome =>
      obtain ⟨rfl, rfl⟩ := Prod.mk.inj (Option.some.inj (h.symm.trans hsome))
      rfl
    · next hnone => exact absurd (h.symm.trans hnone) (by simp)

theorem feed_cons_of_ne {c : Char} (h : c ≠ '\x1b') (s : Text) :
    a.feed (c :: s) = (a.print [c]).feed s := by
  rw [feed]
  split
  · next hsome => exact absurd (hsome.symm.trans (readSequence?_of_ne h s)) (by simp)
  · rfl

/-- **Text without an escape character is printed**, whatever follows it. -/
theorem feed_append {s : Text} (h : '\x1b' ∉ s) (x : Text) :
    a.feed (s ++ x) = (a.print s).feed x := by
  induction s generalizing a with
  | nil =>
    unfold print
    rw [List.map_nil, List.append_nil]
    rfl
  | cons c s ih =>
    rw [List.mem_cons, not_or] at h
    obtain ⟨hc, hs⟩ := h
    rw [List.cons_append, feed_cons_of_ne a (Ne.symm hc), ih _ hs, print_print]
    rfl

/-- **A text in a colour** is printed in it, and leaves the colour that the terminal has. -/
theorem feed_around (cells : List Cell) (color : Option Color) {s : Text} (h : '\x1b' ∉ s)
    (x : Text) :
    feed ⟨cells, none⟩ (Color.around color s ++ x) =
      feed ⟨cells ++ s.map (fun c => ⟨c, color⟩), none⟩ x := by
  cases color with
  | none => exact feed_append ⟨cells, none⟩ h x
  | some c =>
    show feed _ (c.start ++ s ++ plain ++ x) = _
    rw [List.append_assoc, List.append_assoc, feed_of_sequence _ (readSequence?_start c _),
      feed_append _ h, feed_of_sequence _ (readSequence?_plain x)]
    rfl

end Screen

/-! ## tokens -/

/-- what is to be seen of a token -/
def Palette.cells (p : Palette) (t : Token) : List Cell := t.text.map (fun c => ⟨c, p.color t⟩)

theorem Palette.flatMap_cells (p : Palette) (ts : List Token) :
    (ts.flatMap p.cells).map Cell.character = ts.flatMap Token.text := by
  rw [List.map_flatMap]
  refine List.flatMap_congr (fun t _ => ?_)
  unfold cells
  rw [List.map_map]
  exact List.map_id _

/-- **Painted tokens** are shown one behind the other, each in its colour. -/
theorem Screen.feed_paint (p : Palette) (cells : List Cell) {ts : List Token}
    (h : '\x1b' ∉ ts.flatMap Token.text) :
    feed ⟨cells, none⟩ (ts.flatMap (fun t => Color.around (p.color t) t.text)) =
      ⟨cells ++ ts.flatMap p.cells, none⟩ := by
  induction ts generalizing cells with
  | nil =>
    rw [List.flatMap_nil, List.flatMap_nil, List.append_nil, feed]
  | cons t ts ih =>
    rw [List.flatMap_cons, List.mem_append, not_or] at h
    rw [List.flatMap_cons, feed_around cells (p.color t) h.1, ih _ h.2, List.flatMap_cons,
      ← List.append_assoc]
    rfl

theorem Lexed.flatMap_text {ls : List Lexeme} {ts : List Token} (h : Lexed ls ts) :
    ts.flatMap Token.text = ls.flatMap Lexeme.text := by
  have htexts := congrArg (List.map Prod.fst) h
  rw [List.map_map, List.map_map] at htexts
  rw [List.flatMap_def, List.flatMap_def]
  exact congrArg List.flatten htexts

/-- the part of a text that is a token -/
theorem Query.exists_parts {reg : Registry} {s : Text} {ts us : List Token} {t : Token}
    (h : (ofText reg s).tokens = ts ++ t :: us) :
    s = ts.flatMap Token.text ++ (t.text ++ us.flatMap Token.text) ∧
      t.span =
        ⟨byteLength (ts.flatMap Token.text), byteLength (ts.flatMap Token.text ++ t.text)⟩ := by
  have hs := render_ofText reg s
  unfold render at hs
  rw [h, List.flatMap_append, List.flatMap_cons] at hs
  have hlexed := lexed_ofText reg s
  rw [h] at hlexed
  obtain ⟨ls, ms, hlex, hfront, hrest⟩ := hlexed.split
  cases ms with
  | nil => exact absurd hrest (List.cons_ne_nil _ _)
  | cons l ms =>
    obtain ⟨htext, hspan⟩ := hrest.cons_cons
    obtain ⟨hstart, hstop⟩ := start_eq_of_lexFrom hlex
    rw [Nat.zero_add, ← hfront.flatMap_text] at hstart
    refine ⟨hs.symm, ?_⟩
    rw [hspan, byteLength_append, htext, ← hstart, ← hstop]

theorem Palette.getElem?_cells (p : Palette) {reg : Registry} {front back : Text} {c : Char}
    {t : Token} (ht : t ∈ (Query.ofText reg (front ++ c :: back)).tokens)
    (hstart : t.span.start ≤ byteLength front) (hstop : byteLength front < t.span.stop) :
    ((Query.ofText reg (front ++ c :: back)).tokens.flatMap p.cells)[front.length]? =
      some ⟨c, p.color t⟩ := by
  obtain ⟨ts, us, htokens⟩ := List.append_of_mem ht
  obtain ⟨hs, hspan⟩ := Query.exists_parts htokens
  rw [hspan] at hstart hstop
  -- the character is one of the token
  obtain ⟨m, rfl, hm⟩ := exists_of_append_eq_append hs.symm hstart
  simp only [byteLength_append] at hstop
  obtain ⟨w, hw, hback⟩ := exists_of_append_eq_append hm.symm (by omega)
  cases w with
  | nil =>
    rw [hw, List.append_nil] at hstop
    exact absurd hstop (Nat.lt_irrefl _)
  | cons d w =>
    obtain rfl := (List.cons.inj hback).1
    have hcells : p.cells t = m.map (fun c => ⟨c, p.color t⟩) ++
        ⟨c, p.color t⟩ :: w.map (fun c => ⟨c, p.color t⟩) := by
      unfold cells
      rw [hw, List.map_append, List.map_cons]
    have hlength := congrArg List.length (p.flatMap_cells ts)
    rw [List.length_map] at hlength
    have hindex : (ts.flatMap Token.text ++ m).length =
        (ts.flatMap p.cells ++ m.map (fun c => (⟨c, p.color t⟩ : Cell))).length := by
      rw [List.length_append, List.length_append, List.length_map, hlength]
    rw [htokens, List.flatMap_append, List.flatMap_cons, hcells, List.append_assoc,
      ← List.append_assoc, hindex]
    exact getElem?_append_length _ _ _

/-- **Painting keeps the text and leaves no colour behind.**  Given a painted text without an escape
character, a terminal shows that text, each character in the colour of the token that it belongs to,
and is then back to its own colour. -/
theorem Palette.paint_shown (p : Palette) (reg : Registry) {s : Text} (h : '\x1b' ∉ s) :
    let q := Query.ofText reg s
    let a := Screen.empty.feed (p.paint q)
    a.text = s ∧ a.color = none ∧
    ∀ front c back, s = front ++ c :: back →
      (∃ t ∈ q.tokens, t.span.start ≤ byteLength front ∧ byteLength front < t.span.stop) ∧
      ∀ t ∈ q.tokens, t.span.start ≤ byteLength front → byteLength front < t.span.stop →
        a.cells[front.length]? = some ⟨c, p.color t⟩ := by
  intro q a
  have hrender : q.tokens.flatMap Token.text = s := Query.render_ofText reg s
  have ha : a = ⟨q.tokens.flatMap p.cells, none⟩ :=
    Screen.feed_paint p [] (by rwa [hrender])
  rw [ha]
  refine ⟨(p.flatMap_cells q.tokens).trans hrender, rfl, ?_⟩
  rintro front c back rfl
  constructor
  · -- a caret one byte further on touches the token
    have hlength : byteLength front + 1 ≤ byteLength (front ++ c :: back) := by
      have hpos := c.utf8Size_pos
      rw [byteLength_append, byteLength_cons]
      omega
    have hsome := (Query.isSome_tokenAt_iff (Query.lexed_ofText reg (front ++ c :: back))).mpr
      ⟨Nat.succ_pos _, hlength⟩
    obtain ⟨⟨i, t⟩, ht⟩ := Option.isSome_iff_exists.mp hsome
    obtain ⟨hget, hlow, hhigh⟩ := Query.tokenAt_touches ht
    exact ⟨t, List.mem_of_getElem? hget, Nat.le_of_lt_succ hlow, hhigh⟩
  · intro t ht
    exact p.getElem?_cells ht

/-- a text that looks like colour sequences, but for their escape character -/
theorem Palette.paint_shown_codes :
    let s := "([38;2;1;2;3m<=é0m) \"[0m".toList
    '\x1b' ∉ s ∧
      let q := Query.ofText .builtin s
      let a := Screen.empty.feed (default.paint q)
      a.text = s ∧ a.color = none ∧
      ∀ front c back, s = front ++ c :: back →
        (∃ t ∈ q.tokens, t.span.start ≤ byteLength front ∧ byteLength front < t.span.stop) ∧
        ∀ t ∈ q.tokens, t.span.start ≤ byteLength front → byteLength front < t.span.stop →
          a.cells[front.length]? = some ⟨c, default.color t⟩ :=
  ⟨by decide, paint_shown default .builtin (by decide)⟩

end FilterQuery
