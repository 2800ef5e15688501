import FilterQuery.Proofs.Lookahead
import FilterQuery.Proofs.Phrases
import Mathlib.Data.List.Basic

/-!
# The shapes of lexemes

What a lexeme of each kind looks like and what may stand behind it, told without the lexer.

* `spaces`, `wordEnds`          the characters of blanks, and those that words end in front of;
* `Lexeme.Kind.Shape k w`       `w` is the text of a lexeme of kind `k`;
* `Lexeme.Kind.Ends k w next`   it ends in front of the character `next`, or of the end of the text;
* `munch_eq_iff`                the lexer takes a lexeme off a text exactly if it has its shape and
  ends there: shape and end leave no choice;
* `isWord_iff`                  the texts that read back as one word;
* `wordTail x`                  what a word in front of a text takes on from it;
* `lexFrom_exchange`            lexemes that end at a seam stay as they are when other text is put
  behind it, if the last of them ends in front of that text as well.
-/

namespace FilterQuery
open Text

/-! ## characters -/

/-- what a blank is made of -/
def spaces : List Char := [' ', '\u00a0']

/-- what a word ends in front of -/
def wordEnds : List Char := [' ', '\u00a0', '(', ')', '<', '=', '>']

theorem isSpace_iff {c : Char} : isSpace c ↔ c ∈ spaces := by simp [isSpace, spaces]

theorem endsWord_iff {c : Char} : endsWord c ↔ c ∈ wordEnds := by
  simp [endsWord, isSpace, wordEnds, or_assoc]

theorem isSpace_eq_false_iff {c : Char} : isSpace c = false ↔ c ∉ spaces :=
  Bool.eq_false_iff.trans (not_congr isSpace_iff)

theorem endsWord_eq_false_iff {c : Char} : endsWord c = false ↔ c ∉ wordEnds :=
  Bool.eq_false_iff.trans (not_congr endsWord_iff)

theorem spaces_subset_wordEnds : spaces ⊆ wordEnds := by decide

/-! ## shapes -/

namespace Lexeme.Kind

def Shape : Kind → Text → Prop
  | .blank, w => w ≠ [] ∧ ∀ c ∈ w, c ∈ spaces
  | .openParen, w => w = ['(']
  | .closeParen, w => w = [')']
  | .operator, w => w ∈ comparisons
  | .literal, w => ∃ content, '"' ∉ content ∧ w = '"' :: content ++ ['"']
  | .unclosedLiteral, w => ∃ content, '"' ∉ content ∧ w = '"' :: content
  | .word, w => w ≠ [] ∧ w.head? ≠ some '"' ∧ ∀ c ∈ w, c ∉ wordEnds

def Ends : Kind → Text → Option Char → Prop
  | .blank, _, next => ∀ c ∈ next, c ∉ spaces
  | .operator, w, next => w = ['<'] ∨ w = ['>'] → next ≠ some '='
  | .unclosedLiteral, _, next => next = none
  | .word, _, next => ∀ c ∈ next, c ∈ wordEnds
  | .openParen, _, _ | .closeParen, _, _ | .literal, _, _ => True

theorem Shape.ne_nil {k : Kind} {w : Text} (h : k.Shape w) : w ≠ [] := by
  cases k with
  | blank => exact h.1
  | word => exact h.1
  | openParen => rw [h]; exact List.cons_ne_nil _ _
  | closeParen => rw [h]; exact List.cons_ne_nil _ _
  | operator =>
    rintro rfl
    exact absurd (show [] ∈ comparisons from h) (by decide)
  | literal =>
    obtain ⟨content, -, rfl⟩ := h
    exact List.cons_ne_nil _ _
  | unclosedLiteral =>
    obtain ⟨content, -, rfl⟩ := h
    exact List.cons_ne_nil _ _

theorem Shape.head_mem_wordEnds {k : Kind} {w : Text} (h : k.Shape w) (hw : k ≠ .word)
    (hl : k ≠ .literal) (hu : k ≠ .unclosedLiteral) : ∀ c ∈ w.head?, c ∈ wordEnds := by
  intro c hc
  obtain ⟨r, rfl⟩ := List.head?_eq_some_iff.mp hc
  cases k with
  | blank => exact spaces_subset_wordEnds (h.2 c List.mem_cons_self)
  | openParen => obtain ⟨rfl, -⟩ := List.cons.inj (show c :: r = _ from h); decide
  | closeParen => obtain ⟨rfl, -⟩ := List.cons.inj (show c :: r = _ from h); decide
  | operator => rcases head_of_mem_comparisons h with rfl | rfl | rfl <;> decide
  | literal => exact absurd rfl hl
  | unclosedLiteral => exact absurd rfl hu
  | word => exact absurd rfl hw

theorem Shape.head_not_mem_spaces {k : Kind} {w : Text} (h : k.Shape w) (hb : k ≠ .blank) :
    ∀ c ∈ w.head?, c ∉ spaces := by
  intro c hc
  obtain ⟨r, rfl⟩ := List.head?_eq_some_iff.mp hc
  cases k with
  | blank => exact absurd rfl hb
  | openParen => obtain ⟨rfl, -⟩ := List.cons.inj (show c :: r = _ from h); decide
  | closeParen => obtain ⟨rfl, -⟩ := List.cons.inj (show c :: r = _ from h); decide
  | operator => rcases head_of_mem_comparisons h with rfl | rfl | rfl <;> decide
  | literal =>
    obtain ⟨content, -, hw⟩ := h
    obtain ⟨rfl, -⟩ := List.cons.inj hw
    decide
  | unclosedLiteral =>
    obtain ⟨content, -, hw⟩ := h
    obtain ⟨rfl, -⟩ := List.cons.inj hw
    decide
  | word => exact fun hc => h.2.2 c List.mem_cons_self (spaces_subset_wordEnds hc)

theorem Shape.eq_operator {k : Kind} {r : Text} (h : k.Shape ('=' :: r)) : k = .operator := by
  cases k with
  | operator => rfl
  | blank => exact absurd (h.2 '=' List.mem_cons_self) (by decide)
  | openParen => exact absurd (List.cons.inj (show '=' :: r = _ from h)).1 (by decide)
  | closeParen => exact absurd (List.cons.inj (show '=' :: r = _ from h)).1 (by decide)
  | literal =>
    obtain ⟨content, -, hw⟩ := h
    exact absurd (List.cons.inj hw).1 (by decide)
  | unclosedLiteral =>
    obtain ⟨content, -, hw⟩ := h
    exact absurd (List.cons.inj hw).1 (by decide)
  | word => exact absurd (by decide) (h.2.2 '=' List.mem_cons_self)

/-- what occurs in a word is a word or quoted -/
theorem Shape.of_infix_word {k : Kind} {w name : Text} (h : k.Shape w) (hname : Kind.word.Shape name)
    (hpart : w <:+: name) : k = .word ∨ k = .literal ∨ k = .unclosedLiteral := by
  by_contra hno
  simp only [not_or] at hno
  obtain ⟨hw, hl, hu⟩ := hno
  obtain ⟨c, r, rfl⟩ := List.exists_cons_of_ne_nil h.ne_nil
  exact hname.2.2 c (hpart.subset List.mem_cons_self) (h.head_mem_wordEnds hw hl hu c rfl)

theorem Shape.word_append {w v : Text} (h : Kind.word.Shape w) (hv : ∀ c ∈ v, c ∉ wordEnds) :
    Kind.word.Shape (w ++ v) := by
  obtain ⟨hne, hq, hall⟩ := h
  refine ⟨List.append_ne_nil_of_left_ne_nil hne v, ?_, List.forall_mem_append.mpr ⟨hall, hv⟩⟩
  rwa [List.head?_append_of_ne_nil _ hne]

/-- What ends in front of a character of a word ends in front of any other one. -/
theorem Ends.exchange {k : Kind} {w : Text} {c d : Char} (h : k.Ends w (some c))
    (hc : c ∉ wordEnds) (hd : d ∉ wordEnds) : k.Ends w (some d) := by
  cases k with
  | blank =>
    intro a ha
    obtain rfl := Option.some.inj ha
    exact fun hspace => hd (spaces_subset_wordEnds hspace)
  | operator =>
    rintro - he
    obtain rfl := Option.some.inj he
    exact hd (by decide)
  | unclosedLiteral => exact absurd h (Option.some_ne_none c)
  | word => exact absurd (h c rfl) hc
  | openParen => trivial
  | closeParen => trivial
  | literal => trivial

theorem ends_of_space {k : Kind} (hblank : k ≠ .blank) (hopen : k ≠ .unclosedLiteral) (w : Text)
    {next : Option Char} (h : ∀ c ∈ next, c ∈ spaces) : k.Ends w next := by
  cases k with
  | blank => exact absurd rfl hblank
  | unclosedLiteral => exact absurd rfl hopen
  | operator => exact fun _ hnext => absurd (h '=' hnext) (by decide)
  | word => exact fun c hc => spaces_subset_wordEnds (h c hc)
  | openParen | closeParen | literal => trivial

/-- words and literals without an end have a character behind them that ends words, if any -/
theorem Ends.mem_wordEnds_behind {k : Kind} {w : Text} {next : Option Char} (h : k.Ends w next)
    (hk : k = .word ∨ k = .literal ∨ k = .unclosedLiteral) (hl : k ≠ .literal) :
    ∀ c ∈ next, c ∈ wordEnds := by
  rcases hk with rfl | rfl | rfl
  · exact h
  · exact absurd rfl hl
  · intro c hc
    rw [show next = none from h] at hc
    exact absurd hc (by simp)

end Lexeme.Kind

/-! ## runs -/

theorem head?_dropWhile_eq_false (p : Char → Bool) (s : Text) :
    ∀ c ∈ (s.dropWhile p).head?, p c = false := by
  intro c hc
  have h := List.head?_dropWhile_not p s
  rw [hc] at h
  exact h

/-- a run ends where it may and not before -/
theorem Munch.run_append_of_head (kind : Lexeme.Kind) {p : Char → Bool} (c : Char) {w x : Text}
    (hw : ∀ a ∈ w, p a) (hx : ∀ a ∈ x.head?, p a = false) :
    run kind p c (w ++ x) = ⟨kind, c :: w, x⟩ := by
  have hrest : x.takeWhile p = [] ∧ x.dropWhile p = x := by
    cases x with
    | nil => exact ⟨rfl, rfl⟩
    | cons a x =>
      have ha : p a = false := hx a rfl
      exact ⟨List.takeWhile_cons_of_neg (by simp [ha]), List.dropWhile_cons_of_neg (by simp [ha])⟩
  show (⟨kind, c :: (w ++ x).takeWhile p, (w ++ x).dropWhile p⟩ : Munch) = _
  rw [List.takeWhile_append_of_pos hw, List.dropWhile_append_of_pos hw, hrest.1, hrest.2,
    List.append_nil]

/-! ## the first character -/

theorem munch_of_isSpace {c : Char} (h : isSpace c) (s : Text) :
    munch c s = .run .blank isSpace c s := by
  unfold munch
  exact if_pos h

theorem munch_of_inequality {c : Char} (h : c = '<' ∨ c = '>') (s : Text) :
    munch c s = .inequality c s := by
  rcases h with rfl | rfl <;> rfl

theorem munch_of_word {c : Char} (hq : c ≠ '"') (h : endsWord c = false) (s : Text) :
    munch c s = .run .word (fun x => !endsWord x) c s := by
  simp only [endsWord, Bool.or_eq_false_iff, decide_eq_false_iff_not] at h
  obtain ⟨⟨⟨⟨⟨h1, h2⟩, h3⟩, h4⟩, h5⟩, h6⟩ := h
  unfold munch
  simp [h1, h2, h3, h4, h5, h6, hq]

/-! ## what the lexer takes -/

/-- the lexeme has the shape of its kind and ends where it may -/
structure Munch.Shaped (m : Munch) : Prop where
  shape : m.kind.Shape m.text
  ends : m.kind.Ends m.text m.rest.head?

namespace Munch

theorem shaped_blank {c : Char} (h : isSpace c) (s : Text) :
    (run .blank isSpace c s).Shaped where
  shape := ⟨List.cons_ne_nil _ _, List.forall_mem_cons.mpr
    ⟨isSpace_iff.mp h, fun _ ha => isSpace_iff.mp (List.mem_takeWhile_imp ha)⟩⟩
  ends c hc := isSpace_eq_false_iff.mp (head?_dropWhile_eq_false isSpace s c hc)

theorem shaped_word {c : Char} (hq : c ≠ '"') (h : endsWord c = false) (s : Text) :
    (run .word (fun x => !endsWord x) c s).Shaped where
  shape := by
    refine ⟨List.cons_ne_nil _ _, by simpa [run] using hq, ?_⟩
    refine List.forall_mem_cons.mpr ⟨endsWord_eq_false_iff.mp h, fun a ha => ?_⟩
    exact endsWord_eq_false_iff.mp (by simpa using List.mem_takeWhile_imp ha)
  ends := by
    intro a ha
    have hend := head?_dropWhile_eq_false (fun x => !endsWord x) s a ha
    exact endsWord_iff.mp (by simpa using hend)

theorem shaped_inequality {c : Char} (h : c = '<' ∨ c = '>') (s : Text) :
    (inequality c s).Shaped := by
  have h1 : [c] ∈ comparisons := by rcases h with rfl | rfl <;> decide
  have h2 : [c, '='] ∈ comparisons := by rcases h with rfl | rfl <;> decide
  unfold inequality
  split
  · refine ⟨h2, ?_⟩
    rintro (h0 | h0) <;> exact absurd (List.cons.inj h0).2 (List.cons_ne_nil _ _)
  · next hs =>
    refine ⟨h1, fun _ hnext => ?_⟩
    obtain ⟨rest, rfl⟩ := List.head?_eq_some_iff.mp hnext
    exact hs rest rfl

theorem shaped_literal (s : Text) : (literal s).Shaped := by
  cases hd : s.dropWhile (· != '"') with
  | nil =>
    rw [literal_of_dropWhile_nil hd]
    have hs : ∀ a ∈ s, (a != '"') = true := List.dropWhile_eq_nil_iff.mp hd
    exact ⟨⟨s, fun hmem => absurd (hs _ hmem) (by decide), rfl⟩, rfl⟩
  | cons q rest =>
    rw [literal_of_dropWhile_cons hd]
    have hq : q = '"' := by
      have h := head?_dropWhile_eq_false (· != '"') s q (by rw [hd]; rfl)
      simpa using h
    subst hq
    exact ⟨⟨_, fun hmem => absurd (List.mem_takeWhile_imp hmem) (by decide), rfl⟩, trivial⟩

end Munch

theorem shaped_munch (c : Char) (s : Text) : (munch c s).Shaped := by
  by_cases h1 : isSpace c
  · rw [munch_of_isSpace h1]
    exact Munch.shaped_blank h1 s
  by_cases h2 : c = '('
  · subst h2
    exact ⟨rfl, trivial⟩
  by_cases h3 : c = ')'
  · subst h3
    exact ⟨rfl, trivial⟩
  by_cases h4 : c = '='
  · subst h4
    refine ⟨show ['='] ∈ comparisons by decide, ?_⟩
    rintro (h | h) <;> exact absurd (show ['='] = _ from h) (by decide)
  by_cases h5 : c = '<' ∨ c = '>'
  · rw [munch_of_inequality h5]
    exact Munch.shaped_inequality h5 s
  by_cases h6 : c = '"'
  · subst h6
    exact Munch.shaped_literal s
  · have h7 : endsWord c = false := by
      simp only [not_or] at h5
      simp [endsWord, h1, h2, h3, h4, h5]
    rw [munch_of_word h6 h7]
    exact Munch.shaped_word h6 h7 s

/-- shape and end leave the lexer no choice -/
theorem munch_of_shape {k : Lexeme.Kind} {c : Char} {w x : Text} (h : k.Shape (c :: w))
    (he : k.Ends (c :: w) x.head?) : munch c (w ++ x) = ⟨k, c :: w, x⟩ := by
  cases k with
  | blank =>
    obtain ⟨hc, hw⟩ := List.forall_mem_cons.mp h.2
    rw [munch_of_isSpace (isSpace_iff.mpr hc)]
    exact Munch.run_append_of_head _ _ (fun a ha => isSpace_iff.mpr (hw a ha))
      (fun a ha => isSpace_eq_false_iff.mpr (he a ha))
  | openParen =>
    obtain ⟨rfl, rfl⟩ := List.cons.inj (show c :: w = _ from h)
    rfl
  | closeParen =>
    obtain ⟨rfl, rfl⟩ := List.cons.inj (show c :: w = _ from h)
    rfl
  | operator =>
    have hmem : c :: w ∈ comparisons := h
    simp only [comparisons, List.mem_cons, List.not_mem_nil, or_false] at hmem
    have hlt : ∀ d, c :: w = [d] → d = '<' ∨ d = '>' → Munch.inequality d x = ⟨.operator, [d], x⟩ := by
      rintro d hd hd'
      have hnext : x.head? ≠ some '=' := he (by rcases hd' with rfl | rfl <;> simp [hd])
      unfold Munch.inequality
      split
      · exact absurd rfl hnext
      · rfl
    rcases hmem with hw | hw | hw | hw | hw <;> obtain ⟨rfl, rfl⟩ := List.cons.inj hw
    · rfl
    · exact hlt '<' rfl (.inl rfl)
    · rfl
    · exact hlt '>' rfl (.inr rfl)
    · rfl
  | literal =>
    obtain ⟨content, hno, htext⟩ := h
    obtain ⟨rfl, hw⟩ := List.cons.inj (show c :: w = '"' :: (content ++ ['"']) from htext)
    subst hw
    have hcontent : ∀ a ∈ content, (a != '"') = true := by
      intro a ha
      simpa using fun h0 : a = '"' => hno (h0 ▸ ha)
    have hd : (content ++ ['"'] ++ x).dropWhile (· != '"') = '"' :: x := by
      rw [List.append_assoc, List.dropWhile_append_of_pos hcontent]
      rfl
    have ht : (content ++ ['"'] ++ x).takeWhile (· != '"') = content := by
      rw [List.append_assoc, List.takeWhile_append_of_pos hcontent]
      exact List.append_nil content
    rw [show munch '"' (content ++ ['"'] ++ x) = _ from Munch.literal_of_dropWhile_cons hd, ht]
    rfl
  | unclosedLiteral =>
    obtain ⟨content, hno, hw⟩ := h
    obtain ⟨rfl, rfl⟩ := List.cons.inj hw
    have hx : x = [] := List.head?_eq_none_iff.mp he
    have hcontent : ∀ a ∈ w, (a != '"') = true := by
      intro a ha
      simpa using fun h0 : a = '"' => hno (h0 ▸ ha)
    rw [hx, List.append_nil]
    exact Munch.literal_of_dropWhile_nil (List.dropWhile_eq_nil_iff.mpr hcontent)
  | word =>
    obtain ⟨-, hq, hall⟩ := h
    obtain ⟨hc, hw⟩ := List.forall_mem_cons.mp hall
    rw [munch_of_word (by simpa using hq) (endsWord_eq_false_iff.mpr hc)]
    refine Munch.run_append_of_head _ _ (fun a ha => ?_) (fun a ha => ?_)
    · simpa using endsWord_eq_false_iff.mpr (hw a ha)
    · simpa using endsWord_iff.mpr (he a ha)

/-- **The lexer takes a lexeme off a text** exactly if the text begins with it, it has the shape of
its kind, and it ends in front of what follows. -/
theorem munch_eq_iff {c : Char} {s : Text} {k : Lexeme.Kind} {w x : Text} :
    munch c s = ⟨k, w, x⟩ ↔ c :: s = w ++ x ∧ k.Shape w ∧ k.Ends w x.head? := by
  constructor
  · intro h
    have htext := munch_text_append_rest c s
    have hshaped := shaped_munch c s
    rw [h] at htext hshaped
    exact ⟨htext.symm, hshaped.shape, hshaped.ends⟩
  · rintro ⟨hs, hshape, hends⟩
    cases w with
    | nil => exact absurd rfl hshape.ne_nil
    | cons d w =>
      obtain ⟨rfl, rfl⟩ := List.cons.inj hs
      exact munch_of_shape hshape hends

/-- **A text reads back as one word** exactly if it has the shape of a word. -/
theorem isWord_iff {s : Text} : IsWord s ↔ Lexeme.Kind.word.Shape s := by
  cases s with
  | nil => exact iff_of_false id (fun h => h.1 rfl)
  | cons c s =>
    have hmunch : IsWord (c :: s) ↔ munch c s = ⟨.word, c :: s, []⟩ := by
      constructor
      · rintro ⟨hkind, hrest⟩
        have htext := munch_text_append_rest c s
        rw [hrest, List.append_nil] at htext
        rw [← hkind, ← htext, ← hrest]
      · intro h
        show (munch c s).kind = .word ∧ (munch c s).rest = []
        rw [h]
        exact ⟨rfl, rfl⟩
    rw [hmunch, munch_eq_iff, List.append_nil]
    exact ⟨fun h => h.2.1, fun h => ⟨rfl, h, fun _ hc => absurd hc (by simp)⟩⟩

/-! ## lexemes at a seam -/

theorem lexFrom_append_of_shape (n : Nat) {k : Lexeme.Kind} {w x : Text} (h : k.Shape w)
    (he : k.Ends w x.head?) :
    lexFrom n (w ++ x) = ⟨k, w, ⟨n, n + byteLength w⟩⟩ :: lexFrom (n + byteLength w) x := by
  cases w with
  | nil => exact absurd rfl h.ne_nil
  | cons c w =>
    rw [List.cons_append, lexFrom_cons, munch_of_shape h he]
    rfl

/-- what a word takes on from the text behind it -/
def wordTail (x : Text) : Text := x.takeWhile (fun c => !endsWord c)

theorem wordTail_eq_nil_iff (x : Text) : wordTail x = [] ↔ ∀ c ∈ x.head?, c ∈ wordEnds := by
  simp only [← endsWord_iff]
  cases x with
  | nil => simp [wordTail]
  | cons c x =>
    rw [wordTail, List.takeWhile_cons]
    cases hc : endsWord c <;> simp [hc]

theorem lexFrom_word_append (n : Nat) {w : Text} (h : Lexeme.Kind.word.Shape w) (x : Text) :
    lexFrom n (w ++ x) =
      ⟨.word, w ++ wordTail x, ⟨n, n + byteLength (w ++ wordTail x)⟩⟩ ::
        lexFrom (n + byteLength (w ++ wordTail x)) (x.dropWhile (fun c => !endsWord c)) := by
  have hsplit : wordTail x ++ x.dropWhile (fun c => !endsWord c) = x :=
    List.takeWhile_append_dropWhile
  have hshape : Lexeme.Kind.word.Shape (w ++ wordTail x) :=
    h.word_append (fun c hc => endsWord_eq_false_iff.mp (by simpa using List.mem_takeWhile_imp hc))
  have hends : Lexeme.Kind.word.Ends (w ++ wordTail x)
      (x.dropWhile (fun c => !endsWord c)).head? := by
    intro c hc
    have hend := head?_dropWhile_eq_false (fun c => !endsWord c) x c hc
    exact endsWord_iff.mp (by simpa using hend)
  have hlex := lexFrom_append_of_shape n hshape hends
  rwa [List.append_assoc, hsplit] at hlex

/-- every lexeme of a text has its shape and ends in front of the one behind it -/
theorem shape_of_lexFrom {n : Nat} {s : Text} {l : Lexeme} {ls : List Lexeme}
    (h : lexFrom n s = l :: ls) :
    ∃ r, s = l.text ++ r ∧ l.kind.Shape l.text ∧ l.kind.Ends l.text r.head? ∧
      l.span = ⟨n, n + byteLength l.text⟩ ∧ ls = lexFrom (n + byteLength l.text) r := by
  cases s with
  | nil =>
    rw [lexFrom_nil] at h
    exact absurd h.symm (List.cons_ne_nil _ _)
  | cons c s =>
    rw [lexFrom_cons] at h
    obtain ⟨rfl, rfl⟩ := List.cons.inj h
    obtain ⟨hshape, hends⟩ := shaped_munch c s
    exact ⟨(munch c s).rest, (munch_text_append_rest c s).symm, hshape, hends, rfl, rfl⟩

theorem ends_of_lexFrom {n : Nat} {s : Text} {l m : Lexeme} {ls ms : List Lexeme}
    (h : lexFrom n s = ls ++ l :: m :: ms) : l.kind.Ends l.text m.text.head? := by
  obtain ⟨r, -, hr⟩ := lexFrom_eq_append h
  obtain ⟨r', -, -, hends, -, hnext⟩ := shape_of_lexFrom hr.symm
  obtain ⟨r'', rfl, hm, -⟩ := shape_of_lexFrom hnext.symm
  rwa [List.head?_append_of_ne_nil _ hm.ne_nil] at hends

theorem ends_of_getLast? {n : Nat} {s : Text} {l : Lexeme} {ls ms : List Lexeme}
    (h : lexFrom n s = ls ++ l :: ms) : ∀ m ∈ ls.getLast?, m.kind.Ends m.text l.text.head? := by
  intro m hm
  obtain ⟨front, rfl⟩ := List.getLast?_eq_some_iff.mp hm
  rw [List.append_assoc] at h
  exact ends_of_lexFrom h

/-- **Text behind a seam may be exchanged** if the last lexeme in front of it still ends there. -/
theorem lexFrom_exchange {n : Nat} {x : Text} {ls ms : List Lexeme}
    (h : lexFrom n (ls.flatMap Lexeme.text ++ x) = ls ++ ms) {y : Text}
    (hseam : ∀ l ∈ ls.getLast?, l.kind.Ends l.text y.head?) :
    lexFrom n (ls.flatMap Lexeme.text ++ y) =
      ls ++ lexFrom (n + byteLength (ls.flatMap Lexeme.text)) y := by
  induction ls generalizing n with
  | nil => rfl
  | cons l ls ih =>
    obtain ⟨r, hr, hshape, hends, hspan, htail⟩ := shape_of_lexFrom h
    rw [List.flatMap_cons, List.append_assoc] at hr ⊢
    have hrest := List.append_cancel_left hr
    have hnext : l.kind.Ends l.text (ls.flatMap Lexeme.text ++ y).head? := by
      cases ls with
      | nil => exact hseam l rfl
      | cons m ls =>
        -- behind `l` the text goes on with the next lexeme, whatever stands behind the seam
        obtain ⟨-, -, hm, -⟩ := shape_of_lexFrom htail.symm
        rw [← hrest, List.flatMap_cons, List.append_assoc,
          List.head?_append_of_ne_nil _ hm.ne_nil] at hends
        rw [List.flatMap_cons, List.append_assoc, List.head?_append_of_ne_nil _ hm.ne_nil]
        exact hends
    have hseam' : ∀ m ∈ ls.getLast?, m.kind.Ends m.text y.head? := by
      intro m hm
      refine hseam m ?_
      cases ls with
      | nil => exact absurd hm (by simp)
      | cons a ls => rwa [List.getLast?_cons_cons]
    rw [← hrest] at htail
    rw [lexFrom_append_of_shape n hshape hnext, ih htail.symm hseam', byteLength_append, hspan.symm,
      Nat.add_assoc]
    rfl

end FilterQuery
