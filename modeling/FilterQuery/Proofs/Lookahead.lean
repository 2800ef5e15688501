import FilterQuery.Lexeme
import FilterQuery.Proofs.Cut
import Mathlib.Data.List.TakeWhile

/-!
# Lexing from the middle of a text

Where a lexeme ends depends on one character behind it and on nothing in front of it.  So reading
may be taken up again wherever a lexeme begins, and text that is added behind a lexeme that is
followed by a character leaves the lexeme alone.

* `munch_append`, `prefix_munch_text`   one lexeme, with text added behind;
* `lexFrom_eq_append`            the lexemes from any of them on are those of the rest of the text;
* `takeWhile_lexFrom_append`     the lexemes that end before a seam do not depend on what follows it;
* `Lexeme.shift`, `lexFrom_shift`   the same text further right has the same lexemes there;
* `lexFrom_behind_edit`          behind an edit, old and new lexemes agree from a common start on.
-/

namespace FilterQuery
open Text

/-! ## one lexeme and the text behind it -/

namespace Munch

/-- the same lexeme in front of a longer rest -/
def extend (m : Munch) (x : Text) : Munch := { m with rest := m.rest ++ x }

theorem run_append {kind : Lexeme.Kind} {p : Char → Bool} {c : Char} {s : Text}
    (h : (run kind p c s).rest ≠ []) (x : Text) :
    run kind p c (s ++ x) = (run kind p c s).extend x := by
  have h0 : ¬ (s.dropWhile p).isEmpty = true := by
    rw [List.isEmpty_iff]
    exact h
  have hd : (s ++ x).dropWhile p = s.dropWhile p ++ x := by
    rw [List.dropWhile_append, if_neg h0]
  have ht : (s ++ x).takeWhile p = s.takeWhile p := by
    have h1 := List.takeWhile_append_dropWhile (p := p) (l := s ++ x)
    have h2 := List.takeWhile_append_dropWhile (p := p) (l := s)
    rw [hd] at h1
    have h3 : (s ++ x).takeWhile p ++ (s.dropWhile p ++ x)
        = s.takeWhile p ++ (s.dropWhile p ++ x) := by
      rw [h1, ← List.append_assoc, h2]
    exact List.append_cancel_right h3
  show (⟨kind, c :: (s ++ x).takeWhile p, (s ++ x).dropWhile p⟩ : Munch) = _
  rw [hd, ht]
  rfl

theorem inequality_append {c : Char} {s : Text} (h : (inequality c s).rest ≠ []) (x : Text) :
    inequality c (s ++ x) = (inequality c s).extend x := by
  cases s with
  | nil => exact absurd rfl h
  | cons d s =>
    by_cases hd : d = '='
    · subst hd
      rfl
    · have h1 : ∀ t, inequality c (d :: t) = ⟨.operator, [c], d :: t⟩ := by
        intro t
        unfold inequality
        split
        · next heq => exact absurd (List.cons.inj heq).1 hd
        · rfl
      rw [List.cons_append, h1, h1]
      rfl

theorem literal_of_dropWhile_nil {s : Text} (h : s.dropWhile (· != '"') = []) :
    literal s = ⟨.unclosedLiteral, '"' :: s, []⟩ := by
  unfold literal
  rw [h]

theorem literal_of_dropWhile_cons {s rest : Text} {q : Char}
    (h : s.dropWhile (· != '"') = q :: rest) :
    literal s = ⟨.literal, '"' :: s.takeWhile (· != '"') ++ [q], rest⟩ := by
  unfold literal
  rw [h]

theorem literal_append_of_cons {s rest : Text} {q : Char}
    (h : s.dropWhile (· != '"') = q :: rest) (x : Text) :
    literal (s ++ x) = (literal s).extend x := by
  have hr : (run .literal (· != '"') '"' s).rest ≠ [] := by
    show s.dropWhile _ ≠ []
    rw [h]
    exact List.cons_ne_nil q rest
  have e := run_append hr x
  have ht : (s ++ x).takeWhile (· != '"') = s.takeWhile (· != '"') :=
    (List.cons.inj (congrArg Munch.text e)).2
  have hd : (s ++ x).dropWhile (· != '"') = q :: (rest ++ x) := by
    have h1 : (s ++ x).dropWhile (· != '"') = s.dropWhile (· != '"') ++ x := congrArg Munch.rest e
    rw [h1, h]
    rfl
  rw [literal_of_dropWhile_cons h, literal_of_dropWhile_cons hd, ht]
  rfl

theorem literal_append {s : Text} (h : (literal s).rest ≠ []) (x : Text) :
    literal (s ++ x) = (literal s).extend x := by
  cases hd : s.dropWhile (· != '"') with
  | nil =>
    rw [literal_of_dropWhile_nil hd] at h
    exact absurd rfl h
  | cons q rest => exact literal_append_of_cons hd x

theorem prefix_run_text {kind : Lexeme.Kind} {p : Char → Bool} {c : Char} {s : Text}
    (h : (run kind p c s).rest = []) (x : Text) : c :: s <+: (run kind p c (s ++ x)).text := by
  have hp : ∀ a ∈ s, p a := List.dropWhile_eq_nil_iff.mp h
  show c :: s <+: c :: (s ++ x).takeWhile p
  rw [List.takeWhile_append_of_pos hp]
  exact ⟨x.takeWhile p, rfl⟩

theorem prefix_inequality_text {c : Char} {s : Text} (h : (inequality c s).rest = []) (x : Text) :
    c :: s <+: (inequality c (s ++ x)).text := by
  unfold inequality at h
  split at h
  · subst h
    exact List.prefix_rfl
  · have hs : s = [] := h
    subst hs
    unfold inequality
    split
    · exact ⟨['='], rfl⟩
    · exact List.prefix_rfl

theorem prefix_literal_text {s : Text} (h : (literal s).rest = []) (x : Text) :
    '"' :: s <+: (literal (s ++ x)).text := by
  cases hd : s.dropWhile (· != '"') with
  | nil =>
    have hp : ∀ a ∈ s, (a != '"') = true := List.dropWhile_eq_nil_iff.mp hd
    cases hx : (s ++ x).dropWhile (· != '"') with
    | nil =>
      rw [literal_of_dropWhile_nil hx]
      exact ⟨x, rfl⟩
    | cons q rest =>
      rw [literal_of_dropWhile_cons hx, List.takeWhile_append_of_pos hp]
      exact ⟨x.takeWhile (· != '"') ++ [q], by simp⟩
  | cons q rest =>
    have hrest : rest = [] := by
      rw [literal_of_dropWhile_cons hd] at h
      exact h
    subst hrest
    have e := List.takeWhile_append_dropWhile (p := (· != '"')) (l := s)
    rw [hd] at e
    rw [literal_append_of_cons hd x, literal_of_dropWhile_cons hd]
    show '"' :: s <+: '"' :: s.takeWhile (· != '"') ++ [q]
    exact ⟨[], by rw [List.append_nil, List.cons_append, e]⟩

end Munch

/-- **A lexeme with a character behind it stays as it is when more text is added.** -/
theorem munch_append {c : Char} {s : Text} (h : (munch c s).rest ≠ []) (x : Text) :
    munch c (s ++ x) = (munch c s).extend x := by
  unfold munch at h ⊢
  split at h
  · next h1 => rw [if_pos h1, if_pos h1]; exact Munch.run_append h x
  next h1 =>
  rw [if_neg h1, if_neg h1]
  split at h
  · next h2 => rw [if_pos h2, if_pos h2]; rfl
  next h2 =>
  rw [if_neg h2, if_neg h2]
  split at h
  · next h3 => rw [if_pos h3, if_pos h3]; rfl
  next h3 =>
  rw [if_neg h3, if_neg h3]
  split at h
  · next h4 => rw [if_pos h4, if_pos h4]; rfl
  next h4 =>
  rw [if_neg h4, if_neg h4]
  split at h
  · next h5 => rw [if_pos h5, if_pos h5]; exact Munch.inequality_append h x
  next h5 =>
  rw [if_neg h5, if_neg h5]
  split at h
  · next h6 => rw [if_pos h6, if_pos h6]; exact Munch.literal_append h x
  next h6 =>
  rw [if_neg h6, if_neg h6]
  exact Munch.run_append h x

theorem prefix_munch_text {c : Char} {s : Text} (h : (munch c s).rest = []) (x : Text) :
    c :: s <+: (munch c (s ++ x)).text := by
  unfold munch at h ⊢
  split at h
  · next h1 => rw [if_pos h1]; exact Munch.prefix_run_text h x
  next h1 =>
  rw [if_neg h1]
  split at h
  · next h2 => rw [if_pos h2]; exact List.cons_prefix_cons.mpr ⟨rfl, h ▸ List.nil_prefix⟩
  next h2 =>
  rw [if_neg h2]
  split at h
  · next h3 => rw [if_pos h3]; exact List.cons_prefix_cons.mpr ⟨rfl, h ▸ List.nil_prefix⟩
  next h3 =>
  rw [if_neg h3]
  split at h
  · next h4 => rw [if_pos h4]; exact List.cons_prefix_cons.mpr ⟨rfl, h ▸ List.nil_prefix⟩
  next h4 =>
  rw [if_neg h4]
  split at h
  · next h5 => rw [if_pos h5]; exact Munch.prefix_inequality_text h x
  next h5 =>
  rw [if_neg h5]
  split at h
  · next h6 => rw [if_pos h6, h6]; exact Munch.prefix_literal_text h x
  next h6 =>
  rw [if_neg h6]
  exact Munch.prefix_run_text h x

/-! ## lexemes from an offset on -/

theorem lexFrom_ne_nil {s : Text} (n : Nat) (h : s ≠ []) : lexFrom n s ≠ [] := by
  cases s with
  | nil => exact absurd rfl h
  | cons c s =>
    rw [lexFrom_cons]
    exact List.cons_ne_nil _ _

/-- **Reading may be taken up at any lexeme.**  What follows some of the lexemes of a text is read
off the text that they leave. -/
theorem lexFrom_eq_append {n : Nat} {s : Text} {ls ms : List Lexeme} (h : lexFrom n s = ls ++ ms) :
    ∃ r, s = ls.flatMap Lexeme.text ++ r ∧
      ms = lexFrom (n + byteLength (ls.flatMap Lexeme.text)) r := by
  induction ls generalizing n s with
  | nil => exact ⟨s, rfl, h.symm⟩
  | cons l ls ih =>
    cases s with
    | nil =>
      rw [lexFrom_nil] at h
      exact absurd h.symm (List.cons_ne_nil _ _)
    | cons c s =>
      rw [lexFrom_cons, List.cons_append] at h
      obtain ⟨hl, htail⟩ := List.cons.inj h
      have ht : l.text = (munch c s).text := by rw [← hl]; rfl
      obtain ⟨r, hs, hms⟩ := ih htail
      refine ⟨r, ?_, ?_⟩
      · rw [List.flatMap_cons, List.append_assoc, ← hs, ht, munch_text_append_rest]
      · rw [hms, List.flatMap_cons, byteLength_append, ← Nat.add_assoc, ht]

/-- lexemes are contiguous: the one behind `ls` starts where the texts of `ls` end -/
theorem start_eq_of_lexFrom {n : Nat} {s : Text} {ls ms : List Lexeme} {l : Lexeme}
    (h : lexFrom n s = ls ++ l :: ms) :
    l.span.start = n + byteLength (ls.flatMap Lexeme.text) ∧
      l.span.stop = l.span.start + byteLength l.text := by
  obtain ⟨r, -, hms⟩ := lexFrom_eq_append h
  cases r with
  | nil =>
    rw [lexFrom_nil] at hms
    exact absurd hms (List.cons_ne_nil _ _)
  | cons c r =>
    rw [lexFrom_cons] at hms
    rw [(List.cons.inj hms).1]
    exact ⟨rfl, rfl⟩

/-- **Text behind a seam does not reach lexemes that end in front of it.** -/
theorem takeWhile_lexFrom_append (n : Nat) (s x : Text) :
    (lexFrom n (s ++ x)).takeWhile (fun l => l.span.stop < n + byteLength s) =
      (lexFrom n s).dropLast := by
  fun_induction lexFrom n s with
  | case1 n =>
    rw [List.nil_append]
    cases x with
    | nil => rw [lexFrom_nil]; rfl
    | cons c x =>
      have h : ¬ n + byteLength (munch c x).text < n + byteLength [] := by simp
      rw [lexFrom_cons, List.takeWhile_cons_of_neg]
      · rfl
      · rw [decide_eq_true_eq]
        exact h
  | case2 n c s m l ih =>
    have hm := congrArg byteLength (munch_text_append_rest c s)
    rw [byteLength_append] at hm
    rw [List.cons_append, lexFrom_cons]
    by_cases hr : (munch c s).rest = []
    · -- the lexeme ends at the seam or grows over it
      obtain ⟨y, hy⟩ := prefix_munch_text hr x
      have hlen := congrArg byteLength hy
      rw [byteLength_append] at hlen
      have hstop : ¬ n + byteLength (munch c (s ++ x)).text < n + byteLength (c :: s) := by omega
      have h0 : lexFrom l.span.stop m.rest = [] := by
        show lexFrom _ (munch c s).rest = []
        rw [hr, lexFrom_nil]
      rw [List.takeWhile_cons_of_neg, h0]
      · rfl
      · rw [decide_eq_true_eq]
        exact hstop
    · have hpos := byteLength_pos hr
      have hne : lexFrom l.span.stop m.rest ≠ [] := lexFrom_ne_nil _ hr
      have hstop : n + byteLength (munch c s).text < n + byteLength (c :: s) := by omega
      have hseam : n + byteLength (c :: s) = l.span.stop + byteLength m.rest := by
        show _ = n + byteLength (munch c s).text + byteLength (munch c s).rest
        omega
      rw [munch_append hr x, List.takeWhile_cons_of_pos, List.dropLast_cons_of_ne_nil hne, ← ih,
        ← hseam]
      · rfl
      · rw [decide_eq_true_eq]
        exact hstop

theorem takeWhile_lex_append (s x : Text) :
    (lex (s ++ x)).takeWhile (fun l => l.span.stop < byteLength s) = (lex s).dropLast := by
  have h := takeWhile_lexFrom_append 0 s x
  rw [Nat.zero_add] at h
  exact h

theorem lex_ne_nil {s : Text} (h : s ≠ []) : lex s ≠ [] := lexFrom_ne_nil 0 h

/-- one lexeme less than those that are out of reach, to be behind a lexeme when reading begins -/
theorem exists_lex_append (s x : Text) :
    ∃ ms, lex (s ++ x) = (lex s).dropLast.dropLast ++ ms ∧ (s ++ x ≠ [] → ms ≠ []) := by
  have h := takeWhile_lex_append s x
  have hp : (lex s).dropLast <+: lex (s ++ x) := h ▸ List.takeWhile_prefix _
  obtain ⟨ms, hms⟩ := (List.dropLast_prefix _).trans hp
  refine ⟨ms, hms.symm, fun hne h0 => lex_ne_nil hne ?_⟩
  have hlen := congrArg List.length hms
  have hle := hp.length_le
  rw [h0, List.append_nil, List.length_dropLast] at hlen
  rw [← List.length_eq_zero_iff]
  omega

/-! ## moved text -/

/-- the same lexeme at another place -/
def Lexeme.shift (l : Lexeme) (d : Int) : Lexeme := { l with span := l.span.shift d }

theorem Munch.lexeme_shift (m : Munch) {n : Nat} {d : Int} (h : 0 ≤ n + d) :
    m.lexeme (FilterQuery.shift n d) = (m.lexeme n).shift d := by
  have e : FilterQuery.shift n d + byteLength m.text =
      FilterQuery.shift (n + byteLength m.text) d := by
    unfold FilterQuery.shift
    omega
  show (⟨m.kind, m.text, ⟨_, FilterQuery.shift n d + byteLength m.text⟩⟩ : Lexeme) = _
  rw [e]
  rfl

theorem lexFrom_shift {n : Nat} {d : Int} (h : 0 ≤ n + d) (s : Text) :
    lexFrom (shift n d) s = (lexFrom n s).map (fun l => l.shift d) := by
  fun_induction lexFrom n s with
  | case1 n => rw [lexFrom_nil]; rfl
  | case2 n c s m l ih =>
    have hstop : shift n d + byteLength (munch c s).text = shift l.span.stop d := by
      show _ = shift (n + byteLength (munch c s).text) d
      unfold shift
      omega
    have h' : 0 ≤ (l.span.stop : Int) + d := by
      show 0 ≤ ((n + byteLength (munch c s).text : Nat) : Int) + d
      omega
    rw [lexFrom_cons, Munch.lexeme_shift _ h, hstop, ih h']
    rfl

/-- **Old and new lexemes agree behind an edit.**  If old lexemes, read from behind the removed text
on, begin where new ones do, up to the growth of the text, they are the same lexemes moved. -/
theorem lexFrom_behind_edit {e : Edit} {s : Text} (k : e.Cut s) {ls ms ls' ms' : List Lexeme}
    (hold : lex s = ls ++ ms) (hnew : lex k.result = ls' ++ ms')
    (hbehind : e.stop ≤ byteLength (ls'.flatMap Lexeme.text))
    (hplace : (byteLength (ls'.flatMap Lexeme.text) : Int)
      = byteLength (ls.flatMap Lexeme.text) + e.delta) :
    ms' = ms.map (fun l => l.shift e.delta) := by
  obtain ⟨r, hr, rfl⟩ := lexFrom_eq_append hold
  obtain ⟨r', hr', rfl⟩ := lexFrom_eq_append hnew
  have hdelta := k.delta_eq
  have hstop := k.stop_eq_byteLength
  rw [byteLength_append] at hstop
  -- both rests are ends of the text behind the edit
  have h1 : byteLength (k.front ++ k.removed) ≤ byteLength (ls.flatMap Lexeme.text) := by
    rw [byteLength_append]
    omega
  have h2 : byteLength (k.front ++ e.replacement) ≤ byteLength (ls'.flatMap Lexeme.text) := by
    rw [byteLength_append]
    omega
  obtain ⟨m, hm, hb⟩ := exists_of_append_eq_append (k.text_eq.symm.trans hr) h1
  obtain ⟨m', hm', hb'⟩ := exists_of_append_eq_append hr' h2
  have hlen : byteLength m = byteLength m' := by
    have e1 := congrArg byteLength hm
    have e2 := congrArg byteLength hm'
    simp only [byteLength_append] at e1 e2
    omega
  have hrest : r' = r := (append_inj_of_byteLength (hb'.symm.trans hb) hlen.symm).2
  have hn : 0 + byteLength (ls'.flatMap Lexeme.text)
      = shift (0 + byteLength (ls.flatMap Lexeme.text)) e.delta := by
    unfold shift
    omega
  rw [hrest, hn, lexFrom_shift (by omega)]

end FilterQuery
