import FilterQuery.Proofs.Flawless
import FilterQuery.Proofs.Grammar
import FilterQuery.Proofs.Shapes

/-!
# Writing queries out

A derivation is written out by putting blanks, as many as one likes, before, between and behind its
symbols.  Only two words need a blank between them.

* `Spells k xs s`      `s` is the symbols `xs` written out behind a symbol of kind `k`;
* `Carries xs ls`      the lexemes `ls` are those of the symbols `xs`, with blanks between them;
* `Spells.carries`     the lexer reads the symbols off `s` again;
* `Carries.judgeAll`   each is judged as the symbol that it spells, without a fault;
* `Query.ofText_spelled`   so a query of the grammar has no diagnostics, whichever way it is written,
  and its tokens are the symbols of the derivation.
-/

namespace FilterQuery
open Text

def IsGap (s : Text) : Prop := ∀ c ∈ s, c ∈ spaces

theorem IsGap.nil : IsGap [] := fun _ h => absurd h List.not_mem_nil

instance (s : Text) : Decidable (IsGap s) := List.decidableBAll (· ∈ spaces) s

/-- the symbols written out, with gaps around them, behind a symbol of the kind `front` -/
inductive Spells {reg : Registry} : Option Lexeme.Kind → List (Symbol reg) → Text → Prop where
  | nil {front : Option Lexeme.Kind} (gap : Text) (hgap : IsGap gap) : Spells front [] gap
  | cons {front : Option Lexeme.Kind} {x : Symbol reg} {xs : List (Symbol reg)} {s : Text}
      (gap : Text) (hgap : IsGap gap) (hapart : front = some .word → x.kind = .word → gap ≠ [])
      (hs : Spells (some x.kind) xs s) : Spells front (x :: xs) (gap ++ (x.text ++ s))

variable {reg : Registry}

/-! ## symbols as lexemes -/

theorem not_mem_wordEnds_of_isDigit {c : Char} (h : c.isDigit) : c ∉ wordEnds := by
  have hnone : wordEnds.all (fun a => !a.isDigit) := by decide
  intro hc
  have hnot := List.all_eq_true.mp hnone c hc
  rw [h] at hnot
  exact absurd hnot (by decide)

theorem IsNumeral.shape {s : Text} (h : IsNumeral s) : Lexeme.Kind.word.Shape s := by
  obtain ⟨whole, hne, hwhole, hs⟩ := h
  have hquote : whole.head? ≠ some '"' := by
    intro hq
    exact absurd (hwhole _ (List.mem_of_head? hq)) (by decide)
  have hdigits : ∀ r : Text, (∀ c ∈ r, c.isDigit) → ∀ c ∈ r, c ∉ wordEnds :=
    fun r hr c hc => not_mem_wordEnds_of_isDigit (hr c hc)
  have hshape : Lexeme.Kind.word.Shape whole := ⟨hne, hquote, hdigits whole hwhole⟩
  rcases hs with rfl | ⟨fraction, rfl, hfraction⟩
  · exact hshape
  · exact hshape.word_append (List.forall_mem_cons.mpr ⟨by decide, hdigits fraction hfraction⟩)

namespace Symbol

theorem shape (x : Symbol reg) : x.kind.Shape x.text := by
  cases x with
  | openParen => rfl
  | closeParen => rfl
  | negation => exact isWord_iff.mp (show IsWord "not".toList by decide)
  | conjunction j =>
    cases j with
    | and => exact isWord_iff.mp (show IsWord "and".toList by decide)
    | or => exact isWord_iff.mp (show IsWord "or".toList by decide)
  | field f hf => exact isWord_iff.mp (reg.typeable f hf)
  | sign s hs => exact hs
  | operand v =>
    cases v with
    | number digits h => exact h.shape
    | quotation content h => exact ⟨content, h, rfl⟩

theorem kind_ne_blank (x : Symbol reg) : x.kind ≠ .blank := by
  cases x with
  | operand v => cases v <;> simp [kind, Operand.kind]
  | _ => simp [kind]

theorem kind_ne_unclosed (x : Symbol reg) : x.kind ≠ .unclosedLiteral := by
  cases x with
  | operand v => cases v <;> simp [kind, Operand.kind]
  | _ => simp [kind]

theorem fits_literal {y : Symbol reg} (h : y.kind = .literal) {previous : Option Role}
    (hf : y.Fits previous) : previous = some .condition := by
  cases y with
  | operand v => exact hf
  | _ => exact absurd h (by simp [kind])

theorem fits_operator {y : Symbol reg} (h : y.kind = .operator) {previous : Option Role}
    (hf : y.Fits previous) : previous = some .field := by
  cases y with
  | sign s hs => exact hf
  | operand v => cases v <;> exact absurd h (by simp [kind, Operand.kind])
  | _ => exact absurd h (by simp [kind])

theorem role_ne_condition {x : Symbol reg} (h : x.kind = .word) : x.role ≠ .condition := by
  cases x with
  | sign s hs => exact absurd h (by simp [kind])
  | operand v => simp [role]
  | _ => simp [role]

/-- what matters behind a symbol: a word has to end there, and a sign must not go on -/
theorem ends (x : Symbol reg) {next : Option Char}
    (hword : x.kind = .word → ∀ c ∈ next, c ∈ wordEnds)
    (hsign : x.role = .condition → next ≠ some '=') : x.kind.Ends x.text next := by
  cases x with
  | openParen => trivial
  | closeParen => trivial
  | negation => exact hword rfl
  | conjunction j => exact hword rfl
  | field f hf => exact hword rfl
  | sign s hs => exact fun _ => hsign rfl
  | operand v =>
    cases v with
    | number digits h => exact hword rfl
    | quotation content h => trivial

/-- **A symbol ends in front of any that fits behind it**, two words apart. -/
theorem ends_of_fits {x y : Symbol reg} (hf : y.Fits (some x.role))
    (hapart : x.kind = .word → y.kind ≠ .word) : x.kind.Ends x.text y.text.head? := by
  refine x.ends (fun hx => y.shape.head_mem_wordEnds (hapart hx) (fun hl => ?_) y.kind_ne_unclosed)
    (fun hr hnext => ?_)
  · exact role_ne_condition hx (Option.some.inj (fits_literal hl hf))
  · obtain ⟨r, htext⟩ := List.head?_eq_some_iff.mp hnext
    have hshape := y.shape
    rw [htext] at hshape
    have hp := fits_operator hshape.eq_operator hf
    rw [hr] at hp
    exact absurd hp (by decide)

theorem ends_of_space (x : Symbol reg) {next : Option Char} (h : ∀ c ∈ next, c ∈ spaces) :
    x.kind.Ends x.text next :=
  Lexeme.Kind.ends_of_space x.kind_ne_blank x.kind_ne_unclosed x.text h

end Symbol

/-! ## reading back -/

/-- the lexemes are those of the symbols, with blanks between them -/
inductive Carries {reg : Registry} : List (Symbol reg) → List Lexeme → Prop where
  | nil : Carries [] []
  | blank {xs : List (Symbol reg)} {l : Lexeme} {ls : List Lexeme} (hk : l.kind = .blank)
      (h : Carries xs ls) : Carries xs (l :: ls)
  | symbol {x : Symbol reg} {xs : List (Symbol reg)} {l : Lexeme} {ls : List Lexeme}
      (hk : l.kind = x.kind) (ht : l.text = x.text) (h : Carries xs ls) :
      Carries (x :: xs) (l :: ls)

theorem Carries.behind_gap {xs : List (Symbol reg)} {n : Nat} {gap s : Text} (hgap : IsGap gap)
    (hs : ∀ c ∈ s.head?, c ∉ spaces) (h : ∀ m, Carries xs (lexFrom m s)) :
    Carries xs (lexFrom n (gap ++ s)) := by
  by_cases hne : gap = []
  · rw [hne]
    exact h n
  · have hshape : Lexeme.Kind.blank.Shape gap := ⟨hne, hgap⟩
    rw [lexFrom_append_of_shape n hshape hs]
    exact .blank rfl (h _)

namespace Spells
variable {xs : List (Symbol reg)} {s : Text}

/-- a symbol ends where the text of the others begins -/
theorem ends {x : Symbol reg} (h : Spells (some x.kind) xs s) (hfit : Fit (some x.role) xs) :
    x.kind.Ends x.text s.head? := by
  cases h with
  | nil gap hgap => exact x.ends_of_space (fun c hc => hgap c (List.mem_of_head? hc))
  | @cons _ y ys r gap hgap hapart hs =>
    by_cases hne : gap = []
    · rw [hne, List.nil_append, List.head?_append_of_ne_nil _ y.shape.ne_nil]
      refine Symbol.ends_of_fits hfit.1 (fun hx hy => ?_)
      exact hapart (congrArg some hx) hy hne
    · rw [List.head?_append_of_ne_nil _ hne]
      exact x.ends_of_space (fun c hc => hgap c (List.mem_of_head? hc))

/-- **The lexer reads the symbols off their spelling.** -/
theorem carries {front : Option Lexeme.Kind} (h : Spells front xs s) {previous : Option Role}
    (hfit : Fit previous xs) (n : Nat) : Carries xs (lexFrom n s) := by
  induction h generalizing previous n with
  | @nil _ gap hgap =>
    have h0 : ∀ m, Carries ([] : List (Symbol reg)) (lexFrom m []) := by
      intro m
      rw [lexFrom_nil]
      exact .nil
    have h1 := Carries.behind_gap (n := n) hgap (fun c hc => absurd hc (by simp)) h0
    rwa [List.append_nil] at h1
  | @cons _ x xs s gap hgap hapart hs ih =>
    refine Carries.behind_gap hgap ?_ (fun m => ?_)
    · rw [List.head?_append_of_ne_nil _ x.shape.ne_nil]
      exact x.shape.head_not_mem_spaces x.kind_ne_blank
    · rw [lexFrom_append_of_shape m x.shape (hs.ends hfit.2)]
      exact .symbol rfl rfl (ih hfit.2 _)

end Spells

/-! ## judging -/

/-- what a token says, besides where it stands and what is wrong with it -/
def Token.sense (t : Token) : Role × Text × Option Resolution := (t.role, t.text, t.resolution)

def Symbol.sense (x : Symbol reg) : Role × Text × Option Resolution := (x.role, x.text, x.resolution)

/-- **A symbol is judged as what it is**, where it fits. -/
theorem Symbol.judge_of_fits (hnot : ∀ f ∈ reg.fields, f.name ≠ "not".toList) {x : Symbol reg}
    {previous : Option Role} (hfit : x.Fits previous) (place : Span) :
    reg.judge previous ⟨x.kind, x.text, place⟩ = ⟨x.role, x.text, place, none, x.resolution⟩ := by
  cases x with
  | openParen => rfl
  | closeParen => rfl
  | negation =>
    have hg : reg.get? "not".toList = none := reg.get?_eq_none_iff.mpr hnot
    rcases hfit with rfl | rfl
    · exact reg.judgeOperand_not hg rfl (by decide)
    · exact reg.judgeOperand_not hg rfl (by decide)
  | conjunction j =>
    rcases hfit with rfl | rfl <;> cases j <;> rfl
  | field f hf =>
    have hg := reg.get?_of_mem hf
    rcases hfit with (rfl | rfl) | rfl
    · exact reg.judgeOperand_of_get? hg none
    · exact reg.judgeOperand_of_get? hg (some .openParen)
    · exact reg.judgeOperand_of_get? hg (some .keyword)
  | sign s hs =>
    obtain rfl : previous = _ := hfit
    rfl
  | operand v =>
    obtain rfl : previous = _ := hfit
    cases v with
    | number digits h =>
      have hfault : (⟨.word, digits, place⟩ : Lexeme).valueFault = none :=
        (Lexeme.valueFault_eq_none_iff _).mpr (.inr ⟨rfl, h⟩)
      exact congrArg (fun e => (⟨.value, digits, place, e, none⟩ : Token)) hfault
    | quotation content h => rfl

namespace Carries
variable {xs : List (Symbol reg)} {ls : List Lexeme}

/-- blanks left out, the kinds are those of the symbols -/
theorem kinds (h : Carries xs ls) :
    (ls.map Lexeme.kind).filter (· ≠ .blank) = xs.map Symbol.kind := by
  induction h with
  | nil => rfl
  | blank hk h ih =>
    rw [List.map_cons, List.filter_cons_of_neg (by simpa using hk)]
    exact ih
  | @symbol x xs l ls hk ht h ih =>
    have hblank := x.kind_ne_blank
    rw [List.map_cons, hk, List.filter_cons_of_pos (by simpa using hblank), ih]
    rfl

/-- **Judging finds the symbols and no fault**, if each fits in its place. -/
theorem judgeAll (h : Carries xs ls) (hnot : ∀ f ∈ reg.fields, f.name ≠ "not".toList)
    {previous : Option Role} (hfit : Fit previous xs) :
    ((reg.judgeAll previous ls).filter (fun t => t.role ≠ .blank)).map Token.sense
      = xs.map Symbol.sense ∧ reg.Flawless previous ls := by
  induction h generalizing previous with
  | nil => exact ⟨rfl, Registry.flawless_nil _⟩
  | @blank xs l ls hk h ih =>
    have hj := reg.judge_of_blank hk previous
    obtain ⟨hsense, hflawless⟩ := ih hfit
    rw [Registry.flawless_cons]
    show ((reg.judge previous l :: reg.judgeAll _ ls).filter _).map _ = _ ∧ _
    rw [hj]
    exact ⟨hsense, rfl, hflawless⟩
  | @symbol x xs l ls hk ht h ih =>
    have hj : reg.judge previous l = ⟨x.role, x.text, l.span, none, x.resolution⟩ := by
      rw [← x.judge_of_fits hnot hfit.1, ← hk, ← ht]
    have hrole : x.role ≠ .blank := by cases x <;> simp [Symbol.role]
    have hafter : after previous x.role = some x.role := by cases x <;> rfl
    obtain ⟨hsense, hflawless⟩ := ih hfit.2
    rw [Registry.flawless_cons]
    show ((reg.judge previous l :: reg.judgeAll (after previous (reg.judge previous l).role) ls).filter
      _).map _ = _ ∧ _
    rw [hj, hafter, List.filter_cons_of_pos (by simpa using hrole), List.map_cons, hsense]
    exact ⟨rfl, rfl, hflawless⟩

end Carries

/-! ## whole queries -/

/-- **A query of the grammar has no diagnostics**, in whichever way it is written out, and its tokens
are the symbols of its derivation. -/
theorem Query.ofText_spelled (hnot : ∀ f ∈ reg.fields, f.name ≠ "not".toList)
    (d : Derivation reg .query) {s : Text} (hs : Spells none d.symbols s) :
    (ofText reg s).diagnostics = [] ∧
      ((ofText reg s).tokens.filter (fun t => t.role ≠ .blank)).map Token.sense
        = d.symbols.map Symbol.sense := by
  have hcarries : Carries d.symbols (lex s) := hs.carries d.fit 0
  obtain ⟨hsense, hflawless⟩ := hcarries.judgeAll hnot d.fit
  have hmatched : Matched ((lex s).map Lexeme.kind) := by
    refine Matched.of_filter (p := (· ≠ .blank)) rfl rfl ?_
    rw [hcarries.kinds]
    exact d.matched
  refine ⟨?_, ?_⟩
  · rw [diagnostics_eq_nil]
    exact (valid_balanced_judgeAll reg (lex s)).mpr ⟨hmatched, hflawless⟩
  · -- verdicts of parentheses change no sense
    have hfilter : ∀ ts : List Token, (ts.filter (fun t => t.role ≠ .blank)).map Token.sense
        = (ts.map Token.sense).filter (fun r => r.1 ≠ .blank) := by
      intro ts
      rw [List.filter_map]
      rfl
    have hsettle := map_settle Token.sense (fun _ _ => rfl) 0 (reg.judgeAll none (lex s))
    rw [← hsense, hfilter, hfilter, ← hsettle]
    rfl

/-- `not(src_ip="a b"or dst_port<=1.)`: a group behind `not`, a blank inside a string, and one gap
only -/
def Derivation.tightGroup : Derivation Registry.builtin .query :=
  .negated (.one (.group (.plain (.more
    (.comparison ⟨"src_ip".toList, .string, some "Source IP address".toList⟩ (by decide) "=".toList
      (by decide) (.quotation "a b".toList (by decide)))
    .or
    (.one (.comparison ⟨"dst_port".toList, .number, some "Destination port".toList⟩ (by decide)
      "<=".toList (by decide) (.number "1.".toList ((isNumber_iff _).mp (by decide)))))))))

theorem Query.ofText_spelled_tightGroup :
    (ofText Registry.builtin "not(src_ip=\"a b\"or dst_port<=1.)".toList).diagnostics = [] ∧
      ((ofText Registry.builtin "not(src_ip=\"a b\"or dst_port<=1.)".toList).tokens.filter
        (fun t => t.role ≠ .blank)).map Token.sense
        = Derivation.tightGroup.symbols.map Symbol.sense :=
  ofText_spelled (by decide) Derivation.tightGroup
    (.cons [] .nil (by decide) (.cons [] .nil (by decide) (.cons [] .nil (by decide)
      (.cons [] .nil (by decide) (.cons [] .nil (by decide) (.cons [] .nil (by decide)
        (.cons [' '] (by decide) (by decide) (.cons [] .nil (by decide)
          (.cons [] .nil (by decide) (.cons [] .nil (by decide) (.nil [] .nil)))))))))))

end FilterQuery
