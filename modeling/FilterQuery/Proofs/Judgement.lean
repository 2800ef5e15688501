import FilterQuery.Rescan
import FilterQuery.Proofs.Lookahead
import FilterQuery.Proofs.Settlement

/-!
# Tokens and their lexemes

* `due p`                   the role that is due behind the role `p`;
* `Registry.Judges`         what a registry can make of a lexeme, and behind which roles;
* `Lexed ls ts`             the tokens `ts` stand for the lexemes `ls`, whatever roles they have;
* `Registry.Reads p ls ts`  `ts` are the tokens of `ls` behind the role `p`, verdicts of parentheses
  left open; a list of tokens that is settled is then the query (`Reads.eq_ofText`);
* `Reads.append`, `Reads.of_append`   this goes together with putting lists one behind the other, where
  the last role in front is all that the tokens behind need to know.
-/

namespace FilterQuery

/-! ## one lexeme -/

/-- the same lexeme at another place -/
def Lexeme.relocate (place : Span → Span) (l : Lexeme) : Lexeme := { l with span := place l.span }

/-- the roles that a lexeme has from its kind alone -/
inductive Role.FixedBy : Role → Lexeme.Kind → Prop
  | openParen : FixedBy .openParen .openParen
  | closeParen : FixedBy .closeParen .closeParen
  | blank : FixedBy .blank .blank

/-- the role that is due behind a role -/
def due : Option Role → Role
  | some .field => .condition
  | some .condition => .value
  | some .value | some .closeParen => .keyword
  | _ => .field

namespace Registry

/-- **What a registry makes of a lexeme**, and behind which role. -/
inductive Judges (reg : Registry) (l : Lexeme) (previous : Option Role) : Token → Prop
  | blank (h : l.kind = .blank) : Judges reg l previous (l.token .blank none)
  | openParen (h : l.kind = .openParen) : Judges reg l previous (l.token .openParen none)
  | closeParen (h : l.kind = .closeParen) : Judges reg l previous (l.token .closeParen none)
  | condition (h : previous = some .field) : Judges reg l previous l.asCondition
  | value (h : previous = some .condition) : Judges reg l previous l.asValue
  | conjunction (h : previous = some .value ∨ previous = some .closeParen) :
    Judges reg l previous l.asConjunction
  | known {f : Field} (h : due previous = .field) (hf : reg.get? l.text = some f) :
    Judges reg l previous (l.asField none (.known f.valueType))
  | negation (h : due previous = .field) (hk : previous ≠ some .keyword)
    (hnot : l.text = "not".toList) (hf : reg.get? l.text = none) :
    Judges reg l previous (l.token .keyword none)
  | unknown (h : due previous = .field) (hf : reg.get? l.text = none) :
    Judges reg l previous (l.asField (some .unknownField) .unknown)

variable (reg : Registry)

theorem judgeOperand_of_get? {l : Lexeme} {f : Field} (h : reg.get? l.text = some f)
    (previous : Option Role) :
    reg.judgeOperand previous l = l.asField none (.known f.valueType) := by
  unfold judgeOperand
  rw [h]

theorem judgeOperand_not {l : Lexeme} (h : reg.get? l.text = none) (hnot : l.text = "not".toList)
    {previous : Option Role} (hp : previous ≠ some .keyword) :
    reg.judgeOperand previous l = l.token .keyword none := by
  unfold judgeOperand
  rw [h]
  exact if_pos ⟨hnot, hp⟩

theorem judgeOperand_unknown {l : Lexeme} (h : reg.get? l.text = none) {previous : Option Role}
    (hp : l.text = "not".toList → previous = some .keyword) :
    reg.judgeOperand previous l = l.asField (some .unknownField) .unknown := by
  unfold judgeOperand
  rw [h]
  exact if_neg (fun hk => hk.2 (hp hk.1))

variable (previous : Option Role)

theorem judges_operand (l : Lexeme) (h : due previous = .field) :
    reg.Judges l previous (reg.judgeOperand previous l) := by
  cases hf : reg.get? l.text with
  | some f =>
    rw [reg.judgeOperand_of_get? hf]
    exact .known h hf
  | none =>
    by_cases hnot : l.text = "not".toList ∧ previous ≠ some .keyword
    · rw [reg.judgeOperand_not hf hnot.1 hnot.2]
      exact .negation h hnot.2 hnot.1 hf
    · rw [reg.judgeOperand_unknown hf (fun ht => not_not.mp (fun hk => hnot ⟨ht, hk⟩))]
      exact .unknown h hf

theorem judges_judge (l : Lexeme) : reg.Judges l previous (reg.judge previous l) := by
  unfold judge
  split
  · next h => exact .blank h
  · next h => exact .openParen h
  · next h => exact .closeParen h
  · split
    · exact .condition rfl
    · exact .value rfl
    · exact .conjunction (.inl rfl)
    · exact .conjunction (.inr rfl)
    · next h1 h2 h3 h4 =>
      refine reg.judges_operand previous l ?_
      cases previous with
      | none => rfl
      | some r => cases r <;> first | rfl | contradiction

/-- a lexeme that is neither a blank nor a parenthesis is judged as what is due -/
theorem judge_of_due {l : Lexeme} (hblank : l.kind ≠ .blank) (hopen : l.kind ≠ .openParen)
    (hclose : l.kind ≠ .closeParen) :
    reg.judge previous l =
      match due previous with
      | .condition => l.asCondition
      | .value => l.asValue
      | .keyword => l.asConjunction
      | _ => reg.judgeOperand previous l := by
  have hjudge : reg.judge previous l =
      match previous with
      | some .field => l.asCondition
      | some .condition => l.asValue
      | some .value | some .closeParen => l.asConjunction
      | _ => reg.judgeOperand previous l := by
    unfold judge
    cases hk : l.kind with
    | blank => exact absurd hk hblank
    | openParen => exact absurd hk hopen
    | closeParen => exact absurd hk hclose
    | _ => rfl
  rw [hjudge]
  cases previous with
  | none => rfl
  | some r => cases r <;> rfl

theorem due_of_role_judge {l : Lexeme} (h : (reg.judge previous l).role = .field) :
    due previous = .field := by
  have hjudges := reg.judges_judge previous l
  generalize reg.judge previous l = t at h hjudges
  cases hjudges with
  | known hdue | unknown hdue => exact hdue
  | _ => exact Role.noConfusion h

theorem judgeOperand_span (l : Lexeme) (a : Span) :
    reg.judgeOperand previous { l with span := a } =
      { reg.judgeOperand previous l with span := a } := by
  unfold judgeOperand
  dsimp only
  cases reg.get? l.text with
  | some f => rfl
  | none =>
    by_cases h : l.text = "not".toList ∧ previous ≠ some .keyword
    · simp only [if_pos h]
      rfl
    · simp only [if_neg h]
      rfl

theorem judge_span_update (l : Lexeme) (a : Span) :
    reg.judge previous { l with span := a } = { reg.judge previous l with span := a } := by
  unfold judge
  rw [judgeOperand_span]
  dsimp only
  repeat' split
  all_goals rfl

theorem judge_relocate (place : Span → Span) (l : Lexeme) :
    reg.judge previous (l.relocate place) = (reg.judge previous l).relocate place := by
  unfold Lexeme.relocate Token.relocate
  rw [judge_span_update, judge_span]

theorem judge_shift (l : Lexeme) (d : Int) :
    reg.judge previous (l.shift d) = (reg.judge previous l).shift d :=
  reg.judge_relocate previous (fun a => a.shift d) l

theorem role_judge_eq_iff {r : Role} {k : Lexeme.Kind} (h : r.FixedBy k) (l : Lexeme) :
    (reg.judge previous l).role = r ↔ l.kind = k := by
  unfold judge judgeOperand
  cases h <;> repeat' split
  all_goals simp_all [Lexeme.token, Lexeme.asField, Lexeme.asCondition, Lexeme.asValue,
    Lexeme.asConjunction]

/-- a parenthesis has no fault before it is settled -/
theorem unsettled_judge (l : Lexeme) : (reg.judge previous l).unsettled = reg.judge previous l := by
  unfold judge judgeOperand
  repeat' split
  all_goals rfl

/-! ## many lexemes -/

theorem length_judgeAll (ls : List Lexeme) : (reg.judgeAll previous ls).length = ls.length := by
  have h := congrArg List.length (reg.map_text_judgeAll previous ls)
  rwa [List.length_map, List.length_map] at h

theorem take_judgeAll (n : Nat) (ls : List Lexeme) :
    (reg.judgeAll previous ls).take n = reg.judgeAll previous (ls.take n) := by
  induction ls generalizing previous n with
  | nil => simp [judgeAll]
  | cons l ls ih =>
    cases n with
    | zero => rfl
    | succ n => exact congrArg (_ :: ·) (ih (after previous (reg.judge previous l).role) n)

theorem judgeAll_append (ls ms : List Lexeme) :
    reg.judgeAll previous (ls ++ ms) = reg.judgeAll previous ls
      ++ reg.judgeAll (lastRole previous (reg.judgeAll previous ls)) ms := by
  induction ls generalizing previous with
  | nil => rfl
  | cons l ls ih =>
    show _ :: reg.judgeAll _ (ls ++ ms) = _ :: (reg.judgeAll _ ls ++ _)
    rw [ih]
    rfl

theorem judgeAll_map_relocate (place : Span → Span) (ls : List Lexeme) :
    reg.judgeAll previous (ls.map (Lexeme.relocate place))
      = (reg.judgeAll previous ls).map (Token.relocate place) := by
  induction ls generalizing previous with
  | nil => rfl
  | cons l ls ih =>
    show reg.judge previous (l.relocate place) :: reg.judgeAll _ (ls.map _)
      = (reg.judge previous l).relocate place :: (reg.judgeAll _ ls).map _
    rw [ih, judge_relocate]
    rfl

theorem judgeAll_map_shift (ls : List Lexeme) (d : Int) :
    reg.judgeAll previous (ls.map (fun l => l.shift d))
      = (reg.judgeAll previous ls).map (fun t => t.shift d) :=
  reg.judgeAll_map_relocate previous (fun a => a.shift d) ls

theorem map_unsettled_judgeAll (ls : List Lexeme) :
    (reg.judgeAll previous ls).map Token.unsettled = reg.judgeAll previous ls := by
  induction ls generalizing previous with
  | nil => rfl
  | cons l ls ih =>
    show (reg.judge previous l).unsettled :: (reg.judgeAll _ ls).map _ = _ :: reg.judgeAll _ ls
    rw [ih, unsettled_judge]

end Registry

theorem lastRole_congr {ts us : List Token} (h : ts.map Token.role = us.map Token.role)
    (previous : Option Role) : lastRole previous ts = lastRole previous us := by
  have hfold : ∀ vs : List Token, lastRole previous vs = (vs.map Token.role).foldl after previous :=
    fun vs => List.foldl_map.symm
  rw [hfold, hfold, h]

theorem lastRole_map {f : Token → Token} (hf : ∀ t, (f t).role = t.role) (previous : Option Role)
    (ts : List Token) : lastRole previous (ts.map f) = lastRole previous ts := by
  refine lastRole_congr ?_ previous
  rw [List.map_map]
  exact List.map_congr_left (fun t _ => hf t)

/-! ## tokens that stand for lexemes -/

def Lexeme.piece (l : Lexeme) : Text × Span := (l.text, l.span)

def Token.piece (t : Token) : Text × Span := (t.text, t.span)

/-- the tokens have the texts and the spans of the lexemes -/
def Lexed (ls : List Lexeme) (ts : List Token) : Prop := ts.map Token.piece = ls.map Lexeme.piece

namespace Lexed
variable {ls ms : List Lexeme} {ts us : List Token}

theorem length_eq (h : Lexed ls ts) : ts.length = ls.length := by
  have e := congrArg List.length h
  rwa [List.length_map, List.length_map] at e

theorem eq_nil_iff (h : Lexed ls ts) : ts = [] ↔ ls = [] := by
  rw [← List.length_eq_zero_iff, h.length_eq, List.length_eq_zero_iff]

theorem split (h : Lexed ls (ts ++ us)) :
    ∃ ls' ms', ls = ls' ++ ms' ∧ Lexed ls' ts ∧ Lexed ms' us := by
  unfold Lexed at h
  rw [List.map_append] at h
  obtain ⟨ls', ms', e, h1, h2⟩ := List.map_eq_append_iff.mp h.symm
  exact ⟨ls', ms', e, h1.symm, h2.symm⟩

theorem of_append (h : Lexed (ls ++ ms) (ts ++ us)) (hl : ts.length = ls.length) :
    Lexed ls ts ∧ Lexed ms us := by
  unfold Lexed at h
  rw [List.map_append, List.map_append] at h
  exact List.append_inj h (by rw [List.length_map, List.length_map, hl])

theorem cons_cons {l : Lexeme} {t : Token} (h : Lexed (l :: ls) (t :: ts)) :
    t.text = l.text ∧ t.span = l.span := by
  have e := (List.cons.inj h).1
  exact ⟨congrArg Prod.fst e, congrArg Prod.snd e⟩

theorem takeWhile_span (p : Span → Bool) (h : Lexed ls ts) :
    Lexed (ls.takeWhile (fun l => p l.span)) (ts.takeWhile (fun t => p t.span)) := by
  have e := congrArg (List.takeWhile (fun x => p x.2)) h
  rw [List.takeWhile_map, List.takeWhile_map] at e
  exact e

theorem dropLast (h : Lexed ls ts) : Lexed ls.dropLast ts.dropLast := by
  have e := congrArg List.dropLast h
  rwa [← List.map_dropLast, ← List.map_dropLast] at e

end Lexed

theorem Registry.lexed_judgeAll (reg : Registry) (previous : Option Role) (ls : List Lexeme) :
    Lexed ls (reg.judgeAll previous ls) := by
  induction ls generalizing previous with
  | nil => rfl
  | cons l ls ih =>
    show (_, _) :: (reg.judgeAll _ ls).map _ = (_, _) :: ls.map _
    rw [ih, judge_text, judge_span]

theorem Registry.lexed_balanced (reg : Registry) (ls : List Lexeme) :
    Lexed ls (balanced (reg.judgeAll none ls)) :=
  (map_settle Token.piece (fun _ _ => rfl) 0 _).trans (reg.lexed_judgeAll none ls)

theorem Query.lexed_ofText (reg : Registry) (s : Text) : Lexed (lex s) (ofText reg s).tokens :=
  reg.lexed_balanced (lex s)

/-! ## tokens read off lexemes -/

/-- the tokens of the lexemes behind `previous`, whatever the verdicts of parentheses -/
def Registry.Reads (reg : Registry) (previous : Option Role) (ls : List Lexeme)
    (ts : List Token) : Prop :=
  ts.map Token.unsettled = reg.judgeAll previous ls

namespace Registry.Reads
variable {reg : Registry} {previous : Option Role} {ls ms : List Lexeme} {ts us : List Token}

theorem of_judgeAll (reg : Registry) (previous : Option Role) (ls : List Lexeme) :
    reg.Reads previous ls (reg.judgeAll previous ls) := reg.map_unsettled_judgeAll previous ls

theorem lastRole_eq (h : reg.Reads previous ls ts) (p : Option Role) :
    lastRole p (reg.judgeAll previous ls) = lastRole p ts := by
  rw [← h]
  exact lastRole_map Token.role_unsettled p ts

theorem append (h : reg.Reads previous ls ts) (h' : reg.Reads (lastRole previous ts) ms us) :
    reg.Reads previous (ls ++ ms) (ts ++ us) := by
  show (ts ++ us).map _ = _
  rw [List.map_append, judgeAll_append, h.lastRole_eq, h, h']

theorem of_append (h : reg.Reads previous (ls ++ ms) (ts ++ us)) (hl : ts.length = ls.length) :
    reg.Reads previous ls ts ∧ reg.Reads (lastRole previous ts) ms us := by
  unfold Reads at h
  rw [List.map_append, judgeAll_append] at h
  obtain ⟨h1, h2⟩ := List.append_inj h (by rw [List.length_map, length_judgeAll, hl])
  refine ⟨h1, ?_⟩
  rw [lastRole_eq h1] at h2
  exact h2

theorem map_shift (h : reg.Reads previous ls ts) (d : Int) :
    reg.Reads previous (ls.map (fun l => l.shift d)) (ts.map (fun t => t.shift d)) := by
  have e := congrArg (List.map (fun t => t.shift d)) h
  rw [List.map_map, ← judgeAll_map_shift] at e
  rw [Reads, List.map_map, ← e]
  exact List.map_congr_left (fun t _ => t.unsettled_shift d)

/-- **A settled reading of a text is its query.** -/
theorem eq_ofText {s : Text} (h : reg.Reads none (lex s) ts) (hs : Settled 0 ts) :
    ts = (Query.ofText reg s).tokens :=
  hs.eq_balanced (h.trans (reg.map_unsettled_judgeAll none (lex s)).symm)

/-- what settling any reading gives -/
theorem balanced_eq_ofText {s : Text} (h : reg.Reads none (lex s) ts) :
    balanced ts = (Query.ofText reg s).tokens := by
  rw [← balanced_map_unsettled, h]
  rfl

end Registry.Reads

theorem Query.reads_ofText (reg : Registry) (s : Text) :
    reg.Reads none (lex s) (ofText reg s).tokens :=
  (map_unsettled_balanced _).trans (reg.map_unsettled_judgeAll none (lex s))

end FilterQuery
