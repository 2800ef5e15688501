import FilterQuery.Proofs.Matching
import FilterQuery.Proofs.Phrases
import Mathlib.Data.List.Nodup

/-!
# Texts without diagnostics

* `Registry.Flawless p ls`    no fault is found in the lexemes `ls` behind the role `p`, parentheses
  apart;
* `flawless_follows`, `flawless_phrase`   in a run without parentheses this says which places the
  lexemes fill;
* `flawless_iff`              no fault is found iff every run is a phrase;
* `diagnostics_eq_nil_iff`    a text has no diagnostics iff, besides, its parentheses match.
-/

namespace FilterQuery

/-! ## one lexeme in its place -/

/-- a lexeme that is neither a blank nor a parenthesis -/
structure Lexeme.Plain (l : Lexeme) : Prop where
  ne_blank : l.kind ≠ .blank
  not_paren : l.kind.isParen = false
  operator_iff : l.kind = .operator ↔ l.text ∈ comparisons

theorem Lexeme.Plain.ne_open {l : Lexeme} (h : l.Plain) : l.kind ≠ .openParen :=
  fun hk => absurd h.not_paren (by rw [hk]; decide)

theorem Lexeme.Plain.ne_close {l : Lexeme} (h : l.Plain) : l.kind ≠ .closeParen :=
  fun hk => absurd h.not_paren (by rw [hk]; decide)

theorem fault_eq_none_iff (p : Prop) [Decidable p] (x : Fault) :
    (if p then none else some x) = none ↔ p := by
  by_cases h : p
  · rw [if_pos h]
    exact iff_of_true rfl h
  · rw [if_neg h]
    exact iff_of_false (Option.some_ne_none x) h

theorem Lexeme.valueFault_eq_none_iff (l : Lexeme) :
    l.valueFault = none ↔ l.kind = .literal ∨ l.kind = .word ∧ IsNumeral l.text := by
  rw [← isNumber_iff]
  unfold valueFault
  cases l.kind with
  | word =>
    show (if isNumber l.text then none else some Fault.malformedValue) = none ↔ _
    rw [fault_eq_none_iff]
    simp
  | _ => simp

namespace Registry
variable (reg : Registry)

theorem get?_eq_none_iff {name : Text} : reg.get? name = none ↔ ∀ f ∈ reg.fields, f.name ≠ name := by
  unfold get?
  rw [List.find?_eq_none]
  simp

theorem mem_of_get? {name : Text} {f : Field} (h : reg.get? name = some f) :
    f ∈ reg.fields ∧ f.name = name := by
  refine ⟨List.mem_of_find?_eq_some h, ?_⟩
  have hp := List.find?_some h
  simpa using hp

theorem get?_of_mem {f : Field} (h : f ∈ reg.fields) : reg.get? f.name = some f := by
  cases hg : reg.get? f.name with
  | none => exact absurd rfl (reg.get?_eq_none_iff.mp hg f h)
  | some g =>
    obtain ⟨hmem, hname⟩ := reg.mem_of_get? hg
    rw [List.inj_on_of_nodup_map reg.distinct hmem h hname]

theorem judge_of_blank {l : Lexeme} (h : l.kind = .blank) (previous : Option Role) :
    reg.judge previous l = l.token .blank none := by
  unfold judge
  rw [h]

theorem judge_of_plain {l : Lexeme} (h : l.Plain) (previous : Option Role) :
    reg.judge previous l =
      match due previous with
      | .condition => l.asCondition
      | .value => l.asValue
      | .keyword => l.asConjunction
      | _ => reg.judgeOperand previous l :=
  reg.judge_of_due previous h.ne_blank h.ne_open h.ne_close

/-- behind a place the next one is due, and its role is given to whatever stands there -/
theorem judge_place {l : Lexeme} (h : l.Plain) (p : Place) :
    (reg.judge (some p.role) l).role = p.next.role ∧
      ((reg.judge (some p.role) l).IsValid ↔ p.next.Takes reg l) := by
  rw [judge_of_plain reg h]
  cases p with
  | field => exact ⟨rfl, (fault_eq_none_iff _ .malformedOperator).trans h.operator_iff⟩
  | operator => exact ⟨rfl, l.valueFault_eq_none_iff⟩
  | value => exact ⟨rfl, fault_eq_none_iff _ .unexpectedKeyword⟩
  | conjunction =>
    show (reg.judgeOperand (some .keyword) l).role = .field ∧
      ((reg.judgeOperand (some .keyword) l).IsValid ↔ ∃ f ∈ reg.fields, f.name = l.text)
    cases hg : reg.get? l.text with
    | some f =>
      rw [reg.judgeOperand_of_get? hg]
      exact ⟨rfl, iff_of_true rfl ⟨f, reg.mem_of_get? hg⟩⟩
    | none =>
      have hn : ¬ ∃ f ∈ reg.fields, f.name = l.text := by
        rintro ⟨f, hf, he⟩
        exact reg.get?_eq_none_iff.mp hg f hf he
      rw [reg.judgeOperand_unknown hg (fun _ => rfl)]
      exact ⟨rfl, iff_of_false (fun hv => absurd hv (Option.some_ne_none _)) hn⟩

/-! ## judging without a fault -/

/-- no fault is found in the lexemes, parentheses apart -/
def Flawless (previous : Option Role) (ls : List Lexeme) : Prop :=
  ∀ t ∈ reg.judgeAll previous ls, t.IsValid

variable {reg}

theorem flawless_nil (previous : Option Role) : reg.Flawless previous [] :=
  fun _ h => absurd h List.not_mem_nil

theorem flawless_cons {previous : Option Role} {l : Lexeme} {ls : List Lexeme} :
    reg.Flawless previous (l :: ls) ↔ (reg.judge previous l).IsValid ∧
      reg.Flawless (after previous (reg.judge previous l).role) ls := List.forall_mem_cons

theorem flawless_append {previous : Option Role} {ls ms : List Lexeme} :
    reg.Flawless previous (ls ++ ms) ↔ reg.Flawless previous ls ∧
      reg.Flawless (lastRole previous (reg.judgeAll previous ls)) ms := by
  unfold Flawless
  rw [judgeAll_append, List.forall_mem_append]

theorem flawless_filter (previous : Option Role) (ls : List Lexeme) :
    reg.Flawless previous (ls.filter (fun l => l.kind ≠ .blank)) ↔ reg.Flawless previous ls := by
  induction ls generalizing previous with
  | nil => exact Iff.rfl
  | cons l ls ih =>
    by_cases hk : l.kind = .blank
    · have hj := reg.judge_of_blank hk previous
      rw [List.filter_cons_of_neg (by simpa using hk), flawless_cons, hj, ih]
      exact ⟨fun h => ⟨rfl, h⟩, fun h => h.2⟩
    · rw [List.filter_cons_of_pos (by simpa using hk), flawless_cons, flawless_cons, ih]

/-! ## runs -/

/-- **Behind a place, no fault is found in a run** iff its lexemes fill the places from the next one
on. -/
theorem flawless_follows {run : List Lexeme} (h : ∀ l ∈ run, l.Plain) (p : Place) :
    reg.Flawless (some p.role) run ↔ p.next.Follows reg run := by
  induction run generalizing p with
  | nil => exact iff_of_true (flawless_nil _) trivial
  | cons l run ih =>
    obtain ⟨hl, hrun⟩ := List.forall_mem_cons.mp h
    obtain ⟨hrole, hvalid⟩ := reg.judge_place hl p
    have hafter : after (some p.role) p.next.role = some p.next.role := by cases p <;> rfl
    rw [flawless_cons, hrole, hafter, hvalid, ih hrun p.next]
    exact Iff.rfl

/-- a closing parenthesis stands for a value -/
theorem flawless_behind_close {run : List Lexeme} (h : ∀ l ∈ run, l.Plain) :
    reg.Flawless (some .closeParen) run ↔ Place.conjunction.Follows reg run := by
  refine Iff.trans ?_ (flawless_follows h .value)
  cases run with
  | nil => exact iff_of_true (flawless_nil _) (flawless_nil _)
  | cons l run =>
    have hl := h l List.mem_cons_self
    rw [flawless_cons, flawless_cons, judge_of_plain reg hl, judge_of_plain reg hl]
    exact Iff.rfl

theorem flawless_opens {run : List Lexeme} (h : ∀ l ∈ run, l.Plain) {previous : Option Role}
    (hp : previous = none ∨ previous = some .openParen) :
    reg.Flawless previous run ↔ reg.Opens run := by
  cases run with
  | nil => exact iff_of_true (flawless_nil _) (.inl trivial)
  | cons l run =>
    obtain ⟨hl, hrun⟩ := List.forall_mem_cons.mp h
    have hjudge : reg.judge previous l = reg.judgeOperand previous l := by
      rw [judge_of_plain reg hl]
      rcases hp with rfl | rfl <;> rfl
    rw [flawless_cons, hjudge]
    cases hg : reg.get? l.text with
    | some f =>
      obtain ⟨hf, hname⟩ := reg.mem_of_get? hg
      have hafter : after previous Role.field = some Place.field.role := rfl
      rw [reg.judgeOperand_of_get? hg, opens_cons_of_mem hf hname]
      show _ ∧ reg.Flawless (after previous Role.field) run ↔ _
      rw [hafter, flawless_follows hrun .field]
      exact and_iff_right rfl
    | none =>
      have hno := reg.get?_eq_none_iff.mp hg
      by_cases hnot : l.text = "not".toList
      · have hkeyword : previous ≠ some .keyword := by
          rcases hp with rfl | rfl <;> decide
        have hafter : after previous Role.keyword = some Place.conjunction.role := rfl
        rw [reg.judgeOperand_not hg hnot hkeyword, opens_cons_of_not hno hnot]
        show _ ∧ reg.Flawless (after previous Role.keyword) run ↔ _
        rw [hafter, flawless_follows hrun .conjunction]
        exact and_iff_right rfl
      · rw [reg.judgeOperand_unknown hg (fun h0 => absurd h0 hnot)]
        have hfault : ¬ (l.asField (some .unknownField) .unknown).IsValid := Option.some_ne_none _
        exact iff_of_false (fun h0 => hfault h0.1) (not_opens_cons hno hnot)

/-! ## all runs -/

variable (reg) in
/-- the role that a list of lexemes leaves to what stands behind it -/
def roleBehind (front : List Lexeme) : Option Role := lastRole none (reg.judgeAll none front)

theorem roleBehind_append (front ls : List Lexeme) :
    reg.roleBehind (front ++ ls) =
      lastRole (reg.roleBehind front) (reg.judgeAll (reg.roleBehind front) ls) := by
  unfold roleBehind
  rw [judgeAll_append, lastRole_append]

theorem roleBehind_concat (front : List Lexeme) (l : Lexeme) :
    reg.roleBehind (front ++ [l]) =
      after (reg.roleBehind front) (reg.judge (reg.roleBehind front) l).role :=
  roleBehind_append front [l]

/-- **Behind the start or a parenthesis, no fault is found in a run** iff it is a phrase. -/
theorem flawless_phrase {front run : List Lexeme} (h : ∀ l ∈ run, l.Plain)
    (hleft : ∀ l ∈ front.getLast?, l.kind.isParen) :
    reg.Flawless (reg.roleBehind front) run ↔ reg.Phrase front run := by
  unfold Phrase
  rcases List.eq_nil_or_concat front with rfl | ⟨front, l, rfl⟩
  · rw [if_neg (by simp)]
    exact flawless_opens h (.inl rfl)
  · have hl : l.kind.isParen := hleft l (by simp)
    rw [List.concat_eq_append, roleBehind_concat]
    by_cases hk : l.kind = .closeParen
    · rw [(reg.role_judge_eq_close _ l).mpr hk, if_pos (by simp [hk])]
      exact flawless_behind_close h
    · have ho : l.kind = .openParen := by
        cases hkind : l.kind <;> simp_all [Lexeme.Kind.isParen]
      rw [(reg.role_judge_eq_open _ l).mpr ho, if_neg (by simp [hk])]
      exact flawless_opens h (.inr rfl)

theorem judge_paren_valid (previous : Option Role) {l : Lexeme} (h : l.kind.isParen) :
    (reg.judge previous l).IsValid := by
  unfold judge
  cases hk : l.kind <;> first | rfl | (rw [hk] at h; exact absurd h (by decide))

theorem flawless_of_phrases {ms : List Lexeme} (hms : ∀ l ∈ ms, l.kind.isParen = false → l.Plain)
    (h : ∀ front run back, IsRun ms front run back → reg.Phrase front run)
    (front rest : List Lexeme) (he : ms = front ++ rest)
    (hleft : ∀ l ∈ front.getLast?, l.kind.isParen) : reg.Flawless (reg.roleBehind front) rest := by
  obtain ⟨run, back, hrest, hplain, hback⟩ := exists_first_run rest
  have hrun : ∀ l ∈ run, l.Plain := by
    intro l hl
    refine hms l ?_ (hplain l hl)
    rw [he, hrest]
    simp [hl]
  have hphrase : reg.Phrase front run :=
    h front run back ⟨by rw [he, hrest, List.append_assoc], hplain, hleft, hback⟩
  have hhere := (flawless_phrase hrun hleft).mpr hphrase
  cases back with
  | nil =>
    rw [hrest, List.append_nil]
    exact hhere
  | cons l back =>
    have hl : l.kind.isParen := hback l rfl
    have hlen : back.length < rest.length := by
      rw [hrest, List.length_append, List.length_cons]
      omega
    have hthere := flawless_of_phrases hms h (front ++ run ++ [l]) back
      (by rw [he, hrest]; simp) (by simpa using hl)
    rw [roleBehind_concat, roleBehind_append] at hthere
    rw [hrest, flawless_append, flawless_cons]
    exact ⟨hhere, judge_paren_valid _ hl, hthere⟩
termination_by rest.length

/-- **No fault is found in a list without blanks** iff every run of it is a phrase. -/
theorem flawless_iff {ms : List Lexeme} (hms : ∀ l ∈ ms, l.kind.isParen = false → l.Plain) :
    reg.Flawless none ms ↔ ∀ front run back, IsRun ms front run back → reg.Phrase front run := by
  constructor
  · rintro h front run back ⟨rfl, hplain, hleft, -⟩
    have hrun : ∀ l ∈ run, l.Plain := fun l hl => hms l (by simp [hl]) (hplain l hl)
    rw [List.append_assoc, flawless_append, flawless_append] at h
    exact (flawless_phrase hrun hleft).mp h.2.1
  · intro h
    exact flawless_of_phrases hms h [] ms rfl (by simp)

end Registry

/-! ## whole texts -/

namespace Query

theorem diagnostics_eq_nil {q : Query} : q.diagnostics = [] ↔ ∀ t ∈ q.tokens, t.IsValid := by
  unfold diagnostics
  simp only [List.filterMap_eq_nil_iff, Option.map_eq_none_iff]
  exact Iff.rfl

/-- **A text has no diagnostics** iff its parentheses match and, blanks left out, every run between
two of them is a phrase. -/
theorem diagnostics_eq_nil_iff (reg : Registry) (s : Text) :
    (ofText reg s).diagnostics = [] ↔
      Matched ((lex s).map Lexeme.kind) ∧
        ∀ front run back, IsRun ((lex s).filter (fun l => l.kind ≠ .blank)) front run back →
          reg.Phrase front run := by
  have hplain : ∀ l ∈ (lex s).filter (fun l => l.kind ≠ .blank), l.kind.isParen = false → l.Plain := by
    intro l hl hp
    obtain ⟨hmem, hblank⟩ := List.mem_filter.mp hl
    exact ⟨by simpa using hblank, hp, kind_eq_operator_of_mem_lex hmem⟩
  rw [diagnostics_eq_nil, ← Registry.flawless_iff hplain, Registry.flawless_filter]
  exact valid_balanced_judgeAll reg (lex s)

end Query

end FilterQuery
