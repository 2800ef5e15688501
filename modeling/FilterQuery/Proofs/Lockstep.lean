import FilterQuery.Proofs.Flawless
import FilterQuery.Proofs.Surroundings
import Mathlib.Data.List.Forall2

/-!
# Two queries side by side

Tokens know each other from their roles alone.  So two texts, or one text with two registries, that
have lexeme for lexeme the same roles differ in no token but those whose lexemes are judged differently
on the spot.

* `Query.map_role_eq`      lexemes that take the same role behind any role, one by one, have the same
  roles in the two queries;
* `Lexeme.Exchangeable`    the lexemes of which one may stand for another without a change of role;
* `Query.ofText_exchange`  a lexeme exchanged for another one changes no role and no verdict but its
  own: faults do not cascade;
* `judge_cases`            only where an operand is due is the registry asked;
* `Registry.Resolves`      a token tells what a registry has under its text;
* `Query.ofText_registry`  a registry exchanged for another one changes no role and no verdict, but
  those of fields on which the two differ.
-/

namespace FilterQuery

/-! ## the same roles -/

theorem Registry.map_role_judgeAll_eq {reg reg' : Registry} {ls ms : List Lexeme}
    (h : List.Forall₂ (fun l m => ∀ p, (reg.judge p l).role = (reg'.judge p m).role) ls ms)
    (previous : Option Role) :
    (reg.judgeAll previous ls).map Token.role = (reg'.judgeAll previous ms).map Token.role := by
  induction h generalizing previous with
  | nil => rfl
  | @cons l m ls ms hlm _ ih =>
    show (reg.judge previous l).role :: (reg.judgeAll _ ls).map Token.role
      = (reg'.judge previous m).role :: (reg'.judgeAll _ ms).map Token.role
    rw [hlm, ih]

/-- **Two texts have the same roles** if their lexemes take the same ones, whatever stands in front. -/
theorem Query.map_role_eq {reg reg' : Registry} {s s' : Text}
    (h : List.Forall₂ (fun l m => ∀ p, (reg.judge p l).role = (reg'.judge p m).role)
      (lex s) (lex s')) :
    (ofText reg s).tokens.map Token.role = (ofText reg' s').tokens.map Token.role := by
  rw [map_role_ofText, map_role_ofText, Registry.map_role_judgeAll_eq h]

/-! ## one token in its surroundings -/

namespace Registry
variable (reg : Registry) (a : Surroundings) (l : Lexeme)

theorem role_tokenIn : (reg.tokenIn a l).role = (reg.judge a.previous l).role :=
  Token.role_settled ..

theorem text_tokenIn : (reg.tokenIn a l).text = l.text :=
  (Token.text_settled ..).trans (reg.judge_text a.previous l)

theorem span_tokenIn : (reg.tokenIn a l).span = l.span :=
  (Token.span_settled ..).trans (reg.judge_span a.previous l)

theorem tokenIn_span_update (b : Span) :
    reg.tokenIn a { l with span := b } = { reg.tokenIn a l with span := b } := by
  unfold tokenIn
  rw [judge_span_update, Token.settled_span_update]

end Registry

/-! ## a lexeme exchanged for another -/

/-- what a lexeme looks like, wherever it stands -/
def Lexeme.look (l : Lexeme) : Lexeme.Kind × Text := (l.kind, l.text)

/-- what a token says, wherever it stands -/
def Token.content (t : Token) : Role × Text × Option Fault × Option Resolution :=
  (t.role, t.text, t.fault, t.resolution)

/-- a lexeme that takes the role that is due -/
structure Lexeme.Exchangeable (l : Lexeme) : Prop where
  ne_blank : l.kind ≠ .blank
  ne_open : l.kind ≠ .openParen
  ne_close : l.kind ≠ .closeParen
  ne_not : l.text ≠ "not".toList

instance (l : Lexeme) : Decidable l.Exchangeable :=
  decidable_of_iff (l.kind ≠ .blank ∧ l.kind ≠ .openParen ∧ l.kind ≠ .closeParen ∧
    l.text ≠ "not".toList) ⟨fun ⟨h1, h2, h3, h4⟩ => ⟨h1, h2, h3, h4⟩,
    fun ⟨h1, h2, h3, h4⟩ => ⟨h1, h2, h3, h4⟩⟩

theorem Lexeme.eq_span_update {l m : Lexeme} (h : l.look = m.look) :
    m = { l with span := m.span } := by
  obtain ⟨k, w, a⟩ := l
  obtain ⟨k', w', b⟩ := m
  obtain ⟨rfl, rfl⟩ := Prod.mk.inj h
  rfl

namespace Registry
variable (reg : Registry) {l m : Lexeme}

theorem content_tokenIn (h : l.look = m.look) (a : Surroundings) :
    (reg.tokenIn a l).content = (reg.tokenIn a m).content := by
  rw [Lexeme.eq_span_update h, reg.tokenIn_span_update a l m.span]
  rfl

theorem map_content_tokenIn {x y : Option Lexeme} (h : x.map Lexeme.look = y.map Lexeme.look)
    (a : Surroundings) :
    (x.map (reg.tokenIn a)).map Token.content = (y.map (reg.tokenIn a)).map Token.content := by
  cases x with
  | none => rw [Option.map_eq_none_iff.mp h.symm]
  | some l =>
    obtain ⟨m, rfl, hm⟩ := Option.map_eq_some_iff.mp h.symm
    exact congrArg some (reg.content_tokenIn hm.symm a)

theorem role_judge_of_look (h : l.look = m.look) (previous : Option Role) :
    (reg.judge previous l).role = (reg.judge previous m).role := by
  rw [Lexeme.eq_span_update h, reg.judge_span_update previous l m.span]

theorem role_judge_of_exchangeable (hl : l.Exchangeable) (hm : m.Exchangeable)
    (previous : Option Role) : (reg.judge previous l).role = (reg.judge previous m).role := by
  rw [reg.role_judge_of_due previous hl.ne_blank hl.ne_open hl.ne_close hl.ne_not,
    reg.role_judge_of_due previous hm.ne_blank hm.ne_open hm.ne_close hm.ne_not]

end Registry

/-- **Faults do not cascade.**  Two texts that differ in one lexeme, be it a registered name in one
and a broken literal in the other, have the same roles, and but for that lexeme the same tokens. -/
theorem Query.ofText_exchange (reg : Registry) {s s' : Text} {i : Nat}
    (hlen : (lex s).length = (lex s').length)
    (hsame : ∀ j < (lex s).length, j ≠ i →
      ((lex s)[j]?).map Lexeme.look = ((lex s')[j]?).map Lexeme.look)
    (hi : ∀ l ∈ (lex s)[i]?, l.Exchangeable) (hi' : ∀ l ∈ (lex s')[i]?, l.Exchangeable) :
    let ts := (ofText reg s).tokens
    let ts' := (ofText reg s').tokens
    (∀ j : Nat, (ts[j]?).map Token.role = (ts'[j]?).map Token.role) ∧
      ∀ j : Nat, j ≠ i → (ts[j]?).map Token.content = (ts'[j]?).map Token.content := by
  intro ts ts'
  have hlook : ∀ j : Nat, j ≠ i → ((lex s)[j]?).map Lexeme.look = ((lex s')[j]?).map Lexeme.look := by
    intro j hj
    by_cases hlt : j < (lex s).length
    · exact hsame j hlt hj
    · rw [List.getElem?_eq_none (by omega), List.getElem?_eq_none (by omega)]
  have hroles : ts.map Token.role = ts'.map Token.role := by
    refine map_role_eq (List.forall₂_iff_get.mpr ⟨hlen, fun j h h' p => ?_⟩)
    have hl : (lex s)[j]? = some _ := List.getElem?_eq_getElem h
    have hm : (lex s')[j]? = some _ := List.getElem?_eq_getElem h'
    by_cases hj : j = i
    · subst hj
      exact reg.role_judge_of_exchangeable (hi _ hl) (hi' _ hm) p
    · have heq := hlook j hj
      rw [hl, hm] at heq
      exact reg.role_judge_of_look (Option.some.inj heq) p
  refine ⟨fun j => ?_, fun j hj => ?_⟩
  · rw [← List.getElem?_map, ← List.getElem?_map, hroles]
  · show ((ofText reg s).tokens[j]?).map _ = ((ofText reg s').tokens[j]?).map _
    rw [getElem?_tokens, getElem?_tokens, surroundings_congr hroles j]
    exact reg.map_content_tokenIn (hlook j hj) _

/-- a literal in the place of a registered name, and text that moves behind it -/
theorem Query.ofText_exchange_literal :
    let s := "(dst_ip=1) or x)".toList
    let s' := "(\"a b\"=1) or x)".toList
    (lex s).length = (lex s').length ∧
      (∀ j < (lex s).length, j ≠ 1 →
        ((lex s)[j]?).map Lexeme.look = ((lex s')[j]?).map Lexeme.look) ∧
      (∀ l ∈ (lex s)[1]?, l.Exchangeable) ∧ (∀ l ∈ (lex s')[1]?, l.Exchangeable) ∧
      let ts := (ofText .builtin s).tokens
      let ts' := (ofText .builtin s').tokens
      (∀ j : Nat, (ts[j]?).map Token.role = (ts'[j]?).map Token.role) ∧
        ∀ j : Nat, j ≠ 1 → (ts[j]?).map Token.content = (ts'[j]?).map Token.content := by
  have hlen : (lex "(dst_ip=1) or x)".toList).length = (lex "(\"a b\"=1) or x)".toList).length := by
    decide +kernel
  have hsame : ∀ j < (lex "(dst_ip=1) or x)".toList).length, j ≠ 1 →
      ((lex "(dst_ip=1) or x)".toList)[j]?).map Lexeme.look
        = ((lex "(\"a b\"=1) or x)".toList)[j]?).map Lexeme.look := by
    decide +kernel
  have hi : ∀ l ∈ (lex "(dst_ip=1) or x)".toList)[1]?, l.Exchangeable := by decide +kernel
  have hi' : ∀ l ∈ (lex "(\"a b\"=1) or x)".toList)[1]?, l.Exchangeable := by decide +kernel
  exact ⟨hlen, hsame, hi, hi', ofText_exchange .builtin hlen hsame hi hi'⟩

/-! ## what a registry decides -/

namespace Registry

/-- a field of the registry has the name and the type -/
def Declares (reg : Registry) (name : Text) (type : ValueType) : Prop :=
  ∃ f ∈ reg.fields, f.name = name ∧ f.valueType = type

/-- **A token tells what the registry has under its text**: the type of the field of that name and no
fault, or that there is none. -/
def Resolves (reg : Registry) (t : Token) : Prop :=
  (∃ type, reg.Declares t.text type ∧ t.fault = none ∧ t.resolution = some (.known type)) ∨
    (∀ type, ¬ reg.Declares t.text type) ∧ t.fault = some .unknownField ∧
      t.resolution = some .unknown

variable {reg reg' : Registry} {previous : Option Role} {l : Lexeme}

theorem declares_iff {name : Text} {type : ValueType} :
    reg.Declares name type ↔ (reg.get? name).map Field.valueType = some type := by
  constructor
  · rintro ⟨f, hf, rfl, rfl⟩
    rw [reg.get?_of_mem hf]
    rfl
  · intro h
    obtain ⟨f, hf, rfl⟩ := Option.map_eq_some_iff.mp h
    obtain ⟨hmem, hname⟩ := reg.mem_of_get? hf
    exact ⟨f, hmem, hname, rfl⟩

/-- **Only where an operand is due is the registry asked.** -/
theorem judge_cases (previous : Option Role) (l : Lexeme) :
    (∀ reg : Registry, reg.judge previous l = reg.judgeOperand previous l) ∨
      ∃ t : Token, t.role ≠ .field ∧ ∀ reg : Registry, reg.judge previous l = t := by
  unfold judge
  split
  · exact .inr ⟨_, by simp [Lexeme.token], fun _ => rfl⟩
  · exact .inr ⟨_, by simp [Lexeme.token], fun _ => rfl⟩
  · exact .inr ⟨_, by simp [Lexeme.token], fun _ => rfl⟩
  · split
    · exact .inr ⟨_, by simp [Lexeme.asCondition, Lexeme.token], fun _ => rfl⟩
    · exact .inr ⟨_, by simp [Lexeme.asValue, Lexeme.token], fun _ => rfl⟩
    · exact .inr ⟨_, by simp [Lexeme.asConjunction, Lexeme.token], fun _ => rfl⟩
    · exact .inr ⟨_, by simp [Lexeme.asConjunction, Lexeme.token], fun _ => rfl⟩
    · exact .inl fun _ => rfl

theorem judge_of_field (h : (reg.judge previous l).role = .field) :
    (∃ f, reg.get? l.text = some f ∧
        reg.judge previous l = l.asField none (.known f.valueType)) ∨
      reg.get? l.text = none ∧ reg.judge previous l = l.asField (some .unknownField) .unknown := by
  have hjudges := reg.judges_judge previous l
  generalize reg.judge previous l = t at h hjudges
  cases hjudges with
  | known _ hf => exact .inl ⟨_, hf, rfl⟩
  | unknown _ hf => exact .inr ⟨hf, rfl⟩
  | _ => exact Role.noConfusion h

theorem judgeOperand_of_not_field (h : (reg.judgeOperand previous l).role ≠ .field) :
    reg.judgeOperand previous l = l.token .keyword none := by
  rw [role_judgeOperand] at h
  split at h
  · next hnot => exact reg.judgeOperand_not hnot.1 hnot.2.1 hnot.2.2
  · exact absurd rfl h

/-- registries that agree on whether there is a field `not` give the same roles -/
theorem role_judge_registry
    (hnot : reg.contains "not".toList = reg'.contains "not".toList)
    (previous : Option Role) (l : Lexeme) :
    (reg.judge previous l).role = (reg'.judge previous l).role := by
  obtain hoperand | ⟨t, -, hjudge⟩ := judge_cases previous l
  · have hget : reg.get? "not".toList = none ↔ reg'.get? "not".toList = none := by
      unfold contains at hnot
      rw [← Option.not_isSome_iff_eq_none, ← Option.not_isSome_iff_eq_none, hnot]
    rw [hoperand, hoperand, role_judgeOperand, role_judgeOperand]
    refine if_congr ?_ rfl rfl
    constructor
    · rintro ⟨h1, h2, h3⟩
      exact ⟨h2 ▸ hget.mp (h2 ▸ h1), h2, h3⟩
    · rintro ⟨h1, h2, h3⟩
      exact ⟨h2 ▸ hget.mpr (h2 ▸ h1), h2, h3⟩
  · rw [hjudge, hjudge]

/-- a lexeme is judged alike by registries that give it the same role and know it as the same type -/
theorem judge_registry (hrole : (reg.judge previous l).role = (reg'.judge previous l).role)
    (h : (reg.judge previous l).role ≠ .field ∨
      (reg.get? l.text).map Field.valueType = (reg'.get? l.text).map Field.valueType) :
    reg.judge previous l = reg'.judge previous l := by
  by_cases hfield : (reg.judge previous l).role = .field
  · have htype := h.resolve_left (fun hno => hno hfield)
    obtain ⟨f, hf, hj⟩ | ⟨hf, hj⟩ := judge_of_field hfield <;>
    obtain ⟨g, hg, hj'⟩ | ⟨hg, hj'⟩ := judge_of_field (hrole.symm.trans hfield) <;>
    rw [hf, hg] at htype
    · rw [hj, hj', Option.some.inj htype]
    · exact absurd htype (Option.some_ne_none _)
    · exact absurd htype.symm (Option.some_ne_none _)
    · rw [hj, hj']
  · obtain hoperand | ⟨t, -, hjudge⟩ := judge_cases previous l
    · rw [hoperand] at hfield
      have hfield' : (reg'.judgeOperand previous l).role ≠ .field := by
        rwa [← hoperand, ← hrole, hoperand]
      rw [hoperand, hoperand, judgeOperand_of_not_field hfield, judgeOperand_of_not_field hfield']
    · rw [hjudge, hjudge]

theorem not_declares_iff {name : Text} :
    (∀ type, ¬ reg.Declares name type) ↔ reg.get? name = none := by
  simp only [declares_iff]
  rw [← Option.eq_none_iff_forall_ne_some, Option.map_eq_none_iff]

theorem resolves_tokenIn {a : Surroundings} (h : (reg.tokenIn a l).role = .field) :
    reg.Resolves (reg.tokenIn a l) := by
  rw [role_tokenIn] at h
  have htoken : reg.tokenIn a l = reg.judge a.previous l :=
    Token.settled_of_not_paren _ _ (by rw [h]; rfl)
  rw [htoken]
  obtain ⟨f, hf, hj⟩ | ⟨hf, hj⟩ := judge_of_field h
  · have hdeclares : reg.Declares l.text f.valueType := by rw [declares_iff, hf]; rfl
    rw [hj]
    exact .inl ⟨f.valueType, hdeclares, rfl, rfl⟩
  · rw [hj]
    exact .inr ⟨not_declares_iff.mpr hf, rfl, rfl⟩

end Registry

/-! ## a registry exchanged for another -/

theorem Query.resolves_ofText (reg : Registry) (s : Text) :
    ∀ t ∈ (ofText reg s).tokens, t.role = .field → reg.Resolves t := by
  intro t ht hr
  obtain ⟨i, hi⟩ := List.mem_iff_getElem?.mp ht
  rw [getElem?_tokens] at hi
  obtain ⟨l, -, rfl⟩ := Option.map_eq_some_iff.mp hi
  exact Registry.resolves_tokenIn hr

/-- **The registry only decides on fields.**  With two registries that agree on whether a field is
named `not`, a text has the same roles and pieces, and the same tokens but for fields on which the two
registries differ; every field token tells what its own registry has under its text. -/
theorem Query.ofText_registry {reg reg' : Registry}
    (hnot : reg.contains "not".toList = reg'.contains "not".toList) (s : Text) :
    let ts := (ofText reg s).tokens
    let ts' := (ofText reg' s).tokens
    (∀ i : Nat, (ts[i]?).map (fun t => (t.role, t.text, t.span))
        = (ts'[i]?).map (fun t => (t.role, t.text, t.span))) ∧
      (∀ (i : Nat) (t t' : Token), ts[i]? = some t → ts'[i]? = some t' →
        (t.role ≠ .field ∨
          ∀ type, reg.Declares t.text type ↔ reg'.Declares t.text type) → t = t') ∧
      (∀ t ∈ ts, t.role = .field → reg.Resolves t) ∧
      ∀ t ∈ ts', t.role = .field → reg'.Resolves t := by
  intro ts ts'
  have hrole := Registry.role_judge_registry hnot
  have hroles : ts.map Token.role = ts'.map Token.role :=
    map_role_eq (List.forall₂_same.mpr (fun l _ p => hrole p l))
  have hget : ∀ i : Nat, ts[i]? = (lex s)[i]?.map (reg.tokenIn (surroundings ts' i)) := by
    intro i
    rw [← surroundings_congr hroles i]
    exact getElem?_tokens reg s i
  have hget' : ∀ i : Nat, ts'[i]? = (lex s)[i]?.map (reg'.tokenIn (surroundings ts' i)) :=
    getElem?_tokens reg' s
  refine ⟨fun i => ?_, fun i t t' ht ht' h => ?_, resolves_ofText reg s, resolves_ofText reg' s⟩
  · rw [hget, hget', Option.map_map, Option.map_map]
    refine congrArg (fun f => (lex s)[i]?.map f) (funext fun l => ?_)
    show (_, _, _) = (_, _, _)
    rw [reg.role_tokenIn, reg'.role_tokenIn, hrole, reg.text_tokenIn, reg'.text_tokenIn,
      reg.span_tokenIn, reg'.span_tokenIn]
  · rw [hget] at ht
    rw [hget'] at ht'
    obtain ⟨l, hl, rfl⟩ := Option.map_eq_some_iff.mp ht
    rw [hl] at ht'
    obtain rfl := Option.some.inj ht'
    rw [reg.role_tokenIn, reg.text_tokenIn] at h
    have htype : (reg.judge (surroundings ts' i).previous l).role ≠ .field ∨
        (reg.get? l.text).map Field.valueType = (reg'.get? l.text).map Field.valueType := by
      refine h.imp_right (fun hd => Option.ext fun type => ?_)
      rw [← Registry.declares_iff, ← Registry.declares_iff]
      exact hd type
    show Token.settled _ _ _ = Token.settled _ _ _
    rw [Registry.judge_registry (hrole _ l) htype]

/-- a registry of two fields, one of them a port as text -/
def Registry.hosts : Registry where
  fields := [⟨"src_port".toList, .string, none⟩, ⟨"host".toList, .string, some "Name".toList⟩]
  distinct := by decide
  typeable := by decide

/-- one name is registered in both with another type, one in each alone, and one in none -/
theorem Query.ofText_registry_hosts :
    let s := "not (src_port<1 or host=2) and dst_ip=x) or y".toList
    let ts := (ofText .builtin s).tokens
    let ts' := (ofText .hosts s).tokens
    Registry.builtin.contains "not".toList = Registry.hosts.contains "not".toList ∧
      (∀ i : Nat, (ts[i]?).map (fun t => (t.role, t.text, t.span))
        = (ts'[i]?).map (fun t => (t.role, t.text, t.span))) ∧
      (∀ (i : Nat) (t t' : Token), ts[i]? = some t → ts'[i]? = some t' →
        (t.role ≠ .field ∨
          ∀ type, Registry.builtin.Declares t.text type ↔ Registry.hosts.Declares t.text type) →
        t = t') ∧
      (∀ t ∈ ts, t.role = .field → Registry.builtin.Resolves t) ∧
      ∀ t ∈ ts', t.role = .field → Registry.hosts.Resolves t :=
  ⟨by decide, ofText_registry (by decide) _⟩

end FilterQuery
