import FilterQuery.Proofs.Checked
import FilterQuery.Proofs.Counting
import FilterQuery.Proofs.Division
import FilterQuery.Proofs.Editing
import FilterQuery.Proofs.Lockstep

/-!
# Tokens that fit together

* `Query.Reachable reg q`    some edits and accepted suggestions lead from the query of a text to `q`;
* `Token.Coherent`           the fault and the resolution of a token fit its role;
* `Token.MayFollow`          behind which role a token may stand, blanks left out;
* `pairwise_settle`          strays come before parentheses that stay open;
* `Query.Coherent`           all tokens of a query fit together;
* `Query.coherent_of_reachable`   they do in every query that edits and suggestions lead to.
-/

namespace FilterQuery
open Text

/-! ## one token -/

/-- the role of the tokens that a fault is found in -/
def Fault.role : Fault → Role
  | .unknownField => .field
  | .malformedOperator => .condition
  | .malformedValue | .unterminatedLiteral => .value
  | .unexpectedKeyword => .keyword
  | .unmatchedOpen => .openParen
  | .unmatchedClose => .closeParen

namespace Token

/-- **Fault and resolution of a token fit its role.** -/
structure Coherent (t : Token) : Prop where
  resolved_iff : t.resolution.isSome ↔ t.role = .field
  unknown_iff : t.fault = some .unknownField ↔ t.role = .field ∧ t.resolution = some .unknown
  role_eq : ∀ f, t.fault = some f → t.role = f.role

/-- the role that a token may stand behind, blanks left out; `none` is the start -/
def MayFollow (reg : Registry) (previous : Option Role) (t : Token) : Prop :=
  match t.role with
  | .field => previous = none ∨ previous = some .openParen ∨ previous = some .keyword
  | .condition => previous = some .field
  | .value => previous = some .condition
  | .keyword =>
    t.text = "not".toList ∧ (∀ f ∈ reg.fields, f.name ≠ t.text) ∧
        (previous = none ∨ previous = some .openParen) ∨
      previous = some .value ∨ previous = some .closeParen
  | .openParen | .closeParen | .blank => True

theorem Coherent.valid_of_blank {t : Token} (h : t.Coherent) (hr : t.role = .blank) :
    t.fault = none := by
  refine Option.eq_none_iff_forall_ne_some.mpr (fun f hf => ?_)
  have hrole := h.role_eq f hf
  rw [hr] at hrole
  cases f <;> exact absurd hrole (by decide)

/-- only a parenthesis gets another fault when it is settled, and then one of its own -/
theorem Coherent.settled {t : Token} (h : t.Coherent) (opened closed : Nat) :
    (t.settled opened closed).Coherent := by
  unfold Token.settled
  split
  · next hr =>
    refine ⟨h.resolved_iff, ?_, fun f hf => ?_⟩
    · simp [hr]
    · split at hf
      · rw [← Option.some.inj hf]
        exact hr
      · exact absurd hf (by simp)
  · next hr =>
    refine ⟨h.resolved_iff, ?_, fun f hf => ?_⟩
    · simp [hr]
    · split at hf
      · rw [← Option.some.inj hf]
        exact hr
      · exact absurd hf (by simp)
  · exact h

theorem mayFollow_settled {reg : Registry} {previous : Option Role} {t : Token}
    (opened closed : Nat) :
    (t.settled opened closed).MayFollow reg previous ↔ t.MayFollow reg previous := by
  unfold MayFollow
  rw [role_settled, text_settled]

end Token

/-! ## one lexeme -/

theorem eq_of_ite {p : Prop} [Decidable p] {f g : Fault}
    (h : (if p then none else some f) = some g) : g = f := by
  split at h
  · exact absurd h (by simp)
  · exact (Option.some.inj h).symm

theorem Lexeme.valueFault_eq_some {l : Lexeme} {f : Fault} (h : l.valueFault = some f) :
    f = .unterminatedLiteral ∧ l.kind = .unclosedLiteral ∨ f = .malformedValue := by
  unfold valueFault at h
  split at h
  · exact absurd h (by simp)
  · next hk => exact .inl ⟨(Option.some.inj h).symm, hk⟩
  · exact .inr (eq_of_ite h)
  · exact .inr (Option.some.inj h).symm

namespace Registry
variable {reg : Registry} {previous : Option Role} {l : Lexeme} {t : Token}

theorem follows_of_due (h : due previous = .field) (hp : previous ≠ some .blank) :
    previous = none ∨ previous = some .openParen ∨ previous = some .keyword := by
  cases previous with
  | none => exact .inl rfl
  | some r =>
    cases r with
    | openParen => exact .inr (.inl rfl)
    | keyword => exact .inr (.inr rfl)
    | blank => exact absurd rfl hp
    | closeParen | field | condition | value => exact absurd h (by decide)

theorem coherent_token {r : Role} {x : Option Fault} (hr : r ≠ .field)
    (hx : ∀ f, x = some f → r = f.role) : (l.token r x).Coherent where
  resolved_iff := ⟨fun h => absurd h (by simp [Lexeme.token]), fun h => absurd h hr⟩
  unknown_iff := ⟨fun h => absurd (hx _ h) hr, fun h => absurd h.1 hr⟩
  role_eq := hx

theorem coherent_field {x : Option Fault} {a : Resolution}
    (hx : x = some .unknownField ∧ a = .unknown ∨ x = none ∧ a ≠ .unknown) :
    (l.asField x a).Coherent := by
  refine ⟨iff_of_true rfl rfl, ?_, fun f hf => ?_⟩
  · show x = _ ↔ Role.field = .field ∧ some a = some .unknown
    rcases hx with ⟨rfl, rfl⟩ | ⟨rfl, ha⟩
    · exact iff_of_true rfl ⟨rfl, rfl⟩
    · exact iff_of_false (by simp) (fun h => ha (Option.some.inj h.2))
  · change x = some f at hf
    rcases hx with ⟨rfl, -⟩ | ⟨rfl, -⟩
    · rw [← Option.some.inj hf]
      rfl
    · exact absurd hf (by simp)

theorem Judges.coherent (h : reg.Judges l previous t) : t.Coherent := by
  cases h with
  | blank | openParen | closeParen | negation =>
    exact coherent_token (by decide) (fun f hf => absurd hf (by simp))
  | condition => exact coherent_token (by decide) (fun f hf => eq_of_ite hf ▸ rfl)
  | value =>
    refine coherent_token (by decide) (fun f hf => ?_)
    rcases Lexeme.valueFault_eq_some hf with ⟨rfl, -⟩ | rfl <;> rfl
  | conjunction => exact coherent_token (by decide) (fun f hf => eq_of_ite hf ▸ rfl)
  | known => exact coherent_field (.inr ⟨rfl, by simp⟩)
  | unknown => exact coherent_field (.inl ⟨rfl, rfl⟩)

theorem Judges.mayFollow (h : reg.Judges l previous t) (hp : previous ≠ some .blank) :
    t.MayFollow reg previous := by
  cases h with
  | blank | openParen | closeParen => trivial
  | condition h | value h => exact h
  | conjunction h => exact .inr h
  | known h | unknown h => exact follows_of_due h hp
  | negation h hk hnot hf =>
    refine .inl ⟨hnot, reg.get?_eq_none_iff.mp hf, ?_⟩
    rcases follows_of_due h hp with h | h | h
    · exact .inl h
    · exact .inr h
    · exact absurd h hk

theorem Judges.kind_eq_unclosed (h : reg.Judges l previous t)
    (hf : t.fault = some .unterminatedLiteral) : l.kind = .unclosedLiteral := by
  have hrole : t.role = .value := h.coherent.role_eq _ hf
  cases h with
  | value =>
    rcases Lexeme.valueFault_eq_some hf with ⟨-, hk⟩ | hno
    · exact hk
    · exact absurd hno (by decide)
  | _ => exact Role.noConfusion hrole

end Registry

/-! ## neighbours -/

theorem ends_of_getElem? {s : Text} {i : Nat} {l m : Lexeme} (hl : (lex s)[i]? = some l)
    (hm : (lex s)[i + 1]? = some m) :
    l.kind.Ends l.text m.text.head? ∧ m.kind.Shape m.text := by
  refine ⟨?_, (Lexeme.standsIn_of_mem_lex (List.mem_of_getElem? hm)).shape⟩
  obtain ⟨hi, rfl⟩ := List.getElem?_eq_some_iff.mp hl
  obtain ⟨hi', rfl⟩ := List.getElem?_eq_some_iff.mp hm
  have hlex : lex s = (lex s).take i ++ (lex s)[i] :: (lex s)[i + 1] :: (lex s).drop (i + 2) := by
    rw [List.getElem_cons_drop, List.getElem_cons_drop, List.take_append_drop]
  exact ends_of_lexFrom hlex

/-- **Strays come first**: behind a parenthesis that stays open, none is closed that is not open. -/
theorem pairwise_settle (opened : Nat) (ts : List Token) :
    (settle opened ts).1.Pairwise (fun t u =>
      t.role = .openParen → t.fault = some .unmatchedOpen →
        u.role = .closeParen → u.fault ≠ some .unmatchedClose) := by
  induction ts generalizing opened with
  | nil => exact .nil
  | cons t ts ih =>
    rw [fst_settle_cons]
    refine .cons (fun u hu hr hf hur huf => ?_) (ih _)
    rw [Token.role_settled] at hr
    -- the head stays open, so nothing is closed behind it
    have hclosing : closing ts = 0 := by
      by_contra hne
      rw [Token.settled] at hf
      simp [hr, hne] at hf
    have hcount := countP_settle (openAfter opened t.role) ts
    rw [hclosing, Nat.zero_sub, List.countP_eq_zero] at hcount
    exact hcount u hu (decide_eq_true ⟨hur, huf⟩)

/-! ## queries -/

namespace Query

/-- **All tokens of a query fit together.** -/
structure Coherent (reg : Registry) (q : Query) : Prop where
  each : ∀ t ∈ q.tokens, t.Coherent
  valid_of_blank : ∀ t ∈ q.tokens, t.role = .blank → t.fault = none
  /-- no two blanks are next to each other -/
  blanks_apart : q.tokens.IsChain (fun t u => ¬ (t.role = .blank ∧ u.role = .blank))
  unterminated_once : q.tokens.countP (fun t => t.fault = some .unterminatedLiteral) ≤ 1
  unterminated_last : ∀ t ∈ q.tokens.dropLast, t.fault ≠ some .unterminatedLiteral
  /-- no `)` without a partner comes behind a `(` without one -/
  strays_first : q.tokens.Pairwise (fun t u =>
    t.fault = some .unmatchedOpen → u.fault ≠ some .unmatchedClose)
  /-- with the blanks left out, each token may follow the one in front of it -/
  follows : ∀ front t back, q.tokens.filter (fun t => t.role ≠ .blank) = front ++ t :: back →
    t.MayFollow reg (front.getLast?.map Token.role)

variable (reg : Registry) (s : Text)

theorem exists_judges {i : Nat} {t : Token} (ht : (ofText reg s).tokens[i]? = some t) :
    ∃ l u opened closed, (lex s)[i]? = some l ∧ t = u.settled opened closed ∧
      reg.Judges l (lastRole none ((ofText reg s).tokens.take i)) u := by
  rw [getElem?_tokens] at ht
  obtain ⟨l, hl, rfl⟩ := Option.map_eq_some_iff.mp ht
  exact ⟨l, _, _, _, hl, rfl, reg.judges_judge _ l⟩

theorem coherent_of_mem {t : Token} (ht : t ∈ (ofText reg s).tokens) : t.Coherent := by
  obtain ⟨i, hi⟩ := List.mem_iff_getElem?.mp ht
  obtain ⟨l, u, o, c, -, rfl, hu⟩ := exists_judges reg s hi
  exact hu.coherent.settled o c

theorem kind_eq_blank {i : Nat} {t : Token} (ht : (ofText reg s).tokens[i]? = some t)
    (hr : t.role = .blank) : ∃ l, (lex s)[i]? = some l ∧ l.kind = .blank := by
  rw [getElem?_tokens] at ht
  obtain ⟨l, hl, rfl⟩ := Option.map_eq_some_iff.mp ht
  rw [reg.role_tokenIn] at hr
  exact ⟨l, hl, (reg.role_judge_eq_iff _ .blank l).mp hr⟩

theorem blanks_apart_ofText :
    (ofText reg s).tokens.IsChain (fun t u => ¬ (t.role = .blank ∧ u.role = .blank)) := by
  refine List.isChain_iff_getElem.mpr (fun i hi ⟨ht, hu⟩ => ?_)
  obtain ⟨l, hl, hkind⟩ := kind_eq_blank reg s (List.getElem?_eq_getElem (Nat.lt_of_succ_lt hi)) ht
  obtain ⟨m, hm, hkind'⟩ := kind_eq_blank reg s (List.getElem?_eq_getElem hi) hu
  obtain ⟨hends, hshape⟩ := ends_of_getElem? hl hm
  rw [hkind] at hends
  rw [hkind'] at hshape
  -- the first blank would have taken the second one in
  obtain ⟨c, r, hc⟩ := List.exists_cons_of_ne_nil hshape.ne_nil
  exact hends c (by rw [hc]; rfl) (hshape.2 c (by rw [hc]; exact List.mem_cons_self))

theorem unterminated_last_ofText {t : Token} (ht : t ∈ (ofText reg s).tokens.dropLast) :
    t.fault ≠ some .unterminatedLiteral := by
  intro hf
  obtain ⟨i, hi⟩ := List.mem_iff_getElem?.mp ht
  obtain ⟨hlt, rfl⟩ := List.getElem?_eq_some_iff.mp hi
  rw [List.length_dropLast] at hlt
  rw [List.getElem_dropLast] at hf
  have hget := List.getElem?_eq_getElem (Nat.lt_of_lt_of_le hlt (Nat.sub_le _ 1))
  obtain ⟨l, u, o, c, hl, hu, hjudges⟩ := exists_judges reg s hget
  rw [hu] at hf
  -- values are not settled
  have hrole : u.role = .value := by
    rw [← u.role_settled o c]
    exact (hjudges.coherent.settled o c).role_eq _ hf
  rw [Token.settled_of_not_paren o c (by rw [hrole]; rfl)] at hf
  have hkind := hjudges.kind_eq_unclosed hf
  rw [(lexed_ofText reg s).length_eq] at hlt
  obtain ⟨hends, hshape⟩ :=
    ends_of_getElem? hl (List.getElem?_eq_getElem (Nat.add_lt_of_lt_sub hlt))
  rw [hkind] at hends
  exact hshape.ne_nil (List.head?_eq_none_iff.mp hends)

/-- **Each token may follow the one in front of it**, blanks left out. -/
theorem follows_ofText {front back : List Token} {t : Token}
    (h : (ofText reg s).tokens.filter (fun t => t.role ≠ .blank) = front ++ t :: back) :
    t.MayFollow reg (front.getLast?.map Token.role) := by
  obtain ⟨as, bs, htokens, hfront, hbs⟩ := List.filter_eq_append_iff.mp h
  obtain ⟨cs, ds, rfl, hcs, -, -⟩ := List.filter_eq_cons_iff.mp hbs
  have hblank : cs.filter (fun t => t.role ≠ .blank) = [] := List.filter_eq_nil_iff.mpr hcs
  have hget : (ofText reg s).tokens[(as ++ cs).length]? = some t := by
    rw [htokens, ← List.append_assoc, getElem?_append_length]
  obtain ⟨l, u, o, c, -, rfl, hu⟩ := exists_judges reg s hget
  have hprevious : lastRole none ((ofText reg s).tokens.take (as ++ cs).length) =
      front.getLast?.map Token.role := by
    rw [htokens, ← List.append_assoc, List.take_left, lastRole_eq_getLast?, List.filter_append,
      hblank, List.append_nil, hfront]
  rw [hprevious] at hu
  refine (Token.mayFollow_settled o c).mpr (hu.mayFollow (fun hlast => ?_))
  -- what is left of the front is no blank
  obtain ⟨v, hv, hrole⟩ := Option.map_eq_some_iff.mp hlast
  have hmem := List.mem_of_getLast? hv
  rw [← hfront] at hmem
  exact of_decide_eq_true (List.mem_filter.mp hmem).2 hrole

theorem coherent_ofText : (ofText reg s).Coherent reg where
  each t ht := coherent_of_mem reg s ht
  valid_of_blank t ht := (coherent_of_mem reg s ht).valid_of_blank
  blanks_apart := blanks_apart_ofText reg s
  unterminated_once := by
    have hlast := fun t => unterminated_last_ofText reg s (t := t)
    generalize (ofText reg s).tokens = ts at hlast
    rcases List.eq_nil_or_concat ts with rfl | ⟨us, t, rfl⟩
    · exact Nat.zero_le _
    · rw [List.concat_eq_append, List.dropLast_concat] at hlast
      rw [List.concat_eq_append, List.countP_append, List.countP_eq_zero.mpr (by simpa using hlast),
        Nat.zero_add]
      exact List.countP_le_length
  unterminated_last t ht := unterminated_last_ofText reg s ht
  strays_first := by
    refine (pairwise_settle 0 (reg.judgeAll none (lex s))).imp_of_mem (fun {t u} ht hu h hf huf => ?_)
    exact h ((coherent_of_mem reg s ht).role_eq _ hf) hf ((coherent_of_mem reg s hu).role_eq _ huf) huf
  follows _ _ _ h := follows_ofText reg s h

/-! ## queries that edits lead to -/

/-- some edits and accepted suggestions, all with one registry, lead from a text to the query -/
inductive Reachable (reg : Registry) : Query → Prop
  | start (s : Text) : Reachable reg (ofText reg s)
  | edit {q q' : Query} {e : Edit} {c : Change} (h : Reachable reg q)
    (he : q.edit reg e = .ok (q', c)) : Reachable reg q'
  | accept {q q' : Query} {i caret : Nat} {f : Field} {c : Change} (h : Reachable reg q)
    (ha : q.accept reg i f = .ok (caret, q', c)) : Reachable reg q'

variable {reg s} {q q' : Query}

/-- an edit that succeeds leads from the query of a text to that of another one -/
theorem eq_ofText_of_edit {e : Edit} {c : Change} (h : q = ofText reg q.source)
    (he : q.edit reg e = .ok (q', c)) : q' = ofText reg q'.source := by
  unfold edit at he
  split at he
  · exact absurd he (by simp)
  · next hcheck =>
    obtain ⟨k⟩ := Edit.check_eq_ok_iff.mp hcheck
    have hsplice := splice_ofText reg k
    rw [← h] at hsplice
    have hq' : (q.splice reg e).1 = q' := congrArg Prod.fst (Except.ok.inj he)
    rw [← hq', hsplice]
    rfl

theorem exists_edit_of_accept {i caret : Nat} {f : Field} {c : Change}
    (h : q.accept reg i f = .ok (caret, q', c)) : ∃ e, q.edit reg e = .ok (q', c) := by
  unfold accept at h
  split at h
  · exact absurd h (by simp)
  · next t ht =>
    split at h
    · cases hedit : q.edit reg ⟨t.span, f.name⟩ with
      | error x =>
        rw [hedit] at h
        exact absurd h (by simp)
      | ok r =>
        rw [hedit] at h
        obtain ⟨-, rfl⟩ := Prod.mk.inj (Except.ok.inj h)
        exact ⟨_, hedit⟩
    · exact absurd h (by simp)

theorem Reachable.eq_ofText (h : Reachable reg q) : q = ofText reg q.source := by
  induction h with
  | start s => rfl
  | edit _ he ih => exact eq_ofText_of_edit ih he
  | accept _ ha ih =>
    obtain ⟨e, he⟩ := exists_edit_of_accept ha
    exact eq_ofText_of_edit ih he

/-- **The tokens of every query that edits and suggestions lead to fit together.** -/
theorem coherent_of_reachable (h : Reachable reg q) : q.Coherent reg := by
  rw [h.eq_ofText]
  exact coherent_ofText reg q.source

/-- a quote is typed that swallows two parentheses, then the field in front is completed -/
theorem coherent_of_reachable_swallowed :
    let f : Field := ⟨"src_ip".toList, .string, some "Source IP address".toList⟩
    let q := ofText .builtin "ip=\") (".toList
    let q' := ofText .builtin "src_ip=\") (".toList
    (ofText .builtin "ip=) (".toList).edit .builtin (.insert 3 "\"".toList) =
        .ok (q, ⟨⟨0, 7⟩, 0, 3, true⟩) ∧
      q.accept .builtin 0 f = .ok (6, q', ⟨⟨0, 6⟩, 0, 1, false⟩) ∧ q'.Coherent .builtin := by
  intro f q q'
  have hedit : (ofText .builtin "ip=) (".toList).edit .builtin (.insert 3 "\"".toList) =
      .ok (q, ⟨⟨0, 7⟩, 0, 3, true⟩) := by decide +kernel
  have haccept : q.accept .builtin 0 f = .ok (6, q', ⟨⟨0, 6⟩, 0, 1, false⟩) := by decide +kernel
  exact ⟨hedit, haccept, coherent_of_reachable (.accept (.edit (.start _) hedit) haccept)⟩

end Query

end FilterQuery
