import FilterQuery.Proofs.Editing

/-!
# Queries edited with one registry after another

When the registry changes between two edits, tokens that an edit keeps still tell what an earlier
registry said of them.  A query is then a patchwork, and no registry alone gives it.

* `Query.amend`, `Query.amendAll`   one edit, or several, each with a registry of its own; an edit
  that does not fit leaves the query as it is;
* `Patched regs p ls ts`    each of the tokens `ts` is what one of the registries `regs` gives for its
  lexeme, behind the last role that now stands in front of it;
* `Query.Consistent regs`   the tokens are patched, over the lexemes of the text, and settled;
* `Consistent.amend`        an edit adds its own registry to those that a query is patched from;
* `amendAll_consistent`     so every query that edits lead to is a patchwork of the registries used.
-/

namespace FilterQuery
open Text

/-! ## edits with their registries -/

/-- the text after an edit, or the same text if the edit does not fit -/
def Edit.amended (e : Edit) (s : Text) : Text :=
  match e.check s with
  | .ok () => e.apply s
  | .error _ => s

namespace Query

/-- the query after an edit, or the same query if the edit does not fit -/
def amend (q : Query) (step : Registry × Edit) : Query :=
  match q.edit step.1 step.2 with
  | .ok (q', _) => q'
  | .error _ => q

def amendAll (q : Query) (steps : List (Registry × Edit)) : Query := steps.foldl amend q

theorem amend_of_error {q : Query} {reg : Registry} {e : Edit} {x : EditError}
    (h : e.check q.source = .error x) : q.amend (reg, e) = q := by
  unfold amend edit
  rw [h]

theorem amend_of_cut {q : Query} (reg : Registry) {e : Edit} (k : e.Cut q.source) :
    q.amend (reg, e) = (q.splice reg e).1 := by
  unfold amend
  rw [q.edit_of_cut reg k]

theorem source_amend (q : Query) (step : Registry × Edit) :
    (q.amend step).source = step.2.amended q.source := by
  obtain ⟨reg, e⟩ := step
  cases hc : e.check q.source with
  | error x =>
    rw [amend_of_error hc]
    unfold Edit.amended
    rw [hc]
  | ok _ =>
    obtain ⟨k⟩ := Edit.check_eq_ok_iff.mp hc
    rw [amend_of_cut reg k, source_splice]
    unfold Edit.amended
    rw [hc]

theorem source_amendAll (q : Query) (steps : List (Registry × Edit)) :
    (q.amendAll steps).source = (steps.map Prod.snd).foldl (fun s e => e.amended s) q.source := by
  induction steps generalizing q with
  | nil => rfl
  | cons step steps ih =>
    show ((q.amend step).amendAll steps).source = _
    rw [ih, source_amend]
    rfl

end Query

/-! ## tokens of several registries -/

/-- one of the registries gives the token for the lexeme, up to the verdict of a parenthesis -/
def JudgedBy (regs : List Registry) (previous : Option Role) (l : Lexeme) (t : Token) : Prop :=
  ∃ reg ∈ regs, t.unsettled = reg.judge previous l

/-- every token is given for its lexeme by one of the registries, behind the tokens in front -/
inductive Patched (regs : List Registry) : Option Role → List Lexeme → List Token → Prop
  | nil (previous : Option Role) : Patched regs previous [] []
  | cons {previous : Option Role} {l : Lexeme} {t : Token} {ls : List Lexeme} {ts : List Token}
    (h : JudgedBy regs previous l t) (hs : Patched regs (after previous t.role) ls ts) :
    Patched regs previous (l :: ls) (t :: ts)

theorem JudgedBy.mono {regs regs' : List Registry} (hsub : regs ⊆ regs') {previous : Option Role}
    {l : Lexeme} {t : Token} (h : JudgedBy regs previous l t) : JudgedBy regs' previous l t := by
  obtain ⟨reg, hreg, ht⟩ := h
  exact ⟨reg, hsub hreg, ht⟩

theorem JudgedBy.role_eq_iff {regs : List Registry} {previous : Option Role} {l : Lexeme}
    {t : Token} (h : JudgedBy regs previous l t) {r : Role} {k : Lexeme.Kind} (hr : r.FixedBy k) :
    t.role = r ↔ l.kind = k := by
  obtain ⟨reg, -, ht⟩ := h
  rw [← Token.role_unsettled, ht]
  exact reg.role_judge_eq_iff previous hr l

theorem JudgedBy.piece_eq {regs : List Registry} {previous : Option Role} {l : Lexeme} {t : Token}
    (h : JudgedBy regs previous l t) : t.piece = l.piece := by
  obtain ⟨reg, -, ht⟩ := h
  show (t.text, t.span) = (l.text, l.span)
  rw [← Token.text_unsettled, ← Token.span_unsettled, ht, Registry.judge_text, Registry.judge_span]

namespace Patched
variable {regs regs' : List Registry} {previous : Option Role} {ls ms : List Lexeme}
  {ts us : List Token}

theorem mono (hsub : regs ⊆ regs') (h : Patched regs previous ls ts) :
    Patched regs' previous ls ts := by
  induction h with
  | nil previous => exact .nil previous
  | cons h _ ih => exact .cons (h.mono hsub) ih

theorem of_judgeAll {reg : Registry} (hreg : reg ∈ regs) (previous : Option Role)
    (ls : List Lexeme) : Patched regs previous ls (reg.judgeAll previous ls) := by
  induction ls generalizing previous with
  | nil => exact .nil previous
  | cons l ls ih => exact .cons ⟨reg, hreg, reg.unsettled_judge previous l⟩ (ih _)

theorem congr (h : Patched regs previous ls ts)
    (he : us.map Token.unsettled = ts.map Token.unsettled) : Patched regs previous ls us := by
  induction h generalizing us with
  | nil previous =>
    rw [List.map_eq_nil_iff.mp he]
    exact .nil previous
  | cons h _ ih =>
    obtain ⟨u, us', rfl, hu, hus⟩ := List.map_eq_cons_iff.mp he
    obtain ⟨reg, hreg, ht⟩ := h
    refine .cons ⟨reg, hreg, hu.trans ht⟩ ?_
    rw [← Token.role_unsettled u, hu, Token.role_unsettled]
    exact ih hus

theorem lexed (h : Patched regs previous ls ts) : Lexed ls ts := by
  induction h with
  | nil => rfl
  | cons h _ ih => exact congrArg₂ List.cons h.piece_eq ih

theorem append (h : Patched regs previous ls ts) (h' : Patched regs (lastRole previous ts) ms us) :
    Patched regs previous (ls ++ ms) (ts ++ us) := by
  induction h with
  | nil => exact h'
  | cons h _ ih => exact .cons h (ih h')

theorem of_append (h : Patched regs previous (ls ++ ms) (ts ++ us))
    (hl : ts.length = ls.length) :
    Patched regs previous ls ts ∧ Patched regs (lastRole previous ts) ms us := by
  induction ls generalizing previous ts with
  | nil =>
    rw [List.eq_nil_of_length_eq_zero hl] at h ⊢
    exact ⟨.nil previous, h⟩
  | cons l ls ih =>
    cases ts with
    | nil => exact absurd hl (Nat.succ_ne_zero _).symm
    | cons t ts =>
      cases h with
      | cons h hs =>
        obtain ⟨h1, h2⟩ := ih hs (Nat.succ.inj hl)
        exact ⟨.cons h h1, h2⟩

theorem map_shift (h : Patched regs previous ls ts) (d : Int) :
    Patched regs previous (ls.map (fun l => l.shift d)) (ts.map (fun t => t.shift d)) := by
  induction h with
  | nil previous => exact .nil previous
  | cons h _ ih =>
    obtain ⟨reg, hreg, ht⟩ := h
    refine .cons ⟨reg, hreg, ?_⟩ ih
    rw [Token.unsettled_shift, ht, reg.judge_shift]

/-- the lexeme of a token, and who judged it -/
theorem getElem? (h : Patched regs previous ls ts) {i : Nat} {t : Token} (ht : ts[i]? = some t) :
    ∃ l, ls[i]? = some l ∧ JudgedBy regs (lastRole previous (ts.take i)) l t := by
  obtain ⟨hi, rfl⟩ := List.getElem?_eq_some_iff.mp ht
  have hlen := h.lexed.length_eq
  have hi' : i < ls.length := hlen ▸ hi
  rw [← List.take_append_drop i ls, ← List.take_append_drop i ts] at h
  have hcut := h.of_append (by rw [List.length_take, List.length_take, hlen])
  rw [List.drop_eq_getElem_cons hi, List.drop_eq_getElem_cons hi'] at hcut
  cases hcut.2 with
  | cons h _ => exact ⟨ls[i], List.getElem?_eq_getElem hi', h⟩

end Patched

/-! ## edited queries -/

/-- **A query put together from what several registries said.** -/
structure Query.Consistent (regs : List Registry) (q : Query) : Prop where
  patched : Patched regs none (lex q.source) q.tokens
  settled : Settled 0 q.tokens

/-- kept tokens and fresh ones together are patched from one registry more -/
theorem Splicing.patched {reg : Registry} {q : Query} {e : Edit} {k : e.Cut q.source}
    (p : Splicing reg q k) {regs : List Registry} (hreg : reg ∈ regs)
    (h : Patched regs none (lex q.source) q.tokens) :
    Patched regs none (lex k.result) p.tokens := by
  rw [p.old_eq, p.tokens_eq] at h
  obtain ⟨hhead, h⟩ := h.of_append p.head_lexed.length_eq
  obtain ⟨-, hkept⟩ := h.of_append p.gone_lexed.length_eq
  have hread : Patched regs (lastRole none p.head) p.fresh p.read := .of_judgeAll hreg _ _
  rw [p.new_eq]
  refine hhead.append (hread.append ?_)
  by_cases hne : p.kept = []
  · have hback := p.kept_lexed.eq_nil_iff.mp hne
    rw [hne, hback]
    exact .nil _
  · -- the kept tokens see the role that they saw before
    have hrole := p.role_eq hne
    rw [lastRole_append, lastRole_append] at hrole
    rw [hrole] at hkept
    exact hkept.map_shift e.delta

namespace Query.Consistent
variable {regs : List Registry} {q : Query}

theorem splice (h : q.Consistent regs) {reg : Registry} (hreg : reg ∈ regs) {e : Edit}
    (k : e.Cut q.source) : (q.splice reg e).1.Consistent regs := by
  obtain ⟨p⟩ := exists_splicing reg q k h.patched.lexed
  have hpatched := p.patched hreg h.patched
  rw [← k.apply_eq, ← source_splice reg q e] at hpatched
  cases hr : (q.splice reg e).2.resettled with
  | true =>
    have htokens : (q.splice reg e).1.tokens = balanced p.tokens := by
      rw [p.tokens_splice, if_pos hr]
    constructor
    · rw [htokens]
      exact hpatched.congr (map_unsettled_balanced p.tokens)
    · rw [htokens]
      exact settled_balanced p.tokens
  | false =>
    have htokens : (q.splice reg e).1.tokens = p.tokens := by
      rw [p.tokens_splice, hr, if_neg (by decide)]
    constructor
    · rw [htokens]
      exact hpatched
    · rw [htokens]
      exact p.settled h.settled hr

theorem mono {regs' : List Registry} (hsub : regs ⊆ regs') (h : q.Consistent regs) :
    q.Consistent regs' := ⟨h.patched.mono hsub, h.settled⟩

/-- **An edit adds at most its own registry** to those that a query is put together from. -/
theorem amend (h : q.Consistent regs) (step : Registry × Edit) :
    (q.amend step).Consistent (step.1 :: regs) := by
  obtain ⟨reg, e⟩ := step
  have h' := h.mono (List.subset_cons_self reg regs)
  cases hc : e.check q.source with
  | error x =>
    rw [amend_of_error hc]
    exact h'
  | ok _ =>
    obtain ⟨k⟩ := Edit.check_eq_ok_iff.mp hc
    rw [amend_of_cut reg k]
    exact h'.splice List.mem_cons_self k

theorem amendAll (h : q.Consistent regs) (steps : List (Registry × Edit)) :
    (q.amendAll steps).Consistent (regs ++ steps.map Prod.fst) := by
  induction steps generalizing q regs with
  | nil =>
    rw [List.map_nil, List.append_nil]
    exact h
  | cons step steps ih =>
    refine (ih (h.amend step)).mono ?_
    rw [List.map_cons, List.cons_append]
    exact (List.perm_middle.symm).subset

end Query.Consistent

theorem Query.consistent_ofText (reg : Registry) (s : Text) : (ofText reg s).Consistent [reg] :=
  ⟨(Patched.of_judgeAll (List.mem_singleton.mpr rfl) none (lex s)).congr (map_unsettled_balanced _),
    settled_balanced _⟩

/-- **Whatever registries a query is edited with, it stays consistent.**  Its tokens spell out its
text; parentheses and blanks are told by the lexemes, and parentheses are settled; every other
verdict is the one that a registry used so far gives behind the role that now stands in front. -/
theorem Query.amendAll_consistent (reg : Registry) (s : Text) (steps : List (Registry × Edit)) :
    let q := (ofText reg s).amendAll steps
    q.source = (steps.map Prod.snd).foldl (fun s e => e.amended s) s ∧
      q.tokens.map (fun t => (t.text, t.span)) = (lex q.source).map (fun l => (l.text, l.span)) ∧
      balanced q.tokens = q.tokens ∧
      ∀ (i : Nat) (t : Token), q.tokens[i]? = some t → ∃ l, (lex q.source)[i]? = some l ∧
        (t.role = .openParen ↔ l.kind = .openParen) ∧
        (t.role = .closeParen ↔ l.kind = .closeParen) ∧
        (t.role = .blank ↔ l.kind = .blank) ∧
        ∃ r ∈ reg :: steps.map Prod.fst,
          t.unsettled = r.judge (lastRole none (q.tokens.take i)) l := by
  intro q
  have h : q.Consistent (reg :: steps.map Prod.fst) := (consistent_ofText reg s).amendAll steps
  refine ⟨source_amendAll _ steps, h.patched.lexed, h.settled, ?_⟩
  intro i t ht
  obtain ⟨l, hl, hjudged⟩ := h.patched.getElem? ht
  exact ⟨l, hl, hjudged.role_eq_iff .openParen, hjudged.role_eq_iff .closeParen,
    hjudged.role_eq_iff .blank, hjudged⟩

end FilterQuery
