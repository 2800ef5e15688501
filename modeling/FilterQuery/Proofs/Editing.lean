import FilterQuery.Proofs.Splicing

/-!
# An edited query is the query of the edited text

* `Splicing.reads`          the tokens put together from old and new ones are a reading of the new
  text, if the old ones were a reading of the old text with the same registry;
* `Splicing.splice_ofText`  so the edited query is the one that the new text has on its own;
* `edit_ofText`             the same of `Query.edit`, for every edit that passes its check.
-/

namespace FilterQuery
open Text

namespace Splicing
variable {reg : Registry} {q : Query} {e : Edit} {k : e.Cut q.source} (p : Splicing reg q k)

/-- the tokens read in the place of those that went -/
def read : List Token := reg.judgeAll (lastRole none p.head) p.fresh

/-- the tokens after the edit, before parentheses are settled -/
def tokens : List Token := p.head ++ (p.read ++ p.kept.map (fun t => t.shift e.delta))

theorem read_lexed : Lexed p.fresh p.read := reg.lexed_judgeAll _ _

theorem resettled_eq :
    (q.splice reg e).2.resettled = (p.gone ++ p.read).any (fun t => t.role.isParen) := by
  rw [p.change_eq]
  rfl

theorem tokens_splice : (q.splice reg e).1.tokens =
    if (q.splice reg e).2.resettled then balanced p.tokens else p.tokens :=
  congrArg Query.tokens p.query_eq

/-- **Kept tokens and fresh ones together read the new text.** -/
theorem reads (h : reg.Reads none (lex q.source) q.tokens) :
    reg.Reads none (lex k.result) p.tokens := by
  rw [p.old_eq, p.tokens_eq] at h
  obtain ⟨hhead, h⟩ := h.of_append p.head_lexed.length_eq
  obtain ⟨-, hkept⟩ := h.of_append p.gone_lexed.length_eq
  have hread : reg.Reads (lastRole none p.head) p.fresh p.read := .of_judgeAll ..
  rw [p.new_eq]
  refine hhead.append (hread.append ?_)
  by_cases hne : p.kept = []
  · have hback := p.kept_lexed.eq_nil_iff.mp hne
    rw [hne, hback]
    rfl
  · have hrole := p.role_eq hne
    rw [lastRole_append, lastRole_append] at hrole
    rw [hrole] at hkept
    exact hkept.map_shift e.delta

/-- nothing is left to settle if no parenthesis was read or removed -/
theorem settled (h : Settled 0 q.tokens) (hr : (q.splice reg e).2.resettled = false) :
    Settled 0 p.tokens := by
  rw [p.resettled_eq, List.any_eq_false] at hr
  rw [p.tokens_eq] at h
  have hplain : ∀ t ∈ p.gone ++ p.read, t.role.isParen = false := fun t ht => by
    simpa using hr t ht
  exact h.exchange e.delta (fun t ht => hplain t (List.mem_append_left _ ht))
    (fun t ht => hplain t (List.mem_append_right _ ht))

theorem splice_ofText {s : Text} {k : e.Cut s} (p : Splicing reg (.ofText reg s) k) :
    ((Query.ofText reg s).splice reg e).1 = .ofText reg k.result := by
  have hreads := p.reads (Query.reads_ofText reg s)
  rw [p.query_eq]
  show (⟨k.result, if _ then balanced p.tokens else p.tokens⟩ : Query)
    = ⟨k.result, (Query.ofText reg k.result).tokens⟩
  cases hr : ((Query.ofText reg s).splice reg e).2.resettled with
  | true =>
    rw [if_pos rfl, hreads.balanced_eq_ofText]
    rfl
  | false =>
    rw [if_neg (by decide), hreads.eq_ofText (p.settled (settled_balanced _) hr)]
    rfl

end Splicing

theorem Query.splice_ofText (reg : Registry) {s : Text} {e : Edit} (k : e.Cut s) :
    ((ofText reg s).splice reg e).1 = ofText reg k.result := by
  obtain ⟨p⟩ := exists_splicing reg (ofText reg s) k (lexed_ofText reg s)
  exact p.splice_ofText

theorem Query.edit_of_cut (reg : Registry) (q : Query) {e : Edit} (k : e.Cut q.source) :
    q.edit reg e = .ok (q.splice reg e) := by
  unfold edit
  rw [k.check_eq_ok]

/-- **Incremental equals full.**  An edit that passes its check on a text turns the query of the
text into the query of the edited text, in all its tokens. -/
theorem Query.edit_ofText (reg : Registry) {s : Text} {e : Edit} (h : e.check s = .ok ()) :
    ∃ (k : e.Cut s) (c : Change),
      (ofText reg s).edit reg e = .ok (ofText reg (k.front ++ e.replacement ++ k.back), c) := by
  obtain ⟨k⟩ := Edit.check_eq_ok_iff.mp h
  refine ⟨k, ((ofText reg s).splice reg e).2, ?_⟩
  rw [edit_of_cut reg (ofText reg s) k]
  exact congrArg Except.ok (Prod.ext (splice_ofText reg k) rfl)

/-- a quote is typed that swallows the parenthesis behind it -/
theorem Query.edit_ofText_quote :
    (Edit.insert 7 "\"".toList).check "src_ip=é) or".toList = .ok () ∧
      ∃ (k : (Edit.insert 7 "\"".toList).Cut "src_ip=é) or".toList) (c : Change),
        (ofText .builtin "src_ip=é) or".toList).edit .builtin (.insert 7 "\"".toList)
          = .ok (ofText .builtin (k.front ++ "\"".toList ++ k.back), c) :=
  ⟨by decide, edit_ofText .builtin (by decide)⟩

end FilterQuery
