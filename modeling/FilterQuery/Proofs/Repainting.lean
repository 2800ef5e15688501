import FilterQuery.Proofs.Editing

/-!
# What an edit reports is enough to repaint

* `Token.Moved d free t u`   `u` is `t` moved by `d` bytes; if `free`, the verdict of a parenthesis may
  be another one;
* `Change.Accounts`          what a change says about the tokens before and after an edit: those in
  front of it and behind it are the old ones, and the rest lies in its extent;
* `edit_accounts`            the change that an edit reports says this.
-/

namespace FilterQuery
open Text

/-! ## moved tokens -/

/-- the same token `d` bytes further on, up to the verdict of a parenthesis if that is `free` -/
structure Token.Moved (d : Int) (free : Bool) (t u : Token) : Prop where
  role_eq : u.role = t.role
  text_eq : u.text = t.text
  resolution_eq : u.resolution = t.resolution
  start_eq : (u.span.start : Int) = t.span.start + d
  stop_eq : (u.span.stop : Int) = t.span.stop + d
  fault_eq : u.fault = t.fault ∨ free = true ∧ t.role.isParen = true

theorem Token.moved_of_unsettled_eq {t u : Token} {free : Bool} (h : u.unsettled = t.unsettled)
    (hfree : free = false → u = t) : Moved 0 free t u := by
  have hrole : u.role = t.role := by
    rw [← role_unsettled u, h, role_unsettled]
  have hspan : u.span = t.span := by
    rw [← span_unsettled u, h, span_unsettled]
  refine ⟨hrole, ?_, ?_, ?_, ?_, ?_⟩
  · rw [← text_unsettled u, h, text_unsettled]
  · rw [← resolution_unsettled u, h, resolution_unsettled]
  · rw [hspan, Int.add_zero]
  · rw [hspan, Int.add_zero]
  · by_cases hp : t.role.isParen = true
    · cases free with
      | false => exact .inl (by rw [hfree rfl])
      | true => exact .inr ⟨rfl, hp⟩
    · have ht : t.role.isParen = false := by simpa using hp
      have hu : u.role.isParen = false := by rw [hrole, ht]
      rw [unsettled_of_not_paren ht, unsettled_of_not_paren hu] at h
      exact .inl (by rw [h])

theorem Token.Moved.of_shift {d : Int} {free : Bool} {t u : Token} (h : Moved 0 free (t.shift d) u)
    (hstart : 0 ≤ t.span.start + d) (hle : t.span.start ≤ t.span.stop) : Moved d free t u := by
  have e1 : ((t.shift d).span.start : Int) = t.span.start + d := by
    show ((FilterQuery.shift t.span.start d : Nat) : Int) = _
    unfold FilterQuery.shift
    omega
  have e2 : ((t.shift d).span.stop : Int) = t.span.stop + d := by
    show ((FilterQuery.shift t.span.stop d : Nat) : Int) = _
    unfold FilterQuery.shift
    omega
  refine ⟨h.role_eq, h.text_eq, h.resolution_eq, ?_, ?_, h.fault_eq⟩
  · rw [h.start_eq, e1, Int.add_zero]
  · rw [h.stop_eq, e2, Int.add_zero]

/-! ## changes -/

/-- **What a change tells about the tokens before and after an edit.**  Tokens that stay behind the
edit are counted from the end. -/
structure Change.Accounts (c : Change) (e : Edit) (old new : Query) : Prop where
  within : c.first + c.count ≤ new.tokens.length
  kept_le : c.first + (new.tokens.length - (c.first + c.count)) ≤ old.tokens.length
  before : ∀ i < c.first, ∃ t u, old.tokens[i]? = some t ∧ new.tokens[i]? = some u ∧
    t.Moved 0 c.resettled u
  behind : ∀ i < new.tokens.length - (c.first + c.count), ∃ t u,
    old.tokens.reverse[i]? = some t ∧ new.tokens.reverse[i]? = some u ∧
      t.Moved e.delta c.resettled u
  extent_nil : new.source = [] → c.extent = ⟨0, 0⟩
  extent_eq : new.source ≠ [] → 0 < c.count ∧ ∃ t u, new.tokens[c.first]? = some t ∧
    new.tokens[c.first + c.count - 1]? = some u ∧ c.extent = ⟨t.span.start, u.span.stop⟩
  start_le : c.extent.start ≤ e.range.start
  le_stop : e.range.start + e.replacement.byteLength ≤ c.extent.stop

namespace Splicing
variable {reg : Registry} {q : Query} {e : Edit} {k : e.Cut q.source} (p : Splicing reg q k)

/-! ## places -/

theorem length_tokens : p.tokens.length = p.head.length + (p.fresh.length + p.kept.length) := by
  unfold tokens read
  rw [List.length_append, List.length_append, List.length_map, reg.length_judgeAll]

/-- old and new lexemes that stay are as far apart as the text has grown -/
theorem place_eq : (byteLength ((p.front ++ p.fresh).flatMap Lexeme.text) : Int)
    = byteLength ((p.front ++ p.removed).flatMap Lexeme.text) + e.delta := by
  have hold := congrArg byteLength (flatMap_text_lex q.source)
  have hnew := congrArg byteLength (flatMap_text_lex k.result)
  have hback : (p.back.map (fun l => l.shift e.delta)).flatMap Lexeme.text
      = p.back.flatMap Lexeme.text := by
    rw [List.flatMap_map]
    rfl
  have hlen := k.byteLength_result
  rw [p.old_eq] at hold
  rw [p.new_eq] at hnew
  simp only [List.flatMap_append, byteLength_append, hback] at hold hnew ⊢
  omega

theorem kept_start_le {t : Token} (ht : t ∈ p.kept) :
    byteLength ((p.front ++ p.removed).flatMap Lexeme.text) ≤ t.span.start ∧
      t.span.start ≤ t.span.stop := by
  obtain ⟨ts, us, hts⟩ := List.append_of_mem ht
  have hk := p.kept_lexed
  rw [hts] at hk
  obtain ⟨ls, ms, hback, -, hms⟩ := hk.split
  cases ms with
  | nil => exact absurd hms (List.cons_ne_nil _ _)
  | cons m ms =>
    have hold := p.old_eq
    rw [hback, ← List.append_assoc, ← List.append_assoc] at hold
    obtain ⟨h1, h2⟩ := start_eq_of_lexFrom hold
    rw [hms.cons_cons.2, h2, h1]
    simp only [List.flatMap_append, byteLength_append]
    omega

/-! ## tokens after the edit -/

/-- settling changes no token beyond its verdict, and none at all if no parenthesis is concerned -/
theorem exists_token {i : Nat} {t : Token} (h : p.tokens[i]? = some t) :
    ∃ u, (q.splice reg e).1.tokens[i]? = some u ∧ t.Moved 0 (q.splice reg e).2.resettled u := by
  have hu : (q.splice reg e).1.tokens.map Token.unsettled = p.tokens.map Token.unsettled := by
    rw [p.tokens_splice]
    split
    · exact map_unsettled_balanced _
    · rfl
  have hi := congrArg (fun ts => ts[i]?) hu
  simp only [List.getElem?_map, h, Option.map_some] at hi
  obtain ⟨u, hu1, hu2⟩ := Option.map_eq_some_iff.mp hi
  refine ⟨u, hu1, Token.moved_of_unsettled_eq hu2 (fun hr => ?_)⟩
  rw [p.tokens_splice, hr, if_neg (by decide), h] at hu1
  exact (Option.some.inj hu1).symm

theorem length_tokens_splice : (q.splice reg e).1.tokens.length = p.tokens.length := by
  rw [p.tokens_splice]
  split
  · have h := congrArg List.length (map_unsettled_balanced p.tokens)
    rwa [List.length_map, List.length_map] at h
  · rfl

theorem getElem?_head {i : Nat} (hi : i < p.head.length) :
    q.tokens[i]? = p.head[i]? ∧ p.tokens[i]? = p.head[i]? := by
  constructor
  · rw [p.tokens_eq, List.getElem?_append_left hi]
  · exact List.getElem?_append_left hi

theorem getElem?_kept (i : Nat) :
    q.tokens[p.head.length + p.gone.length + i]? = p.kept[i]? ∧
      p.tokens[p.head.length + p.read.length + i]? = p.kept[i]?.map (fun t => t.shift e.delta) := by
  constructor
  · rw [p.tokens_eq, ← List.append_assoc, ← List.length_append,
      List.getElem?_append_right (Nat.le_add_right ..), Nat.add_sub_cancel_left]
  · show (p.head ++ (p.read ++ p.kept.map _))[_]? = _
    rw [← List.append_assoc, ← List.length_append,
      List.getElem?_append_right (Nat.le_add_right ..), Nat.add_sub_cancel_left, List.getElem?_map]

theorem getElem?_read {i : Nat} (hi : i < p.read.length) :
    p.tokens[p.head.length + i]? = p.read[i]? := by
  show (p.head ++ (p.read ++ p.kept.map _))[_]? = _
  rw [List.getElem?_append_right (Nat.le_add_right ..), Nat.add_sub_cancel_left,
    List.getElem?_append_left hi]

/-- the tokens read reach from the end of the head to the end of the last of them -/
theorem exists_ends (h : p.fresh ≠ []) : ∃ t u, p.tokens[p.head.length]? = some t ∧
    p.tokens[p.head.length + p.fresh.length - 1]? = some u ∧
    t.span.start = byteLength (p.front.flatMap Lexeme.text) ∧
    u.span.stop = byteLength ((p.front ++ p.fresh).flatMap Lexeme.text) := by
  have hlen : p.read.length = p.fresh.length := p.read_lexed.length_eq
  have hpos : 0 < p.fresh.length := List.length_pos_iff.mpr h
  have hne : p.read ≠ [] := List.length_pos_iff.mp (by omega)
  have hlast := List.getLast?_eq_some_getLast hne
  refine ⟨p.read.head hne, p.read.getLast hne, ?_, ?_, ?_, ?_⟩
  · rw [← Nat.add_zero p.head.length, p.getElem?_read (by omega), ← List.head?_eq_getElem?,
      List.head?_eq_some_head hne]
  · rw [Nat.add_sub_assoc hpos, p.getElem?_read (by omega), ← hlen, ← List.getLast?_eq_getElem?]
    exact hlast
  · cases hf : p.fresh with
    | nil => exact absurd hf h
    | cons l ls =>
      have hnew := p.new_eq
      rw [hf] at hnew
      have hr := p.read_lexed
      rw [hf] at hr
      generalize p.read = r at hr hne
      cases r with
      | nil => exact absurd rfl hne
      | cons t ts =>
        rw [List.head_cons, hr.cons_cons.2, (start_eq_of_lexFrom hnew).1, Nat.zero_add]
  · obtain ⟨r, -, hr⟩ := lexFrom_eq_append p.new_eq
    have hs := stop_eq hr.symm p.read_lexed
    rw [hlast] at hs
    rw [List.flatMap_append, byteLength_append, ← Nat.zero_add (byteLength _)]
    exact hs

/-- the tokens that stay behind the edit, counted from the end -/
theorem exists_behind {i : Nat} (hi : i < p.kept.length) : ∃ t u,
    q.tokens.reverse[i]? = some t ∧ (q.splice reg e).1.tokens.reverse[i]? = some u ∧
      t.Moved e.delta (q.splice reg e).2.resettled u := by
  have hlen := p.length_tokens_splice
  have hsum := p.length_tokens
  have hread : p.read.length = p.fresh.length := p.read_lexed.length_eq
  have hold := congrArg List.length p.tokens_eq
  rw [List.length_append, List.length_append] at hold
  obtain ⟨h1, h2⟩ := p.getElem?_kept (p.kept.length - 1 - i)
  have hj : p.kept.length - 1 - i < p.kept.length := by omega
  rw [List.getElem?_eq_getElem hj] at h1 h2
  obtain ⟨u, hu, hmoved⟩ := p.exists_token h2
  obtain ⟨hstart, hstop⟩ := p.kept_start_le (List.getElem_mem hj)
  have hplace := p.place_eq
  refine ⟨_, u, ?_, ?_, hmoved.of_shift (by omega) hstop⟩
  · rw [List.getElem?_reverse (by omega), ← h1]
    congr 1
    omega
  · rw [List.getElem?_reverse (by omega), ← hu]
    congr 1
    omega

/-- the tokens read begin and end where the extent does -/
theorem exists_extent (h : p.fresh ≠ []) : ∃ t u,
    (q.splice reg e).1.tokens[p.head.length]? = some t ∧
      (q.splice reg e).1.tokens[p.head.length + p.fresh.length - 1]? = some u ∧
      (q.splice reg e).2.extent = ⟨t.span.start, u.span.stop⟩ := by
  obtain ⟨t, u, ht, hu, h1, h2⟩ := p.exists_ends h
  obtain ⟨t', ht', hmt⟩ := p.exists_token ht
  obtain ⟨u', hu', hmu⟩ := p.exists_token hu
  have e1 := hmt.start_eq
  have e2 := hmu.stop_eq
  refine ⟨t', u', ht', hu', ?_⟩
  rw [p.change_eq, ← h1, ← h2, Span.mk.injEq]
  constructor <;> omega

/-! ## the account -/

theorem accounts (p : Splicing reg q k) :
    (q.splice reg e).2.Accounts e q (q.splice reg e).1 := by
  have hlen := p.length_tokens_splice
  have hsum := p.length_tokens
  have hold := congrArg List.length p.tokens_eq
  have hsource : (q.splice reg e).1.source = k.result := congrArg Query.source p.query_eq
  have hfirst : (q.splice reg e).2.first = p.head.length := congrArg Change.first p.change_eq
  have hcount : (q.splice reg e).2.count = p.fresh.length := congrArg Change.count p.change_eq
  have hextent : (q.splice reg e).2.extent = ⟨byteLength (p.front.flatMap Lexeme.text),
      byteLength ((p.front ++ p.fresh).flatMap Lexeme.text)⟩ := congrArg Change.extent p.change_eq
  rw [List.length_append, List.length_append] at hold
  constructor
  case within => omega
  case kept_le => omega
  case before =>
    intro i hi
    rw [hfirst] at hi
    obtain ⟨h1, h2⟩ := p.getElem?_head hi
    rw [List.getElem?_eq_getElem hi] at h1 h2
    obtain ⟨u, hu, hmoved⟩ := p.exists_token h2
    exact ⟨_, u, h1, hu, hmoved⟩
  case behind =>
    intro i hi
    exact p.exists_behind (by omega)
  case extent_nil =>
    intro hnil
    rw [hsource] at hnil
    have hnew := p.new_eq
    rw [hnil] at hnew
    have hempty := List.append_eq_nil_iff.mp (hnew.symm.trans (lexFrom_nil 0))
    rw [hextent, hempty.1, (List.append_eq_nil_iff.mp hempty.2).1]
    rfl
  case extent_eq =>
    intro hne
    rw [hsource] at hne
    have hf := p.fresh_ne_nil hne
    rw [hfirst, hcount]
    exact ⟨List.length_pos_iff.mpr hf, p.exists_extent hf⟩
  case start_le =>
    rw [hextent]
    exact p.front_le
  case le_stop =>
    rw [hextent]
    exact p.stop_le

end Splicing

/-- **What an edit reports is enough to repaint.**  The tokens outside the reported ones are the
old ones, moved by the growth of the text behind the edit, and keep everything else unless
parentheses were settled again; the reported ones lie in the reported extent, with all of the
inserted text. -/
theorem Query.edit_accounts (reg : Registry) {s : Text} {e : Edit} (h : e.check s = .ok ()) :
    ∃ (q : Query) (c : Change), (ofText reg s).edit reg e = .ok (q, c) ∧
      c.Accounts e (ofText reg s) q := by
  obtain ⟨k⟩ := Edit.check_eq_ok_iff.mp h
  obtain ⟨p⟩ := exists_splicing reg (ofText reg s) k (lexed_ofText reg s)
  exact ⟨_, _, edit_of_cut reg (ofText reg s) k, p.accounts⟩

/-- a parenthesis is typed in front of a clause that one behind it closes -/
theorem Query.edit_accounts_paren :
    (Edit.insert 0 "(é or ".toList).check "src_ip=1) and".toList = .ok () ∧
      ∃ (q : Query) (c : Change),
        (ofText .builtin "src_ip=1) and".toList).edit .builtin (.insert 0 "(é or ".toList)
          = .ok (q, c) ∧
        c.Accounts (.insert 0 "(é or ".toList) (ofText .builtin "src_ip=1) and".toList) q :=
  ⟨by decide, edit_accounts .builtin (by decide)⟩

end FilterQuery
