import FilterQuery.Proofs.Resumption

/-!
# The steps of an edit in place

* `Query.Steps`            what each step of an edit in place gives, if the edit fits;
* `Query.exists_steps`     an edit in place that succeeds has made such steps;
* `readOn?_bounds`         the tokens that are read end in the new text, and the old token that goes
  on behind them starts where a lexeme ended;
* `Query.Steps.stop_le_start`   so the tokens that are kept start behind the removed text.
-/

namespace FilterQuery
open Text

/-! ## the steps of an edit in place -/

theorem segment?_eq_some {α : Type} {xs ys : List α} {first last : Nat}
    (h : segment? xs first last = some ys) :
    ∃ head kept, xs = head ++ (ys ++ kept) ∧ head.length = first ∧
      head.length + ys.length = last := by
  unfold segment? at h
  split at h
  · next hle =>
    obtain rfl := Option.some.inj h
    refine ⟨xs.take first, xs.drop last, ?_, List.length_take_of_le (by omega), ?_⟩
    · have hdrop : (xs.drop first).drop (last - first) = xs.drop last := by
        rw [List.drop_drop, Nat.add_sub_cancel' hle.1]
      rw [← hdrop, List.take_append_drop, List.take_append_drop]
    · rw [List.length_take_of_le (by omega), List.length_take_of_le
        (by rw [List.length_drop]; omega)]
      omega
  · exact absurd h (by simp)

/-- **The steps of an edit in place** that fits, with what each of them gives: the tokens of `gone`
make room for those of `read`, and those of `kept` are moved. -/
structure Query.Steps (reg : Registry) (q : Query) (e : Edit) where
  source : Text
  touched : Nat
  previous : Option Role
  head : List Token
  gone : List Token
  kept : List Token
  read : List Token
  check_eq : e.check q.source = .ok ()
  source_eq : q.source.exchange? e.range e.replacement = some source
  touched_eq : partitionPoint? (fun t => t.span.stop < e.range.start) q.tokens 0 q.tokens.length =
    some touched
  first_eq : touched - 1 = head.length
  tokens_eq : q.tokens = head ++ (gone ++ kept)
  previous_eq : roleInFront? q.tokens head.length = some previous
  read_eq : reg.readOn? source q.tokens e
    ((q.tokens[head.length]?.map (fun t => t.span.start)).getD 0) previous head.length =
      some (read, head.length + gone.length)

namespace Query.Steps
variable {reg : Registry} {q : Query} {e : Edit} (p : q.Steps reg e)

def origin : Nat := (q.tokens[p.head.length]?.map (fun t => t.span.start)).getD 0

def resettled : Bool := (p.gone ++ p.read).any (fun t => t.role.isParen)

def tokens : List Token := p.head ++ p.read ++ p.kept.map (fun t => t.shift e.delta)

def query : Query := ⟨p.source, if p.resettled then balanced p.tokens else p.tokens⟩

def change : Change :=
  ⟨⟨p.origin, (p.read.getLast?.map (fun t => t.span.stop)).getD p.origin⟩, p.head.length,
    p.read.length, p.resettled⟩

end Query.Steps

/-- an edit in place that succeeds has made these steps -/
theorem Query.exists_steps {reg : Registry} {q q' : Query} {e : Edit} {c : Change}
    (h : q.editInPlace reg e = some (q', .ok c)) :
    ∃ p : q.Steps reg e, q' = p.query ∧ c = p.change := by
  unfold editInPlace at h
  split at h
  · exact absurd h (by simp)
  next hcheck =>
  obtain ⟨source, hsource, h⟩ := Option.bind_eq_some_iff.mp h
  obtain ⟨touched, htouched, h⟩ := Option.bind_eq_some_iff.mp h
  obtain ⟨previous, hprevious, h⟩ := Option.bind_eq_some_iff.mp h
  obtain ⟨⟨read, last⟩, hread, h⟩ := Option.bind_eq_some_iff.mp h
  obtain ⟨gone, hgone, h⟩ := Option.bind_eq_some_iff.mp h
  obtain ⟨spliced, hspliced, h⟩ := Option.bind_eq_some_iff.mp h
  obtain ⟨moved, hmoved, h⟩ := Option.bind_eq_some_iff.mp h
  obtain ⟨head, kept, htokens, hfirst, hlast⟩ := segment?_eq_some hgone
  dsimp only at h hprevious hread hspliced hmoved
  rw [← hfirst] at h hprevious hread hspliced hmoved
  rw [← hlast] at hread hspliced
  let p : q.Steps reg e := ⟨source, touched, previous, head, gone, kept, read, hcheck, hsource,
    htouched, hfirst.symm, htokens, hprevious, hread⟩
  -- the tokens in the place of those that go, and those behind
  rw [htokens, exchangeSegment?_append] at hspliced
  obtain rfl := Option.some.inj hspliced
  rw [← List.length_append, moveFrom?_append] at hmoved
  obtain rfl := Option.some.inj hmoved
  have hsettled : some (p.query, Except.ok p.change) =
      some (q', (Except.ok c : Except EditError Change)) := by
    rw [← h, resettle?_eq]
    unfold Query.Steps.query
    by_cases hr : p.resettled = true
    · rw [if_pos hr]
      exact (if_pos hr).symm
    · rw [if_neg hr]
      exact (if_neg hr).symm
  obtain ⟨hq, hc⟩ := Prod.mk.inj (Option.some.inj hsettled)
  exact ⟨p, hq.symm, (Except.ok.inj hc).symm⟩

/-! ## where reading stops -/

/-- an old token that goes on starts where a lexeme ended, not in front of the end of the inserted
text -/
theorem Edit.takeover?_eq_some_true {e : Edit} {ts : List Token} {stop index next : Nat}
    {role : Option Role} (h : e.takeover? ts stop role index = some (next, true)) :
    e.stop ≤ stop ∧ ∃ t, ts[next]? = some t ∧ t.span.start = shift stop (-e.delta) := by
  unfold takeover? at h
  split at h
  · exact absurd h (by simp)
  next hstop =>
  dsimp only at h
  split at h
  · exact absurd h (by simp)
  next t ht =>
  split at h
  · next hstart =>
    obtain ⟨r, -, hr⟩ := Option.map_eq_some_iff.mp h
    exact ⟨Nat.le_of_not_lt hstop, t, (Prod.mk.inj hr).1 ▸ ht, hstart⟩
  · exact absurd h (by simp)

/-- **Where reading stops.**  The tokens that are read end in the text.  An old token that goes on
behind them starts where a lexeme ended, not in front of the end of the inserted text. -/
theorem readOn?_bounds {reg : Registry} {s : Text} {ts read : List Token} {e : Edit}
    {start index next : Nat} {previous : Option Role}
    (h : reg.readOn? s ts e start previous index = some (read, next)) :
    (∀ t ∈ read, t.span.stop ≤ s.byteLength) ∧
      ∀ t, ts[next]? = some t → ∃ stop, e.stop ≤ stop ∧ t.span.start = shift stop (-e.delta) := by
  fun_induction Registry.readOn? reg s ts e start previous index generalizing read next with
  | case1 start previous index hnone => exact absurd h (by simp)
  | case2 start previous index hend =>
    obtain ⟨rfl, rfl⟩ := Prod.mk.inj (Option.some.inj h)
    exact ⟨fun t ht => absurd ht List.not_mem_nil, fun t ht => absurd ht (by simp)⟩
  | case3 start previous index l hl t => exact absurd h (by simp)
  | case4 start previous index l hl t role =>
    rename_i next' htakeover
    obtain ⟨rfl, rfl⟩ := Prod.mk.inj (Option.some.inj h)
    obtain ⟨hstop, u, hu, hstart⟩ := Edit.takeover?_eq_some_true htakeover
    refine ⟨fun v hv => ?_, fun v hv => ⟨l.span.stop, hstop, ?_⟩⟩
    · rw [List.mem_singleton.mp hv, reg.judge_span]
      exact (stop_of_lexemeAt? hl).2
    · rw [Option.some.inj (hv.symm.trans hu), hstart]
  | case5 start previous index l hl t role =>
    rename_i index' htakeover ih
    obtain ⟨⟨read', last⟩, hread, hr⟩ := Option.map_eq_some_iff.mp h
    obtain ⟨rfl, rfl⟩ := Prod.mk.inj hr
    obtain ⟨hstops, hnext⟩ := ih hread
    refine ⟨fun v hv => ?_, hnext⟩
    rcases List.mem_cons.mp hv with rfl | hv
    · rw [reg.judge_span]
      exact (stop_of_lexemeAt? hl).2
    · exact hstops v hv

theorem Lexed.span_within {s : Text} {ts : List Token} (h : Lexed (lex s) ts) {t : Token}
    (ht : t ∈ ts) : t.span.start < t.span.stop ∧ t.span.stop ≤ s.byteLength := by
  obtain ⟨l, hl, hspan⟩ := h.exists_span ht
  have hstands := Lexeme.standsIn_of_mem_lex hl
  rw [← hspan]
  exact ⟨hstands.start_lt_stop, le_byteLength_of_isBoundary hstands.stop_boundary⟩

theorem Edit.stop_sub_delta {e : Edit} (h : e.range.start ≤ e.range.stop) :
    (e.stop : Int) - e.delta = e.range.stop := by
  have hstop : e.stop = e.range.start + e.replacement.byteLength := rfl
  have hdelta : e.delta = (e.replacement.byteLength : Int) -
    (e.range.stop - e.range.start : Nat) := rfl
  omega

namespace Query.Steps
variable {reg : Registry} {q : Query} {e : Edit} (p : q.Steps reg e) {t : Token}

theorem mem_of_mem_kept (ht : t ∈ p.kept) : t ∈ q.tokens := by
  rw [p.tokens_eq]
  exact List.mem_append_right _ (List.mem_append_right _ ht)

/-- **The tokens that are kept start behind the removed text**: the first of them where reading
stopped, and the others behind it. -/
theorem stop_le_start (h : Lexed (lex q.source) q.tokens) (hrange : e.range.start ≤ e.range.stop)
    (ht : t ∈ p.kept) : e.range.stop ≤ t.span.start := by
  obtain ⟨u, us, hkept⟩ := List.exists_cons_of_ne_nil (List.ne_nil_of_mem ht)
  have hitem : q.tokens[p.head.length + p.gone.length]? = some u := by
    rw [p.tokens_eq, ← List.append_assoc, ← List.length_append, hkept,
      List.getElem?_append_right (Nat.le_refl _), Nat.sub_self]
    rfl
  have hfirst : e.range.stop ≤ u.span.start := by
    obtain ⟨stop, hstop, hstart⟩ := (readOn?_bounds p.read_eq).2 u hitem
    have hback := Edit.stop_sub_delta hrange
    rw [hstart]
    unfold shift
    omega
  have hapart := h.pairwise_apart
  rw [p.tokens_eq, ← List.append_assoc, hkept] at hapart
  have hbehind := (List.pairwise_cons.mp (List.pairwise_append.mp hapart).2.1).1
  rw [hkept] at ht
  rcases List.mem_cons.mp ht with rfl | ht
  · exact hfirst
  · have hu := (h.span_within (List.mem_of_getElem? hitem)).1
    have hle := (hbehind t ht).1
    omega

end Query.Steps

end FilterQuery
