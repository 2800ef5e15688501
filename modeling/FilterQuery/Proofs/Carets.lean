import FilterQuery.Proofs.Acceptance
import FilterQuery.Proofs.Resumption

/-!
# The token at a caret

The lexemes of a text cover it without gaps, so a caret behind some character of it touches one
token from the right and no other one.

* `exists_touched_lexFrom`       behind the start and up to the end, a caret touches a lexeme;
* `Query.tokenAt_eq_some_iff`    the token at a caret is the one that the caret touches;
* `Query.tokenAtInPlace_eq`      and a search by halves finds it;
* `Registry.mem_suggest_iff`     a name longer than its part is a name other than its part;
* `Query.caret_exact`            which token and which fields are found at a caret.
-/

namespace FilterQuery
open Text

/-- **Lexemes leave no gap**: a caret behind the start of a text, up to its end, touches one. -/
theorem exists_touched_lexFrom {n : Nat} {s : Text} {caret : Nat} (hlow : n < caret)
    (hhigh : caret ≤ n + byteLength s) :
    ∃ l ∈ lexFrom n s, l.span.start < caret ∧ caret ≤ l.span.stop := by
  fun_induction lexFrom n s with
  | case1 n =>
    rw [byteLength_nil] at hhigh
    omega
  | case2 n c s m l ih =>
    by_cases hcaret : caret ≤ l.span.stop
    · exact ⟨l, List.mem_cons_self, hlow, hcaret⟩
    · have hlength : l.span.stop + byteLength m.rest = n + byteLength (c :: s) := by
        rw [← munch_text_append_rest c s, byteLength_append, ← Nat.add_assoc]
        rfl
      obtain ⟨k, hk, htouches⟩ := ih (by omega) (by omega)
      exact ⟨k, List.mem_cons_of_mem l hk, htouches⟩

theorem Lexed.start_lt_stop {s : Text} {ts : List Token} (h : Lexed (lex s) ts) {t : Token}
    (ht : t ∈ ts) : t.span.start < t.span.stop := by
  obtain ⟨l, hl, hspan⟩ := h.exists_span ht
  rw [← hspan]
  exact (Lexeme.standsIn_of_mem_lex hl).start_lt_stop

/-! ## the one token -/

namespace Query
variable {q : Query} {caret : Nat}

/-- **The token at a caret is the one that the caret touches.** -/
theorem tokenAt_eq_some_iff (h : Lexed (lex q.source) q.tokens) {i : Nat} {t : Token} :
    q.tokenAt caret = some (i, t) ↔ q.tokens[i]? = some t ∧ Touches caret t := by
  constructor
  · exact tokenAt_touches
  · rintro ⟨ht, htouches⟩
    obtain ⟨hi, hget⟩ := List.getElem?_eq_some_iff.mp ht
    -- the tokens in front end before the touched one starts
    have hfirst : q.tokens.findIdx? (fun t => decide (caret ≤ t.span.stop)) = some i := by
      rw [List.findIdx?_eq_some_iff_getElem]
      refine ⟨hi, ?_, fun j hj => ?_⟩
      · rw [hget]
        exact decide_eq_true htouches.2
      · have hapart := (List.pairwise_iff_getElem.mp h.pairwise_apart j i (hj.trans hi) hi hj).1
        have hlow := htouches.1
        rw [← hget] at hlow
        simp only [decide_eq_true_eq]
        omega
    unfold tokenAt
    rw [hfirst]
    simp [ht, htouches]

/-- **A search by halves finds the token at a caret.** -/
theorem tokenAtInPlace_eq (h : Lexed (lex q.source) q.tokens) (caret : Nat) :
    q.tokenAtInPlace caret = some (q.tokenAt caret) := by
  have hpoint := h.partitionPoint?_eq caret
  have hn := fun i t => lt_length_takeWhile_iff (h.pairwise_stop_lt caret) (i := i) (x := t)
  generalize (q.tokens.takeWhile (fun t => t.span.stop < caret)).length = n at hpoint hn
  simp only [decide_eq_true_eq] at hn
  -- a token that the caret touches is the first one that does not end in front of it
  have hfirst : ∀ i t, q.tokens[i]? = some t → Touches caret t → n = i := by
    intro i t ht htouches
    have hge : ¬ i < n := fun hi => Nat.not_lt.mpr htouches.2 ((hn i t ht).mpr hi)
    refine Nat.le_antisymm (Nat.le_of_not_lt hge) (Nat.le_of_not_lt (fun hlt => ?_))
    obtain ⟨hi, hget⟩ := List.getElem?_eq_some_iff.mp ht
    have hapart := (List.pairwise_iff_getElem.mp h.pairwise_apart n i (hlt.trans hi) hi hlt).1
    have hstop := mt (hn n _ (List.getElem?_eq_getElem (hlt.trans hi))).mp (Nat.lt_irrefl n)
    have hlow := htouches.1
    rw [← hget] at hlow
    omega
  unfold tokenAtInPlace
  rw [hpoint]
  show some _ = some _
  congr 1
  refine Option.ext (fun ⟨i, t⟩ => ?_)
  rw [tokenAt_eq_some_iff h]
  simp only [Option.map_eq_some_iff, Option.filter_eq_some_iff, decide_eq_true_eq, Prod.mk.injEq]
  constructor
  · rintro ⟨u, ⟨hu, htouches⟩, rfl, rfl⟩
    exact ⟨hu, htouches⟩
  · rintro ⟨ht, htouches⟩
    obtain rfl := hfirst i t ht htouches
    exact ⟨t, ⟨ht, htouches⟩, rfl, rfl⟩

theorem isSome_tokenAt_iff (h : Lexed (lex q.source) q.tokens) :
    (q.tokenAt caret).isSome ↔ 0 < caret ∧ caret ≤ byteLength q.source := by
  have hspan : (∃ t ∈ q.tokens, Touches caret t) ↔
      ∃ l ∈ lex q.source, l.span.start < caret ∧ caret ≤ l.span.stop :=
    h.exists_span_iff (P := fun a => a.start < caret ∧ caret ≤ a.stop)
  constructor
  · intro hsome
    obtain ⟨⟨i, t⟩, ht⟩ := Option.isSome_iff_exists.mp hsome
    obtain ⟨hget, htouches⟩ := tokenAt_touches ht
    obtain ⟨l, hl, hlow, hhigh⟩ := hspan.mp ⟨t, List.mem_of_getElem? hget, htouches⟩
    have hstop := stop_le_of_mem_front (List.append_nil (lex q.source)).symm hl
    rw [flatMap_text_lex] at hstop
    exact ⟨Nat.zero_lt_of_lt hlow, hhigh.trans hstop⟩
  · rintro ⟨hlow, hhigh⟩
    obtain ⟨t, ht, htouches⟩ :=
      hspan.mpr (exists_touched_lexFrom hlow (by rwa [Nat.zero_add]))
    obtain ⟨i, hi⟩ := List.mem_iff_getElem?.mp ht
    rw [(tokenAt_eq_some_iff h).mpr ⟨hi, htouches⟩]
    rfl

end Query

/-! ## what is offered -/

theorem byteLength_lt_iff_ne {part s : Text} (h : part <:+: s) :
    part.byteLength < s.byteLength ↔ s ≠ part := by
  obtain ⟨a, b, rfl⟩ := h
  rw [byteLength_append, byteLength_append]
  constructor
  · intro hlt he
    have hlength := congrArg byteLength he
    rw [byteLength_append, byteLength_append] at hlength
    omega
  · intro hne
    by_contra hle
    obtain rfl := byteLength_eq_zero.mp (show byteLength a = 0 by omega)
    obtain rfl := byteLength_eq_zero.mp (show byteLength b = 0 by omega)
    exact hne (List.append_nil part)

theorem Registry.mem_suggest_iff {reg : Registry} {t : Token} {f : Field} : f ∈ reg.suggest t ↔
    t.role = .field ∧ f ∈ reg.fields ∧ f.name ≠ t.text ∧ t.text <:+: f.name := by
  rw [mem_suggest]
  constructor
  · rintro ⟨hr, hf, hpart, hlonger⟩
    exact ⟨hr, hf, (byteLength_lt_iff_ne hpart).mp hlonger, hpart⟩
  · rintro ⟨hr, hf, hne, hpart⟩
    exact ⟨hr, hf, hpart, (byteLength_lt_iff_ne hpart).mpr hne⟩

/-- **The fields offered for a token** are those whose name is another one and contains its text,
each of them once, as they were declared. -/
structure Registry.Offers (reg : Registry) (t : Token) (fs : List Field) : Prop where
  declared : fs.Sublist reg.fields
  once : fs.Nodup
  mem_iff : ∀ f, f ∈ fs ↔ f ∈ reg.fields ∧ f.name ≠ t.text ∧ t.text <:+: f.name

theorem Registry.offers_suggest (reg : Registry) {t : Token} (hr : t.role = .field) :
    reg.Offers t (reg.suggest t) := by
  have hdeclared : (reg.suggest t).Sublist reg.fields := by
    unfold suggest containing
    rw [if_pos hr]
    exact List.filter_sublist.trans List.filter_sublist
  refine ⟨hdeclared, reg.distinct.of_map.sublist hdeclared, fun f => ?_⟩
  rw [mem_suggest_iff]
  exact and_iff_right hr

namespace Query

theorem suggestAtInPlace_eq (reg : Registry) {q : Query} (h : Lexed (lex q.source) q.tokens)
    (caret : Nat) : q.suggestAtInPlace reg caret = some (q.suggestAt reg caret) := by
  unfold suggestAtInPlace suggestAt
  rw [tokenAtInPlace_eq h]
  cases q.tokenAt caret with
  | none => rfl
  | some r =>
    obtain ⟨i, t⟩ := r
    dsimp only [Option.bind_eq_bind, Option.bind_some]
    cases reg.suggest t <;> rfl

/-- **What is found at a caret.**  There is a token at every caret behind the start of a text, up to
its end: the only one that starts in front of the caret and does not end in front of it.  Fields are
offered if it is a field and other names contain its text, and then all of them. -/
theorem caret_exact (reg : Registry) (s : Text) (caret : Nat) :
    let q := ofText reg s
    q.tokenAtInPlace caret = some (q.tokenAt caret) ∧
    q.suggestAtInPlace reg caret = some (q.suggestAt reg caret) ∧
    ((q.tokenAt caret).isSome ↔ 0 < caret ∧ caret ≤ byteLength s) ∧
    (∀ i t, q.tokenAt caret = some (i, t) ↔
      q.tokens[i]? = some t ∧ t.span.start < caret ∧ caret ≤ t.span.stop) ∧
    ((q.suggestAt reg caret).isSome ↔ ∃ i t, q.tokenAt caret = some (i, t) ∧ t.role = .field ∧
      ∃ f ∈ reg.fields, f.name ≠ t.text ∧ t.text <:+: f.name) ∧
    ∀ i fs, q.suggestAt reg caret = some (i, fs) →
      ∃ t, q.tokenAt caret = some (i, t) ∧ reg.Offers t fs := by
  intro q
  have hlexed : Lexed (lex q.source) q.tokens := lexed_ofText reg s
  refine ⟨tokenAtInPlace_eq hlexed caret, suggestAtInPlace_eq reg hlexed caret,
    isSome_tokenAt_iff hlexed, fun i t => tokenAt_eq_some_iff hlexed, ?_, ?_⟩
  · constructor
    · intro hsome
      obtain ⟨⟨i, fs⟩, hfs⟩ := Option.isSome_iff_exists.mp hsome
      obtain ⟨t, ht, rfl, hne⟩ := suggestAt_eq_some_iff.mp hfs
      obtain ⟨f, hf⟩ := List.exists_mem_of_ne_nil _ hne
      obtain ⟨hr, hmem, hname⟩ := Registry.mem_suggest_iff.mp hf
      exact ⟨i, t, ht, hr, f, hmem, hname⟩
    · rintro ⟨i, t, ht, hr, f, hmem, hname⟩
      have hf := Registry.mem_suggest_iff.mpr ⟨hr, hmem, hname⟩
      rw [suggestAt_eq_some_iff.mpr ⟨t, ht, rfl, List.ne_nil_of_mem hf⟩]
      rfl
  · intro i fs hfs
    obtain ⟨t, ht, rfl, hne⟩ := suggestAt_eq_some_iff.mp hfs
    obtain ⟨f, hf⟩ := List.exists_mem_of_ne_nil _ hne
    exact ⟨t, ht, reg.offers_suggest (Registry.mem_suggest_iff.mp hf).1⟩

end Query

end FilterQuery
