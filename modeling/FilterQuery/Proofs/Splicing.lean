import FilterQuery.Proofs.Judgement

/-!
# What an edit reads and what it keeps

* `Registry.rescan_spec`   reading gives the tokens of some lexemes and stops at the end of the text
  or where old tokens take over;
* `Edit.keepable_spec`     which old tokens can take over;
* `Splicing`               the parts of an edited query: the tokens in front that stay (`head`), the
  ones that go (`gone`) and the ones behind that stay (`kept`), with their lexemes, and the lexemes
  read in the place of those that go (`fresh`);
* `exists_splicing`        every edit of a query that spells out its text has these parts.

Nothing here needs the old tokens to have been judged with the same registry.
-/

namespace FilterQuery
open Text

/-! ## reading on -/

/-- **Reading stops at the end of the text or where old tokens take over**, and does not go on over
such a place. -/
theorem Registry.rescan_spec (reg : Registry) (old : Nat → Option Role → Option (List Token))
    (previous : Option Role) (start : Nat) (s : Text) :
    ∃ ls ms, lexFrom start s = ls ++ ms ∧
      (reg.rescan old previous start s).1 = reg.judgeAll previous ls ∧
      (ms = [] ∧ (reg.rescan old previous start s).2 = [] ∨
        ls ≠ [] ∧ old (start + byteLength (ls.flatMap Lexeme.text))
          (lastRole previous (reg.judgeAll previous ls)) =
            some (reg.rescan old previous start s).2) ∧
      ∀ as bs, ls = as ++ bs → as ≠ [] → bs ≠ [] →
        old (start + byteLength (as.flatMap Lexeme.text))
          (lastRole previous (reg.judgeAll previous as)) = none := by
  fun_induction lexFrom start s generalizing previous with
  | case1 start =>
    rw [rescan_nil]
    exact ⟨[], [], rfl, rfl, .inl ⟨rfl, rfl⟩,
      fun as bs h has _ => absurd (List.append_eq_nil_iff.mp h.symm).1 has⟩
  | case2 start c s m l ih =>
    rw [rescan_cons]
    cases hold : old l.span.stop (after previous (reg.judge previous l).role) with
    | some kept =>
      refine ⟨[l], lexFrom l.span.stop m.rest, rfl, ?_, .inr ⟨List.cons_ne_nil _ _, ?_⟩,
        fun as bs h has hbs => ?_⟩
      · simp only [m, l] at hold ⊢
        rw [hold]
        rfl
      · have e : byteLength ([l].flatMap Lexeme.text) = byteLength m.text := by
          rw [List.flatMap_singleton]
          rfl
        rw [e]
        simp only [m, l] at hold ⊢
        rw [hold]
        exact hold
      · -- one lexeme is not two
        have hlength := congrArg List.length h
        rw [List.length_append, List.length_singleton] at hlength
        have h1 := List.length_pos_iff.mpr has
        have h2 := List.length_pos_iff.mpr hbs
        omega
    | none =>
      obtain ⟨ls, ms, hlex, hread, hend, hfirst⟩ :=
        ih (after previous (reg.judge previous l).role)
      refine ⟨l :: ls, ms, by rw [hlex]; rfl, ?_, ?_, fun as bs h has hbs => ?_⟩
      · simp only [m, l] at hold hread ⊢
        rw [hold]
        simp only
        rw [hread]
        rfl
      · have e : start + byteLength ((l :: ls).flatMap Lexeme.text)
            = l.span.stop + byteLength (ls.flatMap Lexeme.text) := by
          rw [List.flatMap_cons, byteLength_append, ← Nat.add_assoc]
          rfl
        rw [e]
        simp only [m, l] at hold hend ⊢
        rw [hold]
        rcases hend with hend | ⟨_, hend⟩
        · exact .inl hend
        · exact .inr ⟨List.cons_ne_nil _ _, hend⟩
      · cases as with
        | nil => exact absurd rfl has
        | cons a as =>
          obtain ⟨rfl, hls⟩ := List.cons.inj h
          rw [List.flatMap_cons, byteLength_append, ← Nat.add_assoc]
          by_cases hnil : as = []
          · rw [hnil]
            exact hold
          · exact hfirst as bs hls hnil hbs

/-! ## old tokens -/

theorem tailFrom_spec {offset : Nat} {role previous : Option Role} {ts kept : List Token}
    (h : tailFrom offset role previous ts = some kept) :
    ∃ gone t us, ts = gone ++ kept ∧ kept = t :: us ∧ t.span.start = offset ∧
      lastRole previous gone = role := by
  induction ts generalizing previous with
  | nil => exact absurd h (by simp [tailFrom])
  | cons t ts ih =>
    unfold tailFrom at h
    split at h
    · obtain ⟨gone, u, us, hts, hkept, hstart, hrole⟩ := ih h
      exact ⟨t :: gone, u, us, by rw [hts]; rfl, hkept, hstart, hrole⟩
    split at h
    · next hc =>
      have e := Option.some.inj h
      exact ⟨[], t, ts, e, e.symm, hc.1, hc.2⟩
    · exact absurd h (by simp)

theorem Edit.keepable_spec {e : Edit} {previous role : Option Role} {ts kept : List Token}
    {offset : Nat} (h : e.keepable previous ts offset role = some kept) :
    e.stop ≤ offset ∧ ∃ gone t us, ts = gone ++ kept ∧ kept = t :: us ∧
      t.span.start = shift offset (-e.delta) ∧ lastRole previous gone = role := by
  unfold keepable at h
  split at h
  · exact absurd h (by simp)
  · next hlt => exact ⟨Nat.le_of_not_lt hlt, tailFrom_spec h⟩

/-! ## the parts of an edited query -/

/-- **What becomes of a query in an edit.**  The tokens of `front` and, moved, those of `back` stay;
those of `removed` make room for those of `fresh`. -/
structure Splicing (reg : Registry) (q : Query) {e : Edit} (k : e.Cut q.source) where
  head : List Token
  gone : List Token
  kept : List Token
  front : List Lexeme
  removed : List Lexeme
  back : List Lexeme
  fresh : List Lexeme
  tokens_eq : q.tokens = head ++ (gone ++ kept)
  old_eq : lex q.source = front ++ (removed ++ back)
  new_eq : lex k.result = front ++ (fresh ++ back.map (fun l => l.shift e.delta))
  head_lexed : Lexed front head
  gone_lexed : Lexed removed gone
  kept_lexed : Lexed back kept
  /-- the tokens that stay behind the edit see the same last role -/
  role_eq : kept ≠ [] → lastRole none (head ++ gone)
    = lastRole none (head ++ reg.judgeAll (lastRole none head) fresh)
  change_eq : (q.splice reg e).2 =
    ⟨⟨byteLength (front.flatMap Lexeme.text), byteLength ((front ++ fresh).flatMap Lexeme.text)⟩,
      head.length, fresh.length,
      (gone ++ reg.judgeAll (lastRole none head) fresh).any (fun t => t.role.isParen)⟩
  query_eq : (q.splice reg e).1 = ⟨k.result,
    if (q.splice reg e).2.resettled
    then balanced (head ++ (reg.judgeAll (lastRole none head) fresh
      ++ kept.map (fun t => t.shift e.delta)))
    else head ++ (reg.judgeAll (lastRole none head) fresh
      ++ kept.map (fun t => t.shift e.delta))⟩
  front_le : byteLength (front.flatMap Lexeme.text) ≤ e.range.start
  stop_le : e.stop ≤ byteLength ((front ++ fresh).flatMap Lexeme.text)
  fresh_ne_nil : k.result ≠ [] → fresh ≠ []
  head_eq : untouched e.range.start q.tokens = head
  /-- where reading went on, no old token could -/
  keepable_eq : ∀ as bs, fresh = as ++ bs → as ≠ [] → bs ≠ [] →
    e.keepable (lastRole none head) (gone ++ kept) (byteLength ((front ++ as).flatMap Lexeme.text))
      (lastRole (lastRole none head) (reg.judgeAll (lastRole none head) as)) = none

/-- the lexemes of the tokens that an edit cannot reach begin the old text and the new one -/
theorem exists_front {e : Edit} {s : Text} (k : e.Cut s) {ts : List Token}
    (h : Lexed (lex s) ts) :
    ∃ front ms ms', lex s = front ++ ms ∧ lex k.result = front ++ ms' ∧
      Lexed front (untouched e.range.start ts) ∧
      byteLength (front.flatMap Lexeme.text) ≤ e.range.start ∧ (s ≠ [] → ms ≠ []) ∧
      (k.result ≠ [] → ms' ≠ []) := by
  obtain ⟨ms, hold, hms⟩ := exists_lex_append k.front (k.removed ++ k.back)
  obtain ⟨ms', hnew, hms'⟩ := exists_lex_append k.front (e.replacement ++ k.back)
  have hseam := takeWhile_lex_append k.front (k.removed ++ k.back)
  rw [← List.append_assoc, ← k.text_eq] at hold hms hseam
  rw [← List.append_assoc] at hnew hms'
  have hlexed := (h.takeWhile_span (fun a => a.stop < e.range.start)).dropLast
  rw [← k.start_eq, hseam] at hlexed
  refine ⟨(lex k.front).dropLast.dropLast, ms, ms', hold, hnew, ?_, ?_, hms, hms'⟩
  · rw [← k.start_eq]
    exact hlexed
  · obtain ⟨ns, hns⟩ : (lex k.front).dropLast.dropLast <+: lex k.front :=
      (List.dropLast_prefix _).trans (List.dropLast_prefix _)
    obtain ⟨r, hr, -⟩ := lexFrom_eq_append hns.symm
    have hlen := congrArg byteLength hr
    rw [byteLength_append] at hlen
    rw [← k.start_eq]
    omega

theorem origin_eq {s : Text} {us : List Token} {ls ms : List Lexeme} (h : lex s = ls ++ ms)
    (hms : Lexed ms us) (hne : us = [] → ls = []) :
    (us.head?.map (fun t => t.span.start)).getD 0 = byteLength (ls.flatMap Lexeme.text) := by
  cases us with
  | nil =>
    rw [hne rfl]
    rfl
  | cons u us =>
    cases ms with
    | nil => exact absurd hms (List.cons_ne_nil _ _)
    | cons m ms =>
      have h1 := (start_eq_of_lexFrom h).1
      show u.span.start = _
      rw [hms.cons_cons.2, h1, Nat.zero_add]

theorem stop_eq {n : Nat} {s : Text} {ts : List Token} {ls ms : List Lexeme}
    (h : lexFrom n s = ls ++ ms) (hls : Lexed ls ts) :
    (ts.getLast?.map (fun t => t.span.stop)).getD n
      = n + byteLength (ls.flatMap Lexeme.text) := by
  rcases List.eq_nil_or_concat ts with rfl | ⟨us, u, rfl⟩
  · rw [hls.eq_nil_iff.mp rfl]
    rfl
  · rw [List.concat_eq_append] at hls ⊢
    obtain ⟨ls', l', hl, -, hu⟩ := hls.split
    cases l' with
    | nil => exact absurd hu (List.cons_ne_nil _ _)
    | cons l l' =>
      have h0 : l' = [] :=
        List.eq_nil_of_length_eq_zero (Nat.succ.inj hu.length_eq).symm
      subst h0
      rw [hl, List.append_assoc] at h
      obtain ⟨h1, h2⟩ := start_eq_of_lexFrom h
      rw [List.getLast?_append, hl, List.flatMap_append, byteLength_append, List.flatMap_singleton]
      show u.span.stop = _
      rw [hu.cons_cons.2, h2, h1, Nat.add_assoc]

theorem splice_eq (reg : Registry) {q : Query} {e : Edit} {head tail gone read kept : List Token}
    {origin : Nat} {source rest : Text} (hsource : e.apply q.source = source)
    (hhead : untouched e.range.start q.tokens = head) (htail : q.tokens.drop head.length = tail)
    (horigin : (tail.head?.map (fun t => t.span.start)).getD 0 = origin)
    (hrest : source.dropBytes origin = rest)
    (hread : reg.rescan (e.keepable (lastRole none head) tail) (lastRole none head) origin rest
      = (read, kept))
    (hgone : tail = gone ++ kept) :
    q.splice reg e = (⟨source,
      if (gone ++ read).any (fun t => t.role.isParen)
      then balanced (head ++ (read ++ kept.map (fun t => t.shift e.delta)))
      else head ++ (read ++ kept.map (fun t => t.shift e.delta))⟩,
      ⟨⟨origin, (read.getLast?.map (fun t => t.span.stop)).getD origin⟩, head.length, read.length,
        (gone ++ read).any (fun t => t.role.isParen)⟩) := by
  have hremoved : tail.take (tail.length - kept.length) = gone := by
    rw [hgone, List.length_append, Nat.add_sub_cancel, List.take_left]
  subst hsource hhead htail horigin hrest
  unfold Query.splice
  simp only [hread, hremoved, List.append_assoc]

theorem untouched_prefix (offset : Nat) (ts : List Token) : untouched offset ts <+: ts :=
  (List.dropLast_prefix _).trans (List.takeWhile_prefix _)

/-- where reading stops, the old tokens that are kept stand for what is left of the new text -/
theorem exists_takeover {e : Edit} {s : Text} (k : e.Cut s) {front ms fresh ns : List Lexeme}
    {tail read kept : List Token} {previous : Option Role} (hold : lex s = front ++ ms)
    (hnew : lex k.result = front ++ (fresh ++ ns)) (htail : Lexed ms tail)
    (hend : ns = [] ∧ kept = [] ∨ e.keepable previous tail
      (byteLength ((front ++ fresh).flatMap Lexeme.text)) (lastRole previous read) = some kept) :
    ∃ gone removed back, tail = gone ++ kept ∧ ms = removed ++ back ∧ Lexed removed gone ∧
      Lexed back kept ∧ ns = back.map (fun l => l.shift e.delta) ∧
      (kept ≠ [] → lastRole previous gone = lastRole previous read) ∧
      e.stop ≤ byteLength ((front ++ fresh).flatMap Lexeme.text) := by
  rcases hend with ⟨hns, hkept⟩ | hkeep
  · refine ⟨tail, ms, [], ?_, ?_, htail, ?_, ?_, ?_, ?_⟩
    · rw [hkept, List.append_nil]
    · rw [List.append_nil]
    · rw [hkept]
      rfl
    · rw [hns]
      rfl
    · exact fun h => absurd hkept h
    · have hall := flatMap_text_lex k.result
      rw [hnew, hns, List.append_nil] at hall
      rw [hall, k.stop_eq_byteLength]
      unfold Edit.Cut.result
      rw [byteLength_append _ k.back]
      omega
  · obtain ⟨hstop, gone, t, us, htl, hkept, hstart, hrole⟩ := Edit.keepable_spec hkeep
    rw [htl] at htail
    obtain ⟨removed, back, hms, hgone, hback⟩ := htail.split
    refine ⟨gone, removed, back, htl, hms, hgone, hback, ?_, fun _ => hrole, hstop⟩
    -- the first token kept starts where its lexeme does
    cases back with
    | nil =>
      rw [hkept] at hback
      exact absurd hback (List.cons_ne_nil _ _)
    | cons b bs =>
      rw [hkept] at hback
      rw [hms, ← List.append_assoc] at hold
      rw [← List.append_assoc] at hnew
      have hb := (start_eq_of_lexFrom hold).1
      rw [← hback.cons_cons.2, hstart, Nat.zero_add] at hb
      have hdelta := k.delta_eq
      have hfront := k.stop_eq_byteLength
      rw [byteLength_append] at hfront
      refine lexFrom_behind_edit k hold hnew hstop ?_
      unfold shift at hb
      omega

/-- **Every edit that fits has its parts**, as soon as the tokens spell out the text. -/
theorem exists_splicing (reg : Registry) (q : Query) {e : Edit} (k : e.Cut q.source)
    (h : Lexed (lex q.source) q.tokens) : Nonempty (Splicing reg q k) := by
  obtain ⟨front, ms, ms', hold, hnew, hhead, hle, hms, hms'⟩ := exists_front k h
  generalize hu : untouched e.range.start q.tokens = head at hhead
  have htokens : q.tokens = head ++ q.tokens.drop head.length := by
    have hp := untouched_prefix e.range.start q.tokens
    rw [hu] at hp
    exact (List.prefix_iff_eq_append.mp hp).symm
  generalize htail : q.tokens.drop head.length = tail at htokens
  have htl : Lexed ms tail := by
    rw [hold, htokens] at h
    exact (h.of_append hhead.length_eq).2
  -- reading begins behind the front
  have horigin : (tail.head?.map (fun t => t.span.start)).getD 0
      = byteLength (front.flatMap Lexeme.text) := by
    refine origin_eq hold htl (fun h0 => ?_)
    have hm : ms = [] := htl.eq_nil_iff.mp h0
    have hs : q.source = [] := Decidable.byContradiction (fun hne => hms hne hm)
    rw [hm, List.append_nil, hs] at hold
    exact hold.symm.trans (lexFrom_nil 0)
  obtain ⟨rest, hrest, hlex⟩ := lexFrom_eq_append hnew
  rw [Nat.zero_add] at hlex
  have hdrop : k.result.dropBytes (byteLength (front.flatMap Lexeme.text)) = rest := by
    rw [hrest, dropBytes_byteLength_append]
  obtain ⟨fresh, ns, hfresh, hread, hend, hfirst⟩ :=
    reg.rescan_spec (e.keepable (lastRole none head) tail) (lastRole none head)
      (byteLength (front.flatMap Lexeme.text)) rest
  rw [← hlex] at hfresh
  generalize hr : reg.rescan (e.keepable (lastRole none head) tail) (lastRole none head)
    (byteLength (front.flatMap Lexeme.text)) rest = r at hread hend
  obtain ⟨read, kept⟩ := r
  simp only at hread hend
  have hfreshLexed : Lexed fresh read := hread ▸ reg.lexed_judgeAll _ fresh
  have hstop : (read.getLast?.map (fun t => t.span.stop)).getD
      (byteLength (front.flatMap Lexeme.text))
        = byteLength ((front ++ fresh).flatMap Lexeme.text) := by
    rw [stop_eq (hlex.symm.trans hfresh) hfreshLexed, List.flatMap_append, byteLength_append]
  rw [hfresh] at hnew
  have hpos : byteLength (front.flatMap Lexeme.text) + byteLength (fresh.flatMap Lexeme.text)
      = byteLength ((front ++ fresh).flatMap Lexeme.text) := by
    rw [List.flatMap_append, byteLength_append]
  rw [← hread, hpos] at hend
  obtain ⟨gone, removed, back, htl', hms0, hgone, hback, hns, hrole, hstop'⟩ :=
    exists_takeover k hold hnew htl (hend.imp id (fun h => h.2))
  have hsplice := splice_eq reg k.apply_eq hu htail horigin hdrop hr htl'
  rw [hstop, hread, reg.length_judgeAll] at hsplice
  refine ⟨head, gone, kept, front, removed, back, fresh, ?_, ?_, ?_, hhead, hgone, hback, ?_, ?_,
    ?_, hle, hstop', ?_, hu, fun as bs h has hbs => ?_⟩
  · rw [htokens, htl']
  · rw [hold, hms0]
  · rw [hnew, hns]
  · intro hne
    rw [lastRole_append, lastRole_append, ← hread]
    exact hrole hne
  · rw [hsplice]
  · rw [hsplice]
  · intro hne hf
    rcases hend with ⟨hn, -⟩ | ⟨hn, -⟩
    · exact hms' hne (by rw [hfresh, hf, hn]; rfl)
    · exact hn hf
  · rw [← htl', List.flatMap_append, byteLength_append]
    exact hfirst as bs h has hbs

end FilterQuery
