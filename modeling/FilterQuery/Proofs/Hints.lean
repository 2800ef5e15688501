import FilterQuery.Proofs.Renaming
import FilterQuery.Proofs.Replies

/-!
# Hints

A hint is what is missing of the only name that the field at the end of a line may become.

* `Query.hint_end`             a hint says how the only name suggested for the last token goes on;
* `Query.caret_eq_of_hint`     it is given at the end of a text and nowhere else;
* `Query.tokens_append_tail`   with the hint written out, that token is the field;
* `Prompt.hint_finishes`       so an accepted hint finishes the field, and nothing more is offered;
* `Registry.extensions`        the fields that go on with a text, whoever else contains it;
* `Prompt.hint_iff_extension`  there is a hint iff there is one such field, and every other field that
  contains the text begins with it as well;
* `Prompt.hint_withheld`       a field that merely contains the text keeps the hint back.
-/

namespace FilterQuery
open Text

/-! ## the end of a text -/

theorem eq_append_last {s : Text} {ls : List Lexeme} {l : Lexeme} (h : lex s = ls ++ [l]) :
    s = ls.flatMap Lexeme.text ++ l.text ∧ l.kind.Shape l.text ∧
      l.span = ⟨byteLength (ls.flatMap Lexeme.text), byteLength s⟩ := by
  have hs := flatMap_text_lex s
  rw [h, List.flatMap_append, List.flatMap_singleton] at hs
  obtain ⟨r, -, hr⟩ := lexFrom_eq_append h
  obtain ⟨-, -, hshape, -, hspan, -⟩ := shape_of_lexFrom hr.symm
  refine ⟨hs.symm, hshape, ?_⟩
  rw [hspan, ← hs, byteLength_append, Nat.zero_add]

namespace Query
variable {reg : Registry} {s : Text} {front : List Token} {t : Token}

theorem exists_last_lexeme (h : (ofText reg s).tokens = front ++ [t]) :
    ∃ ls l, lex s = ls ++ [l] ∧ Lexed ls front ∧ t.text = l.text ∧ t.span = l.span := by
  have hlexed := lexed_ofText reg s
  rw [h] at hlexed
  obtain ⟨ls, ms, hlex, hfront, hlast⟩ := hlexed.split
  obtain ⟨l, rfl⟩ := List.length_eq_one_iff.mp hlast.length_eq.symm
  exact ⟨ls, l, hlex, hfront, hlast.cons_cons⟩

theorem tokenAt_end (h : (ofText reg s).tokens = front ++ [t]) :
    (ofText reg s).tokenAt (byteLength s) = some (front.length, t) := by
  obtain ⟨ls, l, hlex, -, -, hspan⟩ := exists_last_lexeme h
  obtain ⟨-, -, hl⟩ := eq_append_last hlex
  have hstop : t.span.stop = byteLength s := by rw [hspan, hl]
  have hlt := (lexed_ofText reg s).start_lt_stop (t := t) (by rw [h]; simp)
  rw [tokenAt_eq_some_iff (lexed_ofText reg s), h, getElem?_append_length]
  exact ⟨rfl, hstop ▸ hlt, Nat.le_of_eq hstop.symm⟩

/-- **At the end of a text** the last token is the one that is completed. -/
theorem suggestAt_end (h : (ofText reg s).tokens = front ++ [t]) :
    (ofText reg s).suggestAt reg (byteLength s) =
      if reg.suggest t = [] then none else some (front.length, reg.suggest t) := by
  unfold suggestAt
  rw [tokenAt_end h]
  cases hsuggest : reg.suggest t with
  | nil => simp [hsuggest]
  | cons f fs => simp [hsuggest]

theorem completions_end (h : (ofText reg s).tokens = front ++ [t]) (hne : reg.suggest t ≠ []) :
    (ofText reg s).completions reg (byteLength s) =
      (t.span.start, (reg.suggest t).map Candidate.ofField) := by
  unfold completions
  rw [suggestAt_end h, if_neg hne, h]
  simp

theorem completions_end_of_nil (h : (ofText reg s).tokens = front ++ [t])
    (hnil : reg.suggest t = []) :
    (ofText reg s).completions reg (byteLength s) = (byteLength s, []) := by
  unfold completions
  rw [suggestAt_end h, if_pos hnil]

/-- **There is a hint at the end of a text** iff one name alone is suggested for its last token, and
that name goes on with the token. -/
theorem hint_end (h : (ofText reg s).tokens = front ++ [t]) {tail : Text} :
    (ofText reg s).hint reg (byteLength s) = some tail ↔
      (reg.suggest t).map Field.name = [t.text ++ tail] := by
  have hend : ¬ byteLength s < (ofText reg s).source.byteLength := Nat.lt_irrefl (byteLength s)
  unfold hint
  rw [if_neg hend, suggestAt_end h, h]
  rcases reg.suggest t with _ | ⟨f, _ | ⟨g, fs⟩⟩
  · simp
  · simp [after?_eq_some_iff]
  · simp

theorem caret_eq_of_hint {caret : Nat} {tail : Text}
    (h : (ofText reg s).hint reg caret = some tail) : caret = byteLength s := by
  unfold hint at h
  split at h
  · exact absurd h (by simp)
  · next hlt =>
    split at h
    · next i f hsuggest =>
      obtain ⟨u, hu, htouches, -⟩ := suggestAt_eq_some hsuggest
      obtain ⟨m, hm, hspan⟩ := (lexed_ofText reg s).exists_span (List.mem_of_getElem? hu)
      have hstop := stop_le_of_mem_front (List.append_nil (lex s)).symm hm
      rw [flatMap_text_lex, hspan] at hstop
      exact Nat.le_antisymm (htouches.2.trans hstop) (Nat.le_of_not_lt hlt)
    · exact absurd h (by simp)

theorem exists_last_of_hint {tail : Text}
    (h : (ofText reg s).hint reg (byteLength s) = some tail) :
    ∃ front t, (ofText reg s).tokens = front ++ [t] := by
  rcases List.eq_nil_or_concat (ofText reg s).tokens with hnil | ⟨front, t, hlast⟩
  · unfold hint suggestAt tokenAt at h
    simp [hnil] at h
  · exact ⟨front, t, hlast.trans List.concat_eq_append⟩

end Query

/-! ## the hint written out -/

/-- with more characters of a name behind it, the last lexeme is the word that they make together -/
theorem lex_append_tail {s tail : Text} {ls : List Lexeme} {l : Lexeme} (h : lex s = ls ++ [l])
    (hname : Lexeme.Kind.word.Shape (l.text ++ tail)) :
    lex (s ++ tail) = ls ++ [⟨.word, l.text ++ tail,
      ⟨l.span.start, l.span.start + byteLength (l.text ++ tail)⟩⟩] := by
  obtain ⟨hs, -, -⟩ := eq_append_last h
  have hnew := lex_exchange_name h hname (List.prefix_append _ _).isInfix []
  simp only [wordTail, List.takeWhile_nil, List.dropWhile_nil, lexFrom_nil, List.append_nil] at hnew
  rwa [← List.append_assoc, ← hs] at hnew

namespace Query
variable {reg : Registry} {s : Text} {front : List Token} {t : Token}

/-- **With the rest of its name behind it, the last token is the field**, and the tokens in front of
it are what they were. -/
theorem tokens_append_tail (h : (ofText reg s).tokens = front ++ [t]) (hr : t.role = .field)
    {f : Field} (hf : f ∈ reg.fields) {tail : Text} (hname : f.name = t.text ++ tail) :
    (ofText reg (s ++ tail)).tokens = front ++ [f.token t.span.start] := by
  obtain ⟨ls, l, hlex, hfront, htext, hspan⟩ := exists_last_lexeme h
  obtain ⟨u, hu, hjudge⟩ := getElem?_ofText reg hlex
  obtain rfl : t = u := by
    rw [h, ← hfront.length_eq, getElem?_append_length] at hu
    exact Option.some.inj hu
  rw [Token.unsettled_of_not_paren (by rw [hr]; rfl)] at hjudge
  have hshape := isWord_iff.mp (reg.typeable f hf)
  rw [hname, htext] at hshape
  have hlex' := lex_append_tail hlex hshape
  rw [← htext, ← hname, ← hspan] at hlex'
  -- a field is due, and the word is the name of one
  have hfield := Registry.judge_name (hjudge ▸ hr) hf t.span.start
  obtain ⟨front', u, back, htokens, hlength, htokens'⟩ := tokens_exchange reg (d := 0) hlex hlex'
    (by rw [← hjudge, hr, hfield]; rfl) (by rw [hfield]; rfl)
  obtain ⟨rfl, hlast⟩ :=
    List.append_inj (h.symm.trans htokens) (hfront.length_eq.trans hlength.symm)
  obtain ⟨-, rfl⟩ := List.cons.inj hlast
  rw [htokens', hfield]
  rfl

end Query

theorem Registry.suggest_token {reg : Registry} {t : Token} {f : Field} (h : reg.suggest t = [f])
    (start : Nat) : reg.suggest (f.token start) = [] := by
  obtain ⟨hr, -, hpart, hlonger⟩ := mem_suggest.mp (h ▸ List.mem_singleton_self f)
  refine List.eq_nil_iff_forall_not_mem.mpr (fun g hg => ?_)
  obtain ⟨-, hmem, hcontains, hshorter⟩ := mem_suggest.mp hg
  have hsuggested : g ∈ reg.suggest t :=
    mem_suggest.mpr ⟨hr, hmem, hpart.trans hcontains, hlonger.trans hshorter⟩
  rw [h] at hsuggested
  obtain rfl := List.mem_singleton.mp hsuggested
  exact Nat.lt_irrefl _ hshorter

/-- **An accepted hint finishes the field.**  A hint is given at the end of the line, is what is
missing of the one name offered for the last token, and once it is written out that token is the
field, all others are what they were, and nothing more is hinted at or offered. -/
theorem Prompt.hint_finishes (reg : Registry) (calls : List Call) {line : Text} {caret : Nat}
    {tail : Text} (h : (((new reg).run calls).1.hint line caret).2 = some tail) :
    caret = byteLength line ∧ tail ≠ [] ∧
      ∃ (front : List Token) (t : Token) (f : Field),
        (Query.ofText reg line).tokens = front ++ [t] ∧ f ∈ reg.fields ∧ f.name = t.text ++ tail ∧
        (Query.ofText reg (line ++ tail)).tokens = front ++ [f.token t.span.start] ∧
        ∀ later : List Call,
          let p := ((new reg).run later).1
          (p.complete line caret).2 = (t.span.start, [.ofField f]) ∧
            (p.hint (line ++ tail) (byteLength (line ++ tail))).2 = none ∧
            (p.complete (line ++ tail) (byteLength (line ++ tail))).2.2 = [] := by
  rw [((Serves.new reg).run calls).hint_eq] at h
  obtain rfl := Query.caret_eq_of_hint h
  obtain ⟨front, t, hlast⟩ := Query.exists_last_of_hint h
  obtain ⟨f, hsuggest, hname⟩ := List.map_eq_singleton_iff.mp ((Query.hint_end hlast).mp h)
  obtain ⟨hr, hmem, -, hlonger⟩ := Registry.mem_suggest.mp (hsuggest ▸ List.mem_singleton_self f)
  have hne : tail ≠ [] := by
    rintro rfl
    rw [hname, List.append_nil] at hlonger
    exact Nat.lt_irrefl _ hlonger
  have hnew := Query.tokens_append_tail hlast hr hmem hname
  have hnil := Registry.suggest_token hsuggest t.span.start
  refine ⟨rfl, hne, front, t, f, hlast, hmem, hname, hnew, fun later => ?_⟩
  have hserves := (Serves.new reg).run later
  refine ⟨?_, ?_, ?_⟩
  · rw [hserves.complete_eq, Query.completions_end hlast (by simp [hsuggest]), hsuggest]
    rfl
  · rw [hserves.hint_eq]
    refine Option.eq_none_iff_forall_ne_some.mpr (fun more hmore => ?_)
    rw [Query.hint_end hnew, hnil] at hmore
    exact absurd hmore (by simp)
  · rw [hserves.complete_eq, Query.completions_end_of_nil hnew hnil]

/-- `dst_p` behind a clause, after other lines -/
theorem Prompt.hint_finishes_dst_p :
    let line : Text := "src_port=1 and dst_p".toList
    let calls : List Call := [.complete "src".toList 3, .hint "dst".toList 3]
    (((new .builtin).run calls).1.hint line 20).2 = some "ort".toList ∧
      20 = byteLength line ∧ "ort".toList ≠ [] ∧
      ∃ (front : List Token) (t : Token) (f : Field),
        (Query.ofText .builtin line).tokens = front ++ [t] ∧ f ∈ Registry.builtin.fields ∧
        f.name = t.text ++ "ort".toList ∧
        (Query.ofText .builtin (line ++ "ort".toList)).tokens = front ++ [f.token t.span.start] ∧
        ∀ later : List Call,
          let p := ((new .builtin).run later).1
          (p.complete line 20).2 = (t.span.start, [.ofField f]) ∧
            (p.hint (line ++ "ort".toList) (byteLength (line ++ "ort".toList))).2 = none ∧
            (p.complete (line ++ "ort".toList) (byteLength (line ++ "ort".toList))).2.2 = [] := by
  intro line calls
  have h : (((new .builtin).run calls).1.hint line 20).2 = some "ort".toList := by decide +kernel
  exact ⟨h, hint_finishes .builtin calls h⟩

/-! ## names that go on with a text -/

/-- the fields with a longer name that begins with the text -/
def Registry.extensions (reg : Registry) (text : Text) : List Field :=
  (reg.startingWith text).filter (fun f => text.byteLength < f.name.byteLength)

/-- they are the suggestions that begin with the text -/
theorem Registry.extensions_eq_filter (reg : Registry) {t : Token} (hr : t.role = .field) :
    reg.extensions t.text = (reg.suggest t).filter (fun f => t.text.isPrefixOf f.name) := by
  unfold extensions startingWith suggest containing
  rw [if_pos hr, List.filter_filter, List.filter_filter, List.filter_filter]
  refine List.filter_congr (fun f _ => ?_)
  by_cases hp : t.text.isPrefixOf f.name
  · have hpart : t.text.occursIn f.name :=
      occursIn_iff.mpr (List.isPrefixOf_iff_prefix.mp hp).isInfix
    rw [hp, hpart, Bool.and_true, Bool.true_and, Bool.and_true]
  · simp [hp]

theorem Registry.extensions_eq_suggest {reg : Registry} {t : Token} (hr : t.role = .field)
    (h : ∀ f ∈ reg.suggest t, t.text <+: f.name) : reg.extensions t.text = reg.suggest t := by
  rw [reg.extensions_eq_filter hr]
  exact List.filter_eq_self.mpr (fun f hf => List.isPrefixOf_iff_prefix.mpr (h f hf))

theorem Registry.suggested_or_eq {reg : Registry} {t : Token} (hr : t.role = .field) {f : Field}
    (hf : f ∈ reg.fields) (hpart : t.text <:+: f.name) : f ∈ reg.suggest t ∨ f.name = t.text := by
  by_cases heq : f.name = t.text
  · exact .inr heq
  · exact .inl (mem_suggest_iff.mpr ⟨hr, hf, heq, hpart⟩)

/-- **There is a hint** iff one field alone goes on with the last token, a field, and every field that
contains it begins with it; the hint is what is missing of the one. -/
theorem Prompt.hint_iff_extension (reg : Registry) (calls : List Call) {line tail : Text} {t : Token}
    (ht : (Query.ofText reg line).tokens.getLast? = some t) (hr : t.role = .field) :
    (((new reg).run calls).1.hint line (byteLength line)).2 = some tail ↔
      (reg.extensions t.text).map Field.name = [t.text ++ tail] ∧
        ∀ f ∈ reg.fields, t.text <:+: f.name → t.text <+: f.name := by
  obtain ⟨front, hlast⟩ := List.getLast?_eq_some_iff.mp ht
  rw [((Serves.new reg).run calls).hint_eq, Query.hint_end hlast]
  constructor
  · intro h
    obtain ⟨f, hsuggest, hname⟩ := List.map_eq_singleton_iff.mp h
    have hbegins : ∀ g ∈ reg.suggest t, t.text <+: g.name := by
      rw [hsuggest]
      exact List.forall_mem_singleton.mpr ⟨tail, hname.symm⟩
    refine ⟨by rwa [Registry.extensions_eq_suggest hr hbegins], fun g hg hpart => ?_⟩
    rcases Registry.suggested_or_eq hr hg hpart with hsuggested | heq
    · exact hbegins g hsuggested
    · rw [heq]
  · rintro ⟨h, hall⟩
    have hbegins : ∀ g ∈ reg.suggest t, t.text <+: g.name := by
      intro g hg
      obtain ⟨-, hmem, hpart, -⟩ := Registry.mem_suggest.mp hg
      exact hall g hmem hpart
    rwa [Registry.extensions_eq_suggest hr hbegins] at h

/-- only `src_port` goes on with `src_p`, and no other field contains it -/
theorem Prompt.hint_iff_extension_src_p :
    let line : Text := "not src_p".toList
    let t : Token := ⟨.field, "src_p".toList, ⟨4, 9⟩, some .unknownField, some .unknown⟩
    (Query.ofText .builtin line).tokens.getLast? = some t ∧ t.role = .field ∧
      ((((new .builtin).run []).1.hint line (byteLength line)).2 = some "ort".toList ↔
        (Registry.builtin.extensions t.text).map Field.name = [t.text ++ "ort".toList] ∧
          ∀ f ∈ Registry.builtin.fields, t.text <:+: f.name → t.text <+: f.name) := by
  intro line t
  have ht : (Query.ofText .builtin line).tokens.getLast? = some t := by decide +kernel
  exact ⟨ht, rfl, hint_iff_extension .builtin [] ht rfl⟩

/-- the fields `port` and `src_port`, one in the other -/
def Registry.ports : Registry where
  fields := [⟨"port".toList, .number, none⟩, ⟨"src_port".toList, .number, none⟩]
  distinct := by decide
  typeable := by decide

/-- Only `port` goes on with `por`, but `src_port` contains it, and so the hint is kept back. -/
theorem Prompt.hint_withheld :
    (Query.ofText .ports "por".toList).tokens =
        [⟨.field, "por".toList, ⟨0, 3⟩, some .unknownField, some .unknown⟩] ∧
      (Registry.ports.extensions "por".toList).map Field.name = ["port".toList] ∧
      (((new .ports).run []).1.hint "por".toList 3).2 = none := by
  decide +kernel

end FilterQuery
