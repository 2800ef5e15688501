import FilterQuery.Proofs.Drafts
import FilterQuery.Proofs.Flawless
import FilterQuery.Proofs.Shapes

/-!
# Accepted suggestions

What becomes of a field token when one of the names suggested for it is put in its place.

* `Query.exists_lexeme`      a token is what judging its lexeme gives, behind the lexemes in front;
* `lex_exchange_word`        a word in the place of what begins as one leaves the lexemes in front
  alone and is read with all that follows up to the end of a word;
* `Query.exists_accept`      accepting replaces the text of the token;
* `Query.accept_completes`   the name is read as the field, unless the token was a quoted literal and
  the text goes on behind it as a word does.
-/

namespace FilterQuery
open Text

/-! ## tokens and lexemes by index -/

namespace Query
variable (reg : Registry) {s : Text}

/-- the token of a lexeme is what judging it gives, but for the verdict of a parenthesis -/
theorem getElem?_ofText {ls ms : List Lexeme} {l : Lexeme} (h : lex s = ls ++ l :: ms) :
    ∃ t, (ofText reg s).tokens[ls.length]? = some t ∧
      t.unsettled = reg.judge (reg.roleBehind ls) l := by
  have hreads := reads_ofText reg s
  rw [h, Registry.Reads, Registry.judgeAll_append] at hreads
  have hget := congrArg (fun ts => ts[ls.length]?) hreads
  rw [List.getElem?_map, List.getElem?_append_right (by rw [Registry.length_judgeAll]),
    Registry.length_judgeAll, Nat.sub_self] at hget
  exact Option.map_eq_some_iff.mp hget

variable {reg}

theorem exists_lexeme {i : Nat} {t : Token} (ht : (ofText reg s).tokens[i]? = some t) :
    ∃ ls l ms, lex s = ls ++ l :: ms ∧ ls.length = i ∧
      t.unsettled = reg.judge (reg.roleBehind ls) l := by
  obtain ⟨hi, -⟩ := List.getElem?_eq_some_iff.mp ht
  rw [(lexed_ofText reg s).length_eq] at hi
  have hlex : lex s = (lex s).take i ++ (lex s)[i] :: (lex s).drop (i + 1) := by
    rw [List.getElem_cons_drop, List.take_append_drop]
  have hlen : ((lex s).take i).length = i := List.length_take_of_le (Nat.le_of_lt hi)
  obtain ⟨u, hu, hjudge⟩ := getElem?_ofText reg hlex
  rw [hlen, ht] at hu
  obtain rfl := Option.some.inj hu
  exact ⟨_, _, _, hlex, hlen, hjudge⟩

end Query

theorem cut_at_lexeme {s front back : Text} {ls ms : List Lexeme} {l : Lexeme}
    (h : lex s = ls ++ l :: ms) (hs : s = front ++ l.text ++ back)
    (hstart : front.byteLength = l.span.start) :
    front = ls.flatMap Lexeme.text ∧ l.kind.Shape l.text ∧ l.kind.Ends l.text back.head? := by
  obtain ⟨r, hr, hrest⟩ := lexFrom_eq_append h
  obtain ⟨r', rfl, hshape, hends, -⟩ := shape_of_lexFrom hrest.symm
  have hlen : front.byteLength = byteLength (ls.flatMap Lexeme.text) := by
    rw [hstart, (start_eq_of_lexFrom h).1, Nat.zero_add]
  rw [hs, List.append_assoc] at hr
  obtain ⟨hfront, hback⟩ := append_inj_of_byteLength hr hlen
  obtain rfl := List.append_cancel_left hback
  exact ⟨hfront, hshape, hends⟩

/-! ## fields and operands -/

namespace Registry
variable {reg : Registry} {previous : Option Role} {l : Lexeme}

theorem judge_word_of_field (h : (reg.judge previous l).role = .field) {w : Lexeme}
    (hw : w.kind = .word) : reg.judge previous w = reg.judgeOperand previous w := by
  rw [reg.judge_of_due previous (by rw [hw]; decide) (by rw [hw]; decide) (by rw [hw]; decide),
    reg.due_of_role_judge previous h]

end Registry

/-- the token of a field at an offset -/
def Field.token (f : Field) (start : Nat) : Token :=
  ⟨.field, f.name, ⟨start, start + f.name.byteLength⟩, none, some (.known f.valueType)⟩

theorem Registry.judge_name {reg : Registry} {previous : Option Role} {l : Lexeme}
    (h : (reg.judge previous l).role = .field) {f : Field} (hf : f ∈ reg.fields) (start : Nat) :
    reg.judge previous ⟨.word, f.name, ⟨start, start + f.name.byteLength⟩⟩ = f.token start := by
  rw [judge_word_of_field h rfl, reg.judgeOperand_of_get? (reg.get?_of_mem hf)]
  rfl

/-! ## a name put in -/

/-- **A word in the place of a lexeme that begins as words do** leaves the lexemes in front alone,
and is read as one word with what follows up to the end of a word. -/
theorem lex_exchange_word {s : Text} {ls ms : List Lexeme} {l : Lexeme} (h : lex s = ls ++ l :: ms)
    (hhead : ∀ c ∈ l.text.head?, c ∉ wordEnds) {name : Text}
    (hname : Lexeme.Kind.word.Shape name) (back : Text) :
    lex (ls.flatMap Lexeme.text ++ (name ++ back)) =
      ls ++ ⟨.word, name ++ wordTail back,
        ⟨l.span.start, l.span.start + byteLength (name ++ wordTail back)⟩⟩ ::
          lexFrom (l.span.start + byteLength (name ++ wordTail back))
            (back.dropWhile (fun c => !endsWord c)) := by
  obtain ⟨hstart, -⟩ := start_eq_of_lexFrom h
  obtain ⟨r, hs, hr⟩ := lexFrom_eq_append h
  obtain ⟨r', hr', hshape, -⟩ := shape_of_lexFrom hr.symm
  obtain ⟨c, v, hv⟩ := List.exists_cons_of_ne_nil hshape.ne_nil
  obtain ⟨d, w, rfl⟩ := List.exists_cons_of_ne_nil hname.ne_nil
  have hc : c ∉ wordEnds := hhead c (by rw [hv]; rfl)
  have hd : d ∉ wordEnds := hname.2.2 d List.mem_cons_self
  -- what stands in front ended before a character of a word, and so it does before any other
  have hseam : ∀ m ∈ ls.getLast?, m.kind.Ends m.text (d :: w ++ back).head? := by
    intro m hm
    have hends := ends_of_getLast? h m hm
    rw [hv] at hends
    exact hends.exchange hc hd
  rw [hs] at h
  rw [← lexFrom_word_append l.span.start hname back, hstart]
  exact lexFrom_exchange h hseam

theorem lex_exchange_name {s : Text} {ls ms : List Lexeme} {l : Lexeme} (h : lex s = ls ++ l :: ms)
    {name : Text} (hname : Lexeme.Kind.word.Shape name) (hpart : l.text <:+: name) (back : Text) :
    lex (ls.flatMap Lexeme.text ++ (name ++ back)) =
      ls ++ ⟨.word, name ++ wordTail back,
        ⟨l.span.start, l.span.start + byteLength (name ++ wordTail back)⟩⟩ ::
          lexFrom (l.span.start + byteLength (name ++ wordTail back))
            (back.dropWhile (fun c => !endsWord c)) :=
  lex_exchange_word h (fun c hc => hname.2.2 c (hpart.subset (List.mem_of_mem_head? hc))) hname back

/-! ## accepting -/

namespace Query
variable {reg : Registry} {s : Text}

theorem suggestAt_eq_some_iff {q : Query} {caret i : Nat} {fs : List Field} :
    q.suggestAt reg caret = some (i, fs) ↔
      ∃ t, q.tokenAt caret = some (i, t) ∧ reg.suggest t = fs ∧ fs ≠ [] := by
  unfold suggestAt
  cases q.tokenAt caret with
  | none => simp
  | some r =>
    obtain ⟨j, t⟩ := r
    dsimp only
    cases hsuggest : reg.suggest t with
    | nil => simp [hsuggest]
    | cons f gs =>
      constructor
      · intro hsome
        cases hsome
        exact ⟨t, rfl, hsuggest, List.cons_ne_nil f gs⟩
      · rintro ⟨u, hu, rfl, -⟩
        cases hu
        rw [hsuggest]

theorem suggestAt_eq_some {q : Query} {caret i : Nat} {fs : List Field}
    (h : q.suggestAt reg caret = some (i, fs)) :
    ∃ t, q.tokens[i]? = some t ∧ Touches caret t ∧ fs = reg.suggest t := by
  obtain ⟨t, ht, rfl, -⟩ := suggestAt_eq_some_iff.mp h
  obtain ⟨hget, htouches⟩ := tokenAt_touches ht
  exact ⟨t, hget, htouches, rfl⟩

/-- **Accepting replaces the text of the token** and puts the caret behind the name. -/
theorem exists_accept {i : Nat} {t : Token} (ht : (ofText reg s).tokens[i]? = some t)
    (hr : t.role = .field) (f : Field) :
    ∃ (k : (⟨t.span, f.name⟩ : Edit).Cut s) (c : Change), k.removed = t.text ∧
      (ofText reg s).accept reg i f =
        .ok (t.span.start + f.name.byteLength, ofText reg k.result, c) := by
  obtain ⟨k, hk⟩ : ∃ k : (⟨t.span, f.name⟩ : Edit).Cut s, k.removed = t.text :=
    exists_cut_of_token (lexed_ofText reg s) ht f.name
  have hedit := edit_of_cut reg (ofText reg s) k
  refine ⟨k, ((ofText reg s).splice reg ⟨t.span, f.name⟩).2, hk, ?_⟩
  have hsplice : ((ofText reg s).splice reg ⟨t.span, f.name⟩).1 = ofText reg k.result :=
    splice_ofText reg k
  unfold accept
  rw [ht]
  simp only [if_pos hr, hedit]
  rw [← hsplice]

/-- **The name put in is read as the field** iff what follows it ends a word. -/
theorem getElem?_exchange_name {ls ms : List Lexeme} {l : Lexeme} (h : lex s = ls ++ l :: ms)
    (hr : (reg.judge (reg.roleBehind ls) l).role = .field) {f : Field} (hf : f ∈ reg.fields)
    (hpart : l.text <:+: f.name) (back : Text) :
    (ofText reg (ls.flatMap Lexeme.text ++ (f.name ++ back))).tokens[ls.length]?
      = some (f.token l.span.start) ↔ ∀ c ∈ back.head?, c ∈ wordEnds := by
  obtain ⟨u, hu, hjudge⟩ :=
    getElem?_ofText reg (lex_exchange_name h (isWord_iff.mp (reg.typeable f hf)) hpart back)
  rw [hu, ← wordTail_eq_nil_iff]
  constructor
  · intro he
    have htext := congrArg Token.text hjudge
    rw [Token.text_unsettled, Option.some.inj he, Registry.judge_text] at htext
    exact List.self_eq_append_right.mp htext
  · intro hmore
    rw [hmore, List.append_nil, Registry.judge_name hr hf] at hjudge
    have hrole : u.role = .field := by rw [← Token.role_unsettled, hjudge]; rfl
    rw [← Token.unsettled_of_not_paren (t := u) (by rw [hrole]; rfl), hjudge]

/-- **An accepted suggestion completes the field**: its name becomes the token, with the type of the
field and no fault.  Only a quoted literal may have text behind it that is read on with the name. -/
theorem accept_completes {caret i : Nat} {fs : List Field}
    (h : (ofText reg s).suggestAt reg caret = some (i, fs)) {f : Field} (hf : f ∈ fs) :
    ∃ t l front back q c, (ofText reg s).tokens[i]? = some t ∧ (lex s)[i]? = some l ∧
      s = front ++ t.text ++ back ∧ front.byteLength = t.span.start ∧
      (ofText reg s).accept reg i f = .ok (t.span.start + f.name.byteLength, q, c) ∧
      (q.tokens[i]? = some (f.token t.span.start) ↔
        (l.kind = .literal → ∀ a ∈ back.head?, endsWord a)) := by
  obtain ⟨t, ht, -, rfl⟩ := suggestAt_eq_some h
  obtain ⟨hr, hmem, hpart, -⟩ := Registry.mem_suggest.mp hf
  obtain ⟨ls, l, ms, hlex, rfl, hjudge⟩ := exists_lexeme ht
  rw [Token.unsettled_of_not_paren (by rw [hr]; rfl)] at hjudge
  have htext : t.text = l.text := by rw [hjudge, Registry.judge_text]
  have hspan : t.span = l.span := by rw [hjudge, Registry.judge_span]
  obtain ⟨k, c, hk, haccept⟩ := exists_accept ht hr f
  have hs : s = k.front ++ t.text ++ k.back := hk ▸ k.text_eq
  have hstart : byteLength k.front = t.span.start := k.start_eq
  obtain ⟨hfront, hshape, hends⟩ :=
    cut_at_lexeme hlex (htext ▸ hs) (hstart.trans (congrArg Span.start hspan))
  rw [htext] at hpart
  have hiff := getElem?_exchange_name hlex (hjudge ▸ hr) hmem hpart k.back
  rw [← List.append_assoc, ← hfront, ← congrArg Span.start hspan] at hiff
  refine ⟨t, l, k.front, k.back, _, c, ht, ?_, hs, hstart, haccept, hiff.trans ?_⟩
  · rw [hlex, List.getElem?_append_right (Nat.le_refl _), Nat.sub_self]
    rfl
  · simp only [endsWord_iff]
    refine ⟨fun hb _ => hb, fun hb => ?_⟩
    by_cases hliteral : l.kind = .literal
    · exact hb hliteral
    · have hname := isWord_iff.mp (reg.typeable f hmem)
      exact hends.mem_wordEnds_behind (hshape.of_infix_word hname hpart) hliteral

/-- the caret behind `dst`, in front of a blank -/
theorem accept_completes_dst :
    let s := "src_port=1 and dst >= 80".toList
    let f : Field := ⟨"dst_port".toList, .number, some "Destination port".toList⟩
    (ofText .builtin s).suggestAt .builtin 18 = some (6, Registry.builtin.fields.drop 2) ∧
      f ∈ Registry.builtin.fields.drop 2 ∧
      ∃ t l front back q c, (ofText .builtin s).tokens[6]? = some t ∧ (lex s)[6]? = some l ∧
        s = front ++ t.text ++ back ∧ byteLength front = t.span.start ∧
        (ofText .builtin s).accept .builtin 6 f = .ok (t.span.start + f.name.byteLength, q, c) ∧
        (q.tokens[6]? = some (f.token t.span.start) ↔
          (l.kind = .literal → ∀ a ∈ back.head?, endsWord a)) := by
  have h : (ofText .builtin "src_port=1 and dst >= 80".toList).suggestAt .builtin 18
      = some (6, Registry.builtin.fields.drop 2) := by decide +kernel
  exact ⟨h, by decide, accept_completes h (by decide)⟩

end Query

/-- the one field `a"b"`, a word with a quoted literal at its end -/
def Registry.endsQuoted : Registry where
  fields := [⟨"a\"b\"".toList, .string, none⟩]
  distinct := by decide
  typeable := by decide

/-- The literal `"b"` is completed to the name, but then the `x` behind it belongs to the word. -/
theorem Query.accept_swallows :
    let f : Field := ⟨"a\"b\"".toList, .string, none⟩
    let q := ofText .endsQuoted "\"b\"x".toList
    let q' := ofText .endsQuoted "a\"b\"x".toList
    q.suggestAt .endsQuoted 1 = some (0, [f]) ∧
      q.accept .endsQuoted 0 f = .ok (4, q', ⟨⟨0, 5⟩, 0, 1, false⟩) ∧
      q'.tokens = [⟨.field, "a\"b\"x".toList, ⟨0, 5⟩, some .unknownField, some .unknown⟩] := by
  decide +kernel

end FilterQuery
