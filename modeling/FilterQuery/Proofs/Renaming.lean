import FilterQuery.Proofs.Carets

/-!
# Fields renamed

A word that is a field may be exchanged for the name of any field: no other token notices.

* `lex_exchange_of_word`      a word in the place of a word takes nothing on and moves what follows;
* `Query.tokens_exchange`     where a lexeme comes in the place of one with the same role, no other
  token changes;
* `Query.Exchanged`           one token is another one now, and those behind it have moved;
* `Query.accept_exchanges`    so it is when any field is accepted for a word that is a field.
-/

namespace FilterQuery
open Text

/-! ## lexemes -/

/-- **A word in the place of a word** is a lexeme of its own, and moves the lexemes behind it. -/
theorem lex_exchange_of_word {s back : Text} {ls ms : List Lexeme} {l : Lexeme}
    (h : lex s = ls ++ l :: ms) (hs : s = ls.flatMap Lexeme.text ++ (l.text ++ back))
    (hword : l.kind = .word) {name : Text} (hname : Lexeme.Kind.word.Shape name) :
    lex (ls.flatMap Lexeme.text ++ (name ++ back)) =
      ls ++ ⟨.word, name, ⟨l.span.start, l.span.start + byteLength name⟩⟩ ::
        ms.map (fun m => m.shift ((byteLength name : Int) - byteLength l.text)) := by
  obtain ⟨r, hr, hrest⟩ := lexFrom_eq_append h
  obtain ⟨r', rfl, hshape, hends, hspan, hms⟩ := shape_of_lexFrom hrest.symm
  obtain rfl : back = r' := List.append_cancel_left (List.append_cancel_left (hs.symm.trans hr))
  rw [hword] at hshape hends
  -- what stands behind the old word ends the new one as well
  have htail : wordTail back = [] := (wordTail_eq_nil_iff back).mpr hends
  have hdrop : back.dropWhile (fun c => !endsWord c) = back := by
    have hsplit : wordTail back ++ back.dropWhile (fun c => !endsWord c) = back :=
      List.takeWhile_append_dropWhile
    rwa [htail, List.nil_append] at hsplit
  have hhead : ∀ c ∈ l.text.head?, c ∉ wordEnds :=
    fun c hc => hshape.2.2 c (List.mem_of_mem_head? hc)
  have hstart : l.span.start = 0 + byteLength (ls.flatMap Lexeme.text) := congrArg Span.start hspan
  have hmoved : l.span.start + byteLength name =
      shift (l.span.start + byteLength l.text) ((byteLength name : Int) - byteLength l.text) := by
    unfold shift
    omega
  rw [lex_exchange_word h hhead hname back, htail, List.append_nil, hdrop, hmoved,
    lexFrom_shift (by omega), hms, hstart]

/-! ## tokens -/

namespace Query

/-- **A lexeme in the place of one with the same role**, parentheses apart, changes no other token;
those behind move with their lexemes. -/
theorem tokens_exchange (reg : Registry) {s s' : Text} {ls ms : List Lexeme} {l w : Lexeme}
    {d : Int} (h : lex s = ls ++ l :: ms) (h' : lex s' = ls ++ w :: ms.map (fun m => m.shift d))
    (hrole : (reg.judge (reg.roleBehind ls) l).role = (reg.judge (reg.roleBehind ls) w).role)
    (hplain : (reg.judge (reg.roleBehind ls) w).role.isParen = false) :
    ∃ front t back, (ofText reg s).tokens = front ++ t :: back ∧ front.length = ls.length ∧
      (ofText reg s').tokens =
        front ++ reg.judge (reg.roleBehind ls) w :: back.map (fun t => t.shift d) := by
  have hlexed := lexed_ofText reg s
  have hreads := reads_ofText reg s
  rw [h] at hlexed hreads
  obtain ⟨front, rest, htokens, hlength⟩ := hlexed.exists_append
  rw [htokens] at hlexed hreads
  obtain ⟨t, back, rfl⟩ := List.exists_cons_of_ne_nil
    (mt (hlexed.of_append hlength).2.eq_nil_iff.mp (List.cons_ne_nil l ms))
  obtain ⟨hfront, hrest⟩ := hreads.of_append hlength
  have hlast : lastRole none front = reg.roleBehind ls := (hfront.lastRole_eq none).symm
  rw [hlast] at hrest
  obtain ⟨ht, hback⟩ := List.cons.inj hrest
  have htplain : t.role.isParen = false := by rw [← Token.role_unsettled, ht, hrole, hplain]
  have hsettled : Settled 0 (front ++ ([t] ++ back)) := htokens ▸ settled_balanced _
  -- behind the same role the lexemes are judged as before, and the parentheses are the same ones
  rw [hrole] at hback
  have hread : reg.Reads none (lex s')
      (front ++ ([reg.judge (reg.roleBehind ls) w] ++ back.map (fun t => t.shift d))) := by
    rw [h', ← hlast]
    rw [← hlast] at hback
    exact hfront.append ((Registry.Reads.of_judgeAll reg _ [w]).append
      (Registry.Reads.map_shift hback d))
  exact ⟨front, t, back, htokens, hlength, (hread.eq_ofText (hsettled.exchange d
    (List.forall_mem_singleton.mpr htplain) (List.forall_mem_singleton.mpr hplain))).symm⟩

/-- **One token exchanged.**  The token at `i` is `u` now; those in front of it are what they were,
and those behind it have moved by `d` bytes. -/
structure Exchanged (i : Nat) (u : Token) (d : Int) (old new : Query) : Prop where
  length_eq : new.tokens.length = old.tokens.length
  here : new.tokens[i]? = some u
  before : ∀ j < i, new.tokens[j]? = old.tokens[j]?
  behind : ∀ j t, i < j → old.tokens[j]? = some t →
    ∃ t', new.tokens[j]? = some t' ∧ t.Moved d false t'

theorem Exchanged.of_append {old new : Query} {front back : List Token} {t u : Token} {d : Int}
    (hold : old.tokens = front ++ t :: back)
    (hnew : new.tokens = front ++ u :: back.map (fun t => t.shift d))
    (hback : ∀ t ∈ back, 0 ≤ t.span.start + d ∧ t.span.start ≤ t.span.stop) :
    Exchanged front.length u d old new where
  length_eq := by
    rw [hold, hnew, List.length_append, List.length_append, List.length_cons, List.length_cons,
      List.length_map]
  here := by rw [hnew, getElem?_append_length]
  before j hj := by rw [hold, hnew, List.getElem?_append_left hj, List.getElem?_append_left hj]
  behind j v hj hv := by
    obtain ⟨k, rfl⟩ : ∃ k, j = front.length + (k + 1) := ⟨j - front.length - 1, by omega⟩
    rw [hold, List.getElem?_append_right (Nat.le_add_right _ _), Nat.add_sub_cancel_left,
      List.getElem?_cons_succ] at hv
    obtain ⟨hstart, hle⟩ := hback v (List.mem_of_getElem? hv)
    refine ⟨v.shift d, ?_, (Token.moved_of_unsettled_eq rfl (fun _ => rfl)).of_shift hstart hle⟩
    rw [hnew, List.getElem?_append_right (Nat.le_add_right _ _), Nat.add_sub_cancel_left,
      List.getElem?_cons_succ, List.getElem?_map, hv, Option.map_some]

/-! ## a name for another -/

/-- the name of a field in the place of a word that is judged a field -/
theorem exchanged_ofText {reg : Registry} {s back : Text} {ls ms : List Lexeme} {l : Lexeme}
    (h : lex s = ls ++ l :: ms) (hs : s = ls.flatMap Lexeme.text ++ (l.text ++ back))
    (hword : l.kind = .word) (hr : (reg.judge (reg.roleBehind ls) l).role = .field) {f : Field}
    (hf : f ∈ reg.fields) :
    Exchanged ls.length (f.token l.span.start) ((byteLength f.name : Int) - byteLength l.text)
      (ofText reg s) (ofText reg (ls.flatMap Lexeme.text ++ (f.name ++ back))) := by
  have h' := lex_exchange_of_word h hs hword (isWord_iff.mp (reg.typeable f hf))
  -- a field was due, so the name is judged that field
  have hname := Registry.judge_name hr hf l.span.start
  obtain ⟨front, t, behind, htokens, hlength, htokens'⟩ := tokens_exchange reg h h'
    (by rw [hr, hname]; rfl) (by rw [hname]; rfl)
  rw [hname] at htokens'
  have hlexed := lexed_ofText reg s
  have hapart := hlexed.pairwise_apart
  rw [htokens, List.pairwise_append, List.pairwise_cons] at hapart
  rw [h, htokens] at hlexed
  obtain ⟨-, hspan⟩ := (hlexed.of_append hlength).2.cons_cons
  have hstop := (start_eq_of_lexFrom h).2
  rw [← hlength]
  refine .of_append htokens htokens' (fun v hv => ?_)
  obtain ⟨hbehind, hle⟩ := hapart.2.1.1 v hv
  rw [hspan] at hbehind
  exact ⟨by omega, hle⟩

/-- **A word that is a field may be exchanged for any field.**  Accepting the field puts its token,
with its type and no fault, in the place of the old one, and the caret at its end; all other tokens
are what they were, verdicts of parentheses included, and those behind have moved. -/
theorem accept_exchanges {reg : Registry} {s : Text} {i : Nat} {t : Token} {l : Lexeme}
    (ht : (ofText reg s).tokens[i]? = some t) (hr : t.role = .field) (hl : (lex s)[i]? = some l)
    (hword : l.kind = .word) {f : Field} (hf : f ∈ reg.fields) :
    ∃ q caret c, (ofText reg s).accept reg i f = .ok (caret, q, c) ∧
      (ofText reg s).acceptInPlace reg i f = some (q, .ok (caret, c)) ∧
      caret = (f.token t.span.start).span.stop ∧
      q.tokenAt caret = some (i, f.token t.span.start) ∧
      Exchanged i (f.token t.span.start) ((byteLength f.name : Int) - byteLength t.text)
        (ofText reg s) q := by
  obtain ⟨ls, l', ms, hlex, rfl, hjudge⟩ := exists_lexeme ht
  obtain rfl : l' = l := by
    rw [hlex, getElem?_append_length] at hl
    exact Option.some.inj hl
  rw [Token.unsettled_of_not_paren (by rw [hr]; rfl)] at hjudge
  have htext : t.text = l'.text := by rw [hjudge, Registry.judge_text]
  have hspan : t.span = l'.span := by rw [hjudge, Registry.judge_span]
  obtain ⟨k, c, hk, haccept⟩ := exists_accept ht hr f
  have hs : s = k.front ++ t.text ++ k.back := hk ▸ k.text_eq
  have hstart : byteLength k.front = l'.span.start := k.start_eq.trans (congrArg Span.start hspan)
  obtain ⟨hfront, -⟩ := cut_at_lexeme hlex (htext ▸ hs) hstart
  rw [htext, hfront, List.append_assoc] at hs
  have hexchanged := exchanged_ofText hlex hs hword (hjudge ▸ hr) hf
  rw [← htext, ← hspan, ← hfront, ← List.append_assoc] at hexchanged
  -- the caret stands at the end of the new token
  have hhere := hexchanged.here
  have hlexed := lexed_ofText reg k.result
  refine ⟨_, _, c, haccept, ?_, rfl, ?_, hexchanged⟩
  · rw [acceptInPlace_eq reg (lexed_ofText reg s), haccept]
    rfl
  · rw [tokenAt_eq_some_iff hlexed]
    exact ⟨hhere, hlexed.start_lt_stop (List.mem_of_getElem? hhere), Nat.le_refl _⟩

/-- a word between a quoted literal and an operator, in parentheses -/
theorem accept_exchanges_touching :
    let s := "(src_ip=1 \"&\"né<=2) or (x".toList
    let t : Token := ⟨.field, "né".toList, ⟨13, 16⟩, some .unknownField, some .unknown⟩
    let f : Field := ⟨"dst_port".toList, .number, some "Destination port".toList⟩
    (ofText .builtin s).tokens[6]? = some t ∧ t.role = .field ∧
      (lex s)[6]? = some ⟨.word, "né".toList, ⟨13, 16⟩⟩ ∧ f ∈ Registry.builtin.fields ∧
      ∃ q caret c, (ofText .builtin s).accept .builtin 6 f = .ok (caret, q, c) ∧
        (ofText .builtin s).acceptInPlace .builtin 6 f = some (q, .ok (caret, c)) ∧
        caret = (f.token t.span.start).span.stop ∧
        q.tokenAt caret = some (6, f.token t.span.start) ∧
        Exchanged 6 (f.token t.span.start) ((byteLength f.name : Int) - byteLength t.text)
          (ofText .builtin s) q := by
  intro s t f
  have ht : (ofText .builtin s).tokens[6]? = some t := by decide +kernel
  have hl : (lex s)[6]? = some ⟨.word, "né".toList, ⟨13, 16⟩⟩ := by decide +kernel
  exact ⟨ht, rfl, hl, by decide, accept_exchanges ht rfl hl rfl (by decide)⟩

end Query

end FilterQuery
