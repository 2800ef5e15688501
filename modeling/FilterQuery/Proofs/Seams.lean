import FilterQuery.Proofs.Resumption

/-!
# Reading may begin at any seam

* `Text.IsSeam s n`        the offset `n` is between two lexemes of `s`, or at one of its ends;
* `lexOn?_append`          reading on from behind any front gives the lexemes of the rest, told by
  the rest alone;
* `Text.lexemesBehind`     the lexemes of a text that do not start in front of an offset;
* `Lexeme.Moved`, `moved_lexFrom`   the same lexeme at another place, and so the lexemes of one text
  behind two fronts;
* `lexOn?_seam`            so reading on from a seam gives what reading from the start gives there,
  and the text in front of it can be exchanged for any other with a seam there.
-/

namespace FilterQuery
open Text

/-! ## reading on from behind a front -/

/-- **Reading on does not look back.**  What is read from an offset on is read off the rest. -/
theorem lexOn?_append (a s : Text) :
    lexOn? (a ++ s) (byteLength a) = some (lexFrom (byteLength a) s) := by
  -- by induction on what is read; the text in front grows by a lexeme each time
  generalize ha : byteLength a = n
  fun_induction lexFrom n s generalizing a with
  | case1 n =>
    subst ha
    rw [List.append_nil, lexOn?, lexemeAt?_end]
  | case2 n c s m l ih =>
    have hlexeme : lexemeAt? (a ++ c :: s) n = some (some l) := by
      have hat := lexemeAt?_append a c s
      rwa [ha] at hat
    have hfront : byteLength (a ++ m.text) = l.span.stop := by
      rw [byteLength_append, ha]
      rfl
    have hrest := ih (a ++ m.text) hfront
    rw [List.append_assoc, munch_text_append_rest] at hrest
    rw [lexOn?, hlexeme]
    dsimp only
    rw [hrest, Option.map_some]

theorem lexOn?_zero (s : Text) : lexOn? s 0 = some (lex s) := lexOn?_append [] s

/-! ## seams -/

namespace Text

/-- the offset is between two lexemes, in front of the first one or behind the last one -/
def IsSeam (s : Text) (n : Nat) : Prop :=
  n = 0 ∨ n = s.byteLength ∨ ∃ l ∈ lex s, l.span.start = n ∨ l.span.stop = n

instance (s : Text) (n : Nat) : Decidable (s.IsSeam n) := inferInstanceAs (Decidable (_ ∨ _))

/-- **The lexemes of a text are divided at its seams.** -/
theorem isSeam_iff {s : Text} {n : Nat} :
    s.IsSeam n ↔ ∃ ls ms, lex s = ls ++ ms ∧ byteLength (ls.flatMap Lexeme.text) = n := by
  constructor
  · rintro (rfl | rfl | ⟨l, hl, hn⟩)
    · exact ⟨[], lex s, rfl, rfl⟩
    · exact ⟨lex s, [], (List.append_nil _).symm, congrArg byteLength (flatMap_text_lex s)⟩
    · obtain ⟨ls, ms, hlex⟩ := List.append_of_mem hl
      obtain ⟨hstart, hstop⟩ := start_eq_of_lexFrom hlex
      rw [Nat.zero_add] at hstart
      rcases hn with rfl | rfl
      · exact ⟨ls, l :: ms, hlex, hstart.symm⟩
      · refine ⟨ls ++ [l], ms, by rw [hlex, List.append_assoc]; rfl, ?_⟩
        rw [List.flatMap_append, byteLength_append, List.flatMap_singleton, ← hstart, hstop]
  · rintro ⟨ls, ms, hlex, rfl⟩
    cases ms with
    | nil =>
      have hall := flatMap_text_lex s
      rw [hlex, List.append_nil] at hall
      exact .inr (.inl (congrArg byteLength hall))
    | cons m ms =>
      have hstart := (start_eq_of_lexFrom hlex).1
      rw [Nat.zero_add] at hstart
      exact .inr (.inr ⟨m, hlex ▸ List.mem_append_right _ List.mem_cons_self, .inl hstart⟩)

/-- the lexemes of a text from an offset on -/
def lexemesBehind (s : Text) (n : Nat) : List Lexeme :=
  (lex s).filter (fun l => n ≤ l.span.start)

theorem lexemesBehind_eq {s : Text} {ls ms : List Lexeme} (h : lex s = ls ++ ms) :
    s.lexemesBehind (byteLength (ls.flatMap Lexeme.text)) = ms := by
  have hfront : ls.filter (fun l => byteLength (ls.flatMap Lexeme.text) ≤ l.span.start) = [] := by
    refine List.filter_eq_nil_iff.mpr (fun l hl hle => ?_)
    have hlt := (Lexeme.standsIn_of_mem_lex (h ▸ List.mem_append_left _ hl)).start_lt_stop
    have hstop := stop_le_of_mem_front h hl
    have hle := of_decide_eq_true hle
    omega
  have hback : ms.filter (fun l => byteLength (ls.flatMap Lexeme.text) ≤ l.span.start) = ms :=
    List.filter_eq_self.mpr (fun l hl => decide_eq_true (le_start_of_mem_back h hl))
  unfold lexemesBehind
  rw [h, List.filter_append, hfront, hback, List.nil_append]

theorem lexemesBehind_append {a s : Text} (h : (a ++ s).IsSeam (byteLength a)) :
    (a ++ s).lexemesBehind (byteLength a) = lexFrom (byteLength a) s := by
  obtain ⟨ls, ms, hlex, hplace⟩ := isSeam_iff.mp h
  obtain ⟨rest, hrest, hms⟩ := lexFrom_eq_append hlex
  obtain ⟨-, rfl⟩ := append_inj_of_byteLength hrest hplace.symm
  rw [← hplace, lexemesBehind_eq hlex, hms, Nat.zero_add]

end Text

/-! ## the same text behind two fronts -/

/-- the same lexeme further right, or left if `d` is negative; neither of its ends is cut off -/
structure Lexeme.Moved (d : Int) (l m : Lexeme) : Prop where
  kind_eq : m.kind = l.kind
  text_eq : m.text = l.text
  start_eq : (m.span.start : Int) = l.span.start + d
  stop_eq : (m.span.stop : Int) = l.span.stop + d

theorem moved_lexFrom (n m : Nat) (s : Text) :
    List.Forall₂ (Lexeme.Moved ((m : Int) - n)) (lexFrom n s) (lexFrom m s) := by
  fun_induction lexFrom n s generalizing m with
  | case1 n =>
    rw [lexFrom_nil]
    exact .nil
  | case2 n c s k l ih =>
    have htail := ih (m + byteLength k.text)
    have hdistance : ((m + byteLength k.text : Nat) : Int) - l.span.stop = (m : Int) - n := by
      show ((m + byteLength k.text : Nat) : Int) - (n + byteLength k.text : Nat) = _
      omega
    rw [hdistance] at htail
    rw [lexFrom_cons]
    refine .cons ⟨rfl, rfl, ?_, ?_⟩ htail
    · show (m : Int) = n + _
      omega
    · show ((m + byteLength k.text : Nat) : Int) = (n + byteLength k.text : Nat) + _
      omega

/-- **Reading may begin at any seam.**  From there on it gives the lexemes that reading from the
start gives.  They do not depend on what stands in front: behind any other text that has a seam in
front of the same rest, the same lexemes stand, moved by the difference in length. -/
theorem lexOn?_seam {a b s : Text} (ha : (a ++ s).IsSeam (byteLength a))
    (hb : (b ++ s).IsSeam (byteLength b)) :
    lexOn? (a ++ s) (byteLength a) = some ((a ++ s).lexemesBehind (byteLength a)) ∧
      List.Forall₂ (Lexeme.Moved ((byteLength b : Int) - byteLength a))
        ((a ++ s).lexemesBehind (byteLength a)) ((b ++ s).lexemesBehind (byteLength b)) := by
  rw [lexemesBehind_append ha, lexemesBehind_append hb]
  exact ⟨lexOn?_append a s, moved_lexFrom _ _ s⟩

/-- a literal stands behind an operator, and behind another literal -/
theorem lexOn?_seam_literal :
    IsSeam ("é<=".toList ++ "\"a b\" or".toList) (byteLength "é<=".toList) ∧
      IsSeam ("\"=\"".toList ++ "\"a b\" or".toList) (byteLength "\"=\"".toList) ∧
      lexOn? ("é<=".toList ++ "\"a b\" or".toList) (byteLength "é<=".toList) =
        some (lexemesBehind ("é<=".toList ++ "\"a b\" or".toList) (byteLength "é<=".toList)) ∧
      List.Forall₂ (Lexeme.Moved ((byteLength "\"=\"".toList : Int) - byteLength "é<=".toList))
        (lexemesBehind ("é<=".toList ++ "\"a b\" or".toList) (byteLength "é<=".toList))
        (lexemesBehind ("\"=\"".toList ++ "\"a b\" or".toList) (byteLength "\"=\"".toList)) :=
  have ha : IsSeam ("é<=".toList ++ "\"a b\" or".toList) (byteLength "é<=".toList) := by
    decide +kernel
  have hb : IsSeam ("\"=\"".toList ++ "\"a b\" or".toList) (byteLength "\"=\"".toList) := by
    decide +kernel
  ⟨ha, hb, lexOn?_seam ha hb⟩

/-- inside an operator, reading on gives lexemes that the text does not have -/
example : ¬ IsSeam "a<=1".toList 2 ∧
    (lexOn? "a<=1".toList 2).map (List.map Lexeme.text) = some ["=".toList, "1".toList] := by
  decide +kernel

end FilterQuery
