import FilterQuery.Proofs.Judgement

/-!
# What a token knows of the others

A token is judged behind one role, and settled between two numbers of parentheses.  Of the tokens
around it nothing else matters, and these three are known from their roles.

* `role_judge_of_due`     all lexemes but blanks, parentheses and `not` take the role that is due;
* `openBehind n ts`       the number of open parentheses behind `ts`, if `n` are open in front;
* `Surroundings`, `surroundings ts i`   what the token at the index `i` knows of the others; lists with
  the same roles have the same surroundings (`surroundings_congr`);
* `Registry.tokenIn a l`  the token of a lexeme in its surroundings;
* `Query.getElem?_tokens` every token of a text is the one of its lexeme in its surroundings.
-/

namespace FilterQuery

/-! ## roles -/

namespace Registry
variable (reg : Registry) (previous : Option Role)

/-- an operand is a field, unless it is a `not` that no field is named after and that opens a clause -/
theorem role_judgeOperand (l : Lexeme) :
    (reg.judgeOperand previous l).role =
      if reg.get? l.text = none ∧ l.text = "not".toList ∧ previous ≠ some .keyword then .keyword
      else .field := by
  unfold judgeOperand
  cases hg : reg.get? l.text with
  | some f => exact (if_neg (fun h => Option.some_ne_none f h.1)).symm
  | none =>
    by_cases hnot : l.text = "not".toList ∧ previous ≠ some .keyword
    · simp only [if_pos hnot, true_and]
      rfl
    · simp only [if_neg hnot, true_and]
      rfl

/-- **A lexeme takes the role that is due**, whether it fits or not. -/
theorem role_judge_of_due {l : Lexeme} (hblank : l.kind ≠ .blank) (hopen : l.kind ≠ .openParen)
    (hclose : l.kind ≠ .closeParen) (hnot : l.text ≠ "not".toList) :
    (reg.judge previous l).role = due previous := by
  have hoperand : (reg.judgeOperand previous l).role = .field := by
    rw [role_judgeOperand, if_neg (fun h => hnot h.2.1)]
  rw [reg.judge_of_due previous hblank hopen hclose]
  cases previous with
  | none => exact hoperand
  | some r =>
    cases r with
    | openParen | keyword | blank => exact hoperand
    | closeParen | field | condition | value => rfl

end Registry

/-! ## parentheses -/

/-- the number of open parentheses behind a list, if `opened` are open in front of it -/
def openBehind (opened : Nat) (ts : List Token) : Nat :=
  ts.foldl (fun n t => openAfter n t.role) opened

theorem openBehind_congr {ts us : List Token} (h : ts.map Token.role = us.map Token.role)
    (opened : Nat) : openBehind opened ts = openBehind opened us := by
  have hfold : ∀ vs : List Token, openBehind opened vs = (vs.map Token.role).foldl openAfter opened :=
    fun vs => List.foldl_map.symm
  rw [hfold, hfold, h]

/-! ## tokens by their index -/

theorem getElem?_append_length {α : Type} (xs : List α) (x : α) (ys : List α) :
    (xs ++ x :: ys)[xs.length]? = some x := by
  rw [List.getElem?_append_right (Nat.le_refl _), Nat.sub_self, List.getElem?_cons_zero]

/-- what a token knows of the others -/
structure Surroundings where
  /-- the last role in front of it, blanks left out -/
  previous : Option Role
  /-- how many parentheses are open in front of it -/
  opened : Nat
  /-- how many closing ones behind it have no partner there -/
  closed : Nat
deriving DecidableEq, Repr

def surroundings (ts : List Token) (i : Nat) : Surroundings where
  previous := lastRole none (ts.take i)
  opened := openBehind 0 (ts.take i)
  closed := closing (ts.drop (i + 1))

theorem surroundings_congr {ts us : List Token} (h : ts.map Token.role = us.map Token.role)
    (i : Nat) : surroundings ts i = surroundings us i := by
  have htake : (ts.take i).map Token.role = (us.take i).map Token.role := by
    rw [List.map_take, List.map_take, h]
  have hdrop : (ts.drop (i + 1)).map Token.role = (us.drop (i + 1)).map Token.role := by
    rw [List.map_drop, List.map_drop, h]
  unfold surroundings
  rw [lastRole_congr htake, openBehind_congr htake, closing_congr hdrop]

theorem getElem?_settle (opened : Nat) (ts : List Token) (i : Nat) :
    (settle opened ts).1[i]? =
      ts[i]?.map (Token.settled (openBehind opened (ts.take i)) (closing (ts.drop (i + 1)))) := by
  induction ts generalizing opened i with
  | nil => rfl
  | cons t ts ih =>
    rw [fst_settle_cons]
    cases i with
    | zero => rfl
    | succ i => exact ih (openAfter opened t.role) i

namespace Registry
variable (reg : Registry)

/-- the token of a lexeme in its surroundings -/
def tokenIn (a : Surroundings) (l : Lexeme) : Token :=
  (reg.judge a.previous l).settled a.opened a.closed

theorem getElem?_judgeAll (previous : Option Role) (ls : List Lexeme) (i : Nat) :
    (reg.judgeAll previous ls)[i]? =
      ls[i]?.map (reg.judge (lastRole previous ((reg.judgeAll previous ls).take i))) := by
  induction ls generalizing previous i with
  | nil => rfl
  | cons l ls ih =>
    cases i with
    | zero => rfl
    | succ i => exact ih (after previous (reg.judge previous l).role) i

end Registry

theorem Query.map_role_ofText (reg : Registry) (s : Text) :
    (ofText reg s).tokens.map Token.role = (reg.judgeAll none (lex s)).map Token.role :=
  map_settle Token.role (fun _ _ => rfl) 0 _

/-- **A token of a text** is the one of its lexeme in the surroundings that the tokens of the text
are for it. -/
theorem Query.getElem?_tokens (reg : Registry) (s : Text) (i : Nat) :
    (ofText reg s).tokens[i]? =
      (lex s)[i]?.map (reg.tokenIn (surroundings (ofText reg s).tokens i)) := by
  rw [surroundings_congr (map_role_ofText reg s) i]
  have hsettle := getElem?_settle 0 (reg.judgeAll none (lex s)) i
  rw [reg.getElem?_judgeAll none (lex s) i, Option.map_map] at hsettle
  exact hsettle

end FilterQuery
