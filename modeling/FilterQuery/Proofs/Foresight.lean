import FilterQuery.Proofs.Surroundings
import FilterQuery.Proofs.Takeover

/-!
# What a text tells before it is finished

What ends in front of a seam, and not at it, is there to stay, whatever is written behind the seam.
Of its tokens the text behind decides one thing alone: whether an opening parenthesis is closed.

* `Token.foreseen`               a token without the verdict of an opening parenthesis;
* `map_foreseen_settle_append`   settling judges the rest of a token from the tokens in front of it;
* `Query.foreseen`               what a text tells of the tokens in front of its last lexeme;
* `Query.map_foreseen_takeWhile` a longer text has these tokens in front of the seam, and no others;
* `Query.ofText_foreseen`        so any two texts that begin alike do.
-/

namespace FilterQuery
open Text

/-! ## one token -/

namespace Token

/-- the token without the verdict of an opening parenthesis, the only one that looks ahead -/
def foreseen (t : Token) : Token := if t.role = .openParen then { t with fault := none } else t

theorem foreseen_settled (opened closed closed' : Nat) (t : Token) :
    (t.settled opened closed).foreseen = (t.settled opened closed').foreseen := by
  unfold settled
  split
  · next h => simp only [foreseen, h, if_true]
  · rfl
  · rfl

end Token

/-! ## lists -/

/-- **Settling a beginning** is settling it on its own, but for opening parentheses. -/
theorem map_foreseen_settle_append (opened : Nat) (ts us : List Token) :
    (settle opened (ts ++ us)).1.map Token.foreseen =
      (settle opened ts).1.map Token.foreseen ++
        (settle (openBehind opened ts) us).1.map Token.foreseen := by
  induction ts generalizing opened with
  | nil => rfl
  | cons t ts ih =>
    rw [List.cons_append, fst_settle_cons, fst_settle_cons, List.map_cons, List.map_cons,
      List.cons_append, ih, Token.foreseen_settled opened (closing (ts ++ us)) (closing ts)]
    rfl

/-- what passes a test that fails from some element on, by its index -/
theorem filter_getElem?_of_pairwise {α : Type} {p : α → Bool} {as : List α}
    (h : as.Pairwise (fun a b => p b → p a)) (i : Nat) :
    as[i]?.filter p = (as.takeWhile p)[i]? := by
  induction as generalizing i with
  | nil => rfl
  | cons a as ih =>
    obtain ⟨ha, has⟩ := List.pairwise_cons.mp h
    by_cases hp : p a
    · rw [List.takeWhile_cons_of_pos hp]
      cases i with
      | zero => exact Option.filter_some_pos hp
      | succ i => exact ih has i
    · rw [List.takeWhile_cons_of_neg hp, List.getElem?_nil, Option.filter_eq_none_iff]
      intro b hb hpb
      rcases List.mem_cons.mp (List.mem_of_getElem? hb) with rfl | hmem
      · exact hp hpb
      · exact hp (ha b hmem hpb)

/-! ## texts -/

namespace Query
variable (reg : Registry)

/-- **What a text tells of itself**, even if more is written behind it: the tokens in front of its
last lexeme. -/
def foreseen (s : Text) : List Token := (ofText reg s).tokens.dropLast.map Token.foreseen

theorem map_foreseen_take {s : Text} {ls ms : List Lexeme} (h : lex s = ls ++ ms) :
    ((ofText reg s).tokens.take ls.length).map Token.foreseen =
      (balanced (reg.judgeAll none ls)).map Token.foreseen := by
  have hlength : ((balanced (reg.judgeAll none ls)).map Token.foreseen).length = ls.length := by
    rw [List.length_map, (reg.lexed_balanced ls).length_eq]
  rw [List.map_take, ofText, h, Registry.judgeAll_append]
  show (List.map _ (settle 0 _).1).take _ = _
  rw [map_foreseen_settle_append]
  exact List.take_left' hlength

/-- **A longer text has the tokens that its beginning tells of**, and no others in front of the
seam. -/
theorem map_foreseen_takeWhile (s x : Text) :
    ((ofText reg (s ++ x)).tokens.takeWhile (fun t => t.span.stop < byteLength s)).map Token.foreseen =
      foreseen reg s := by
  have hfront := takeWhile_lex_append s x
  obtain ⟨ms, hms⟩ : (lex s).dropLast <+: lex (s ++ x) := hfront ▸ List.takeWhile_prefix _
  obtain ⟨ns, hns⟩ := List.dropLast_prefix (lex s)
  -- the tokens in front of the seam are as many as the lexemes there
  have htake := List.prefix_iff_eq_take.mp
    (List.takeWhile_prefix (fun t : Token => decide (t.span.stop < byteLength s))
      (l := (ofText reg (s ++ x)).tokens))
  have hlength := ((lexed_ofText reg (s ++ x)).takeWhile_span
    (fun a => decide (a.stop < byteLength s))).length_eq
  rw [hfront] at hlength
  rw [htake, hlength, map_foreseen_take reg hms.symm, ← map_foreseen_take reg hns.symm, foreseen,
    List.length_dropLast, ← (lexed_ofText reg s).length_eq, ← List.dropLast_eq_take]

/-- **Later text does not change earlier tokens.**  Two texts that begin alike have the same tokens
at the same indices in front of the seam, but for verdicts of opening parentheses. -/
theorem ofText_foreseen (s x y : Text) (i : Nat) :
    let early (q : Query) : Option Token := q.tokens[i]?.filter (fun t => t.span.stop < byteLength s)
    (early (ofText reg (s ++ x))).map Token.foreseen =
      (early (ofText reg (s ++ y))).map Token.foreseen := by
  intro early
  have hearly : ∀ z, (early (ofText reg (s ++ z))).map Token.foreseen = (foreseen reg s)[i]? := by
    intro z
    have hsorted := (lexed_ofText reg (s ++ z)).pairwise_stop_lt (byteLength s)
    show ((ofText reg (s ++ z)).tokens[i]?.filter _).map _ = _
    rw [filter_getElem?_of_pairwise hsorted, ← map_foreseen_takeWhile reg s z, List.getElem?_map]
  rw [hearly, hearly]

end Query

end FilterQuery
