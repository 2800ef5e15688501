import FilterQuery.Span
import FilterQuery.Text

/-!
# Lexemes

A query text is cut into lexemes that cover it without gaps.  A lexeme is read off the text alone:
where it ends depends on no more than one character after it.

* `munch c s`      the first lexeme of `c :: s` and what is left;
* `lexFrom n s`    all lexemes of `s`, the first one at offset `n`;
* `lex s`          all lexemes of a whole text.
-/

namespace FilterQuery

/-! ## characters -/

/-- the space, and the no-break space that rich-text surfaces insert for it -/
def isSpace (c : Char) : Bool := c = ' ' || c = '\u00a0'

/-- the characters that end a word -/
def endsWord (c : Char) : Bool :=
  isSpace c || c = '(' || c = ')' || c = '<' || c = '=' || c = '>'

/-! ## kinds -/

namespace Lexeme

inductive Kind where
  | blank
  | openParen
  | closeParen
  /-- one of the five comparison signs -/
  | operator
  /-- a double-quoted literal with both quotes -/
  | literal
  /-- a double-quoted literal that runs to the end of the text -/
  | unclosedLiteral
  /-- names, keywords, numbers and any other run of ordinary characters -/
  | word
deriving DecidableEq, Repr, Inhabited

end Lexeme

structure Lexeme where
  kind : Lexeme.Kind
  text : Text
  span : Span
deriving DecidableEq, Repr

/-! ## one lexeme -/

/-- a lexeme at the front of a text, and the text after it -/
structure Munch where
  kind : Lexeme.Kind
  text : Text
  rest : Text
deriving DecidableEq, Repr

/-- the longest leading run of `c :: s` whose members pass `p`; `c` is taken unseen -/
def Munch.run (kind : Lexeme.Kind) (p : Char → Bool) (c : Char) (s : Text) : Munch :=
  ⟨kind, c :: s.takeWhile p, s.dropWhile p⟩

/-- the literal that a quote opens in front of `s` -/
def Munch.literal (s : Text) : Munch :=
  match s.dropWhile (· != '"') with
  | [] => ⟨.unclosedLiteral, '"' :: s, []⟩
  | q :: rest => ⟨.literal, '"' :: s.takeWhile (· != '"') ++ [q], rest⟩

/-- the sign that `c` starts, with the `=` after it if there is one -/
def Munch.inequality (c : Char) (s : Text) : Munch :=
  match s with
  | '=' :: rest => ⟨.operator, [c, '='], rest⟩
  | _ => ⟨.operator, [c], s⟩

def munch (c : Char) (s : Text) : Munch :=
  if isSpace c then .run .blank isSpace c s
  else if c = '(' then ⟨.openParen, [c], s⟩
  else if c = ')' then ⟨.closeParen, [c], s⟩
  else if c = '=' then ⟨.operator, [c], s⟩
  else if c = '<' || c = '>' then .inequality c s
  else if c = '"' then .literal s
  else .run .word (fun x => !endsWord x) c s

/-- nothing is lost between a lexeme and the rest -/
theorem munch_text_append_rest (c : Char) (s : Text) :
    (munch c s).text ++ (munch c s).rest = c :: s := by
  unfold munch
  split
  · simp [Munch.run]
  split
  · rfl
  split
  · rfl
  split
  · rfl
  split
  · unfold Munch.inequality
    split <;> rfl
  split
  · next h =>
    subst h
    unfold Munch.literal
    have e := List.takeWhile_append_dropWhile (p := (· != '"')) (l := s)
    split
    · simp
    · next q rest hq =>
      rw [hq] at e
      simp [e]
  · simp [Munch.run]

theorem munch_text_ne_nil (c : Char) (s : Text) : (munch c s).text ≠ [] := by
  unfold munch Munch.run Munch.inequality Munch.literal
  repeat' split
  all_goals simp

theorem munch_rest_length_le (c : Char) (s : Text) : (munch c s).rest.length ≤ s.length := by
  have h := congrArg List.length (munch_text_append_rest c s)
  have hne := List.length_pos_iff.mpr (munch_text_ne_nil c s)
  simp only [List.length_append, List.length_cons] at h
  omega

/-! ## all lexemes -/

/-- the lexeme of a munch that starts at an offset -/
def Munch.lexeme (m : Munch) (start : Nat) : Lexeme :=
  ⟨m.kind, m.text, ⟨start, start + Text.byteLength m.text⟩⟩

def lexFrom (start : Nat) : Text → List Lexeme
  | [] => []
  | c :: s =>
    let m := munch c s
    let l := m.lexeme start
    l :: lexFrom l.span.stop m.rest
termination_by s => s.length
decreasing_by exact Nat.lt_succ_of_le (munch_rest_length_le c s)

def lex (s : Text) : List Lexeme := lexFrom 0 s

@[simp] theorem lexFrom_nil (n : Nat) : lexFrom n [] = [] := by
  rw [lexFrom]

theorem lexFrom_cons (n : Nat) (c : Char) (s : Text) :
    lexFrom n (c :: s) = (munch c s).lexeme n ::
      lexFrom (n + Text.byteLength (munch c s).text) (munch c s).rest := by
  rw [lexFrom]
  rfl

/-- the lexemes of a text put together are the text -/
theorem flatMap_text_lexFrom (n : Nat) (s : Text) : (lexFrom n s).flatMap Lexeme.text = s := by
  fun_induction lexFrom n s with
  | case1 => rfl
  | case2 n c s m l ih =>
    rw [List.flatMap_cons, ih]
    exact munch_text_append_rest c s

theorem flatMap_text_lex (s : Text) : (lex s).flatMap Lexeme.text = s := flatMap_text_lexFrom 0 s

/-! ## single words -/

/-- the text reads back as one word -/
def IsWord : Text → Prop
  | [] => False
  | c :: s => (munch c s).kind = .word ∧ (munch c s).rest = []

instance : (s : Text) → Decidable (IsWord s)
  | [] => inferInstanceAs (Decidable False)
  | _ :: _ => inferInstanceAs (Decidable (_ ∧ _))

end FilterQuery
