import FilterQuery.Suggestion

/-!
# Editing in place

The edits of `Query.edit` on one text and one list of tokens that change step after step.  Texts are
read by offsets and lists by indices, and nothing is read that is not there: each of these gives
`none` for an offset behind the end or inside a character, for an index or a range of indices that
leaves the list, and for a range that ends before it starts.

* `Text.from?`, `Text.part?`, `Text.exchange?`   the parts of a text between boundaries;
* `lexemeAt?`, `lexOn?`         the lexeme at an offset, character after character, and all from
  there on;
* `segment?`, `exchangeSegment?`, `partitionPoint?`   the parts of a list;
* `roleInFront?`, `moveFrom?`, `resettle?`   what an edit does with the tokens;
* `Balance.inPlace?`           the outcome of pairing all parentheses;
* `Registry.readOn?`           reads until an old token can go on;
* `Query.editInPlace`, `Query.acceptInPlace`   the query afterwards, and what was changed or why not;
* `Query.tokenAtInPlace`, `Query.suggestAtInPlace`   the token at a caret, searched for by halves.
-/

namespace FilterQuery

/-! ## texts -/

namespace Text

def from? (s : Text) (n : Nat) : Option Text :=
  if s.IsBoundary n then some (s.dropBytes n) else none

def part? (s : Text) (a : Span) : Option Text :=
  if a.start ≤ a.stop ∧ s.IsBoundary a.start ∧ s.IsBoundary a.stop then
    some ((s.dropBytes a.start).takeBytes a.length)
  else none

def exchange? (s : Text) (a : Span) (t : Text) : Option Text :=
  if a.start ≤ a.stop ∧ s.IsBoundary a.start ∧ s.IsBoundary a.stop then
    some (s.replaceBytes a.start a.stop t)
  else none

/-- the character at an offset; at the end there is none -/
def peek? (s : Text) (n : Nat) : Option (Option Char) := (s.from? n).map List.head?

theorem peek?_eq_some_some {s : Text} {n : Nat} {c : Char} (h : s.peek? n = some (some c)) :
    n + c.utf8Size ≤ s.byteLength := by
  unfold peek? from? at h
  split at h
  · next hn =>
    obtain ⟨a, b, rfl, rfl⟩ := (isBoundary_iff s n).mp hn
    rw [dropBytes_byteLength_append] at h
    obtain ⟨r, rfl⟩ := List.head?_eq_some_iff.mp (Option.some.inj h)
    rw [byteLength_append, byteLength_cons]
    omega
  · exact absurd h (by simp)

def runEnd? (p : Char → Bool) (s : Text) (n : Nat) : Option Nat :=
  match _h : s.peek? n with
  | none => none
  | some none => some n
  | some (some c) => if p c then runEnd? p s (n + c.utf8Size) else some n
termination_by s.byteLength - n
decreasing_by
  have hle := peek?_eq_some_some _h
  have hc := c.utf8Size_pos
  omega

theorem le_of_runEnd? {p : Char → Bool} {s : Text} {n m : Nat} (h : s.runEnd? p n = some m) :
    n ≤ m := by
  fun_induction runEnd? p s n with
  | case1 n => exact absurd h (by simp)
  | case2 n => exact Nat.le_of_eq (Option.some.inj h)
  | case3 n c hpeek hp ih => exact Nat.le_trans (Nat.le_add_right n _) (ih h)
  | case4 n c hpeek hp => exact Nat.le_of_eq (Option.some.inj h)

theorem le_byteLength_of_isBoundary {s : Text} {n : Nat} (h : s.IsBoundary n) :
    n ≤ s.byteLength := by
  obtain ⟨a, b, rfl, rfl⟩ := (isBoundary_iff s n).mp h
  rw [byteLength_append]
  exact Nat.le_add_right _ _

end Text

/-! ## lexemes -/

def literalEnd? (s : Text) (n : Nat) : Option (Lexeme.Kind × Nat) := do
  let m ← s.runEnd? (· != '"') n
  match ← s.peek? m with
  | some c => return (.literal, m + c.utf8Size)
  | none => return (.unclosedLiteral, m)

/-- what the character `c` opens, and where that ends; the character itself ends at `n` -/
def lexemeEnd? (s : Text) (c : Char) (n : Nat) : Option (Lexeme.Kind × Nat) :=
  if isSpace c then (s.runEnd? isSpace n).map (fun m => (.blank, m))
  else if c = '(' then some (.openParen, n)
  else if c = ')' then some (.closeParen, n)
  else if c = '=' then some (.operator, n)
  else if c = '<' || c = '>' then
    (s.peek? n).map (fun d => (.operator, if d = some '=' then n + '='.utf8Size else n))
  else if c = '"' then literalEnd? s n
  else (s.runEnd? (fun x => !endsWord x) n).map (fun m => (.word, m))

/-- the lexeme at an offset; at the end there is none -/
def lexemeAt? (s : Text) (n : Nat) : Option (Option Lexeme) := do
  match ← s.peek? n with
  | none => return none
  | some c =>
    let (kind, stop) ← lexemeEnd? s c (n + c.utf8Size)
    let text ← s.part? ⟨n, stop⟩
    return some ⟨kind, text, ⟨n, stop⟩⟩

theorem le_of_literalEnd? {s : Text} {n : Nat} {r : Lexeme.Kind × Nat}
    (h : literalEnd? s n = some r) : n ≤ r.2 := by
  obtain ⟨m, hm, h⟩ := Option.bind_eq_some_iff.mp h
  obtain ⟨c, -, h⟩ := Option.bind_eq_some_iff.mp h
  have hle := Text.le_of_runEnd? hm
  split at h <;> obtain rfl := Option.some.inj h
  · exact Nat.le_trans hle (Nat.le_add_right m _)
  · exact hle

theorem le_of_lexemeEnd? {s : Text} {c : Char} {n : Nat} {r : Lexeme.Kind × Nat}
    (h : lexemeEnd? s c n = some r) : n ≤ r.2 := by
  unfold lexemeEnd? at h
  split at h
  · obtain ⟨m, hm, rfl⟩ := Option.map_eq_some_iff.mp h
    exact Text.le_of_runEnd? hm
  split at h
  · exact Nat.le_of_eq (congrArg Prod.snd (Option.some.inj h))
  split at h
  · exact Nat.le_of_eq (congrArg Prod.snd (Option.some.inj h))
  split at h
  · exact Nat.le_of_eq (congrArg Prod.snd (Option.some.inj h))
  split at h
  · obtain ⟨d, -, rfl⟩ := Option.map_eq_some_iff.mp h
    dsimp only
    split
    · exact Nat.le_add_right n _
    · exact Nat.le_refl n
  split at h
  · exact le_of_literalEnd? h
  · obtain ⟨m, hm, rfl⟩ := Option.map_eq_some_iff.mp h
    exact Text.le_of_runEnd? hm

theorem stop_of_lexemeAt? {s : Text} {n : Nat} {l : Lexeme} (h : lexemeAt? s n = some (some l)) :
    n < l.span.stop ∧ l.span.stop ≤ s.byteLength := by
  obtain ⟨c, -, h⟩ := Option.bind_eq_some_iff.mp h
  cases c with
  | none => exact absurd h (by simp)
  | some c =>
    obtain ⟨⟨kind, stop⟩, hend, h⟩ := Option.bind_eq_some_iff.mp h
    obtain ⟨text, htext, h⟩ := Option.bind_eq_some_iff.mp h
    obtain rfl := Option.some.inj (Option.some.inj h)
    have hle : n + c.utf8Size ≤ stop := le_of_lexemeEnd? hend
    have hlt : n < stop := Nat.lt_of_lt_of_le (Nat.lt_add_of_pos_right c.utf8Size_pos) hle
    unfold Text.part? at htext
    split at htext
    · next hpart => exact ⟨hlt, Text.le_byteLength_of_isBoundary hpart.2.2⟩
    · exact absurd htext (by simp)

/-- The lexemes from an offset on, one after another.  Each begins where the one in front of it has
ended; nothing but that offset is carried along. -/
def lexOn? (s : Text) (n : Nat) : Option (List Lexeme) :=
  match _h : lexemeAt? s n with
  | none => none
  | some none => some []
  | some (some l) => (lexOn? s l.span.stop).map (l :: ·)
termination_by s.byteLength - n
decreasing_by
  have hl := stop_of_lexemeAt? _h
  omega

/-! ## lists -/

section
variable {α : Type}

def segment? (xs : List α) (first last : Nat) : Option (List α) :=
  if first ≤ last ∧ last ≤ xs.length then some ((xs.drop first).take (last - first)) else none

def exchangeSegment? (xs : List α) (first last : Nat) (ys : List α) : Option (List α) :=
  if first ≤ last ∧ last ≤ xs.length then some (xs.take first ++ ys ++ xs.drop last) else none

/-- The first index from `low` on, below `high`, at which a list does not pass a test; all items that
pass are meant to stand in front of all that do not. -/
def partitionPoint? (p : α → Bool) (xs : List α) (low high : Nat) : Option Nat :=
  if low < high then
    match xs[(low + high) / 2]? with
    | none => none
    | some x =>
      if p x then partitionPoint? p xs ((low + high) / 2 + 1) high
      else partitionPoint? p xs low ((low + high) / 2)
  else some low
termination_by high - low

end

/-! ## tokens -/

def roleInFront? (ts : List Token) (index : Nat) : Option (Option Role) :=
  (segment? ts 0 index).map (fun us => (us.reverse.map Token.role).find? (· ≠ .blank))

def moveFrom? (ts : List Token) (index : Nat) (d : Int) : Option (List Token) :=
  (segment? ts index ts.length).map (fun us => ts.take index ++ us.map (fun t => t.shift d))

def passTo (ts : List Token) (offset index : Nat) : Nat :=
  match _h : ts[index]? with
  | none => index
  | some t => if t.span.start < offset then passTo ts offset (index + 1) else index
termination_by ts.length - index
decreasing_by
  obtain ⟨hlt, -⟩ := List.getElem?_eq_some_iff.mp _h
  omega

/-- Pairs parentheses from the left.  `opened` are the indices of those that are open, the last one
first; those that stay so are given as well. -/
def pairUp (opened : List Nat) (index : Nat) : List Token → List Token × List Nat
  | [] => ([], opened)
  | t :: ts =>
    match t.role, opened with
    | .openParen, _ =>
      let (paired, left) := pairUp (index :: opened) (index + 1) ts
      ({ t with fault := none } :: paired, left)
    | .closeParen, [] =>
      let (paired, left) := pairUp [] (index + 1) ts
      ({ t with fault := some .unmatchedClose } :: paired, left)
    | .closeParen, _ :: opened =>
      let (paired, left) := pairUp opened (index + 1) ts
      ({ t with fault := none } :: paired, left)
    | _, _ =>
      let (paired, left) := pairUp opened (index + 1) ts
      (t :: paired, left)

def blame? (ts : List Token) : List Nat → Option (List Token)
  | [] => some ts
  | i :: is =>
    match ts[i]? with
    | none => none
    | some t => blame? (ts.set i { t with fault := some .unmatchedOpen }) is

def resettle? (ts : List Token) : Option (List Token) :=
  let (paired, left) := pairUp [] 0 ts
  blame? paired left.reverse

def strays (opened : Nat) : List Token → Nat
  | [] => 0
  | t :: ts =>
    match t.role, opened with
    | .openParen, n => strays (n + 1) ts
    | .closeParen, 0 => strays 0 ts + 1
    | .closeParen, n + 1 => strays n ts
    | _, n => strays n ts

/-- The outcome for a list on its own.  The indices that are left are those of the opening
parentheses without a partner. -/
def Balance.inPlace? (ts : List Token) : Option Balance :=
  let (paired, left) := pairUp [] 0 ts
  (blame? paired left.reverse).map (fun us => ⟨us, left.reverse, strays 0 ts⟩)

/-! ## reading on -/

/-- The old tokens from `index` on are passed up to where a lexeme ended at `stop`.  Gives the index
reached, and whether the token there can go on behind the role. -/
def Edit.takeover? (e : Edit) (ts : List Token) (stop : Nat) (role : Option Role) (index : Nat) :
    Option (Nat × Bool) :=
  if stop < e.stop then some (index, false)
  else
    let offset := shift stop (-e.delta)
    let index := passTo ts offset index
    match ts[index]? with
    | none => some (index, false)
    | some t =>
      if t.span.start = offset then
        (roleInFront? ts index).map (fun r => (index, decide (r = role)))
      else some (index, false)

/-- Judges lexemes until an old token can go on.  Gives the tokens read and its index. -/
def Registry.readOn? (reg : Registry) (s : Text) (ts : List Token) (e : Edit) (start : Nat)
    (previous : Option Role) (index : Nat) : Option (List Token × Nat) :=
  match _h : lexemeAt? s start with
  | none => none
  | some none => some ([], ts.length)
  | some (some l) =>
    let t := reg.judge previous l
    let role := after previous t.role
    match e.takeover? ts l.span.stop role index with
    | none => none
    | some (index, true) => some ([t], index)
    | some (index, false) =>
      (readOn? reg s ts e l.span.stop role index).map (fun (read, last) => (t :: read, last))
termination_by s.byteLength - start
decreasing_by
  have hl := stop_of_lexemeAt? _h
  omega

/-! ## queries -/

namespace Query

/-- The edit is checked before anything is changed. -/
def editInPlace (reg : Registry) (q : Query) (e : Edit) :
    Option (Query × Except EditError Change) :=
  match e.check q.source with
  | .error x => some (q, .error x)
  | .ok () => do
    let source ← q.source.exchange? e.range e.replacement
    let touched ← partitionPoint? (fun t => t.span.stop < e.range.start) q.tokens 0 q.tokens.length
    let first := touched - 1
    let origin := (q.tokens[first]?.map (fun t => t.span.start)).getD 0
    let previous ← roleInFront? q.tokens first
    let (read, last) ← reg.readOn? source q.tokens e origin previous first
    let removed ← segment? q.tokens first last
    let resettled := (removed ++ read).any (fun t => t.role.isParen)
    let stop := (read.getLast?.map (fun t => t.span.stop)).getD origin
    let tokens ← exchangeSegment? q.tokens first last read
    let tokens ← moveFrom? tokens (first + read.length) e.delta
    let tokens ← if resettled then resettle? tokens else some tokens
    return (⟨source, tokens⟩, .ok ⟨⟨origin, stop⟩, first, read.length, resettled⟩)

def acceptInPlace (reg : Registry) (q : Query) (index : Nat) (f : Field) :
    Option (Query × Except EditError (Nat × Change)) :=
  match q.tokens[index]? with
  | none => some (q, .error (.noToken index))
  | some t =>
    if t.role = .field then do
      let (q, outcome) ← q.editInPlace reg ⟨t.span, f.name⟩
      return (q, outcome.map (fun c => (t.span.start + f.name.byteLength, c)))
    else some (q, .error (.notAField index))

/-! ## carets -/

/-- the first token that does not end in front of the caret, if the caret touches it -/
def tokenAtInPlace (q : Query) (caret : Nat) : Option (Option (Nat × Token)) := do
  let i ← partitionPoint? (fun t => t.span.stop < caret) q.tokens 0 q.tokens.length
  return (q.tokens[i]?.filter (fun t => decide (Touches caret t))).map (fun t => (i, t))

def suggestAtInPlace (reg : Registry) (q : Query) (caret : Nat) :
    Option (Option (Nat × List Field)) := do
  match ← q.tokenAtInPlace caret with
  | none => return none
  | some (i, t) =>
    let fs := reg.suggest t
    return if fs.isEmpty then none else some (i, fs)

end Query

end FilterQuery
