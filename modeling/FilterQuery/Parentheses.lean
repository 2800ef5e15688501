import FilterQuery.Token

/-!
# Matching parentheses

Whether a parenthesis has a partner depends on the whole token list.  One pass over the list
decides all of them: it carries the number of open parentheses forward and brings the number of
closing ones that are still without a partner back.

* `closing ts`      how many `)` of `ts` have no partner in `ts`;
* `settle n ts`     the tokens with every parenthesis judged, behind `n` open ones, with `closing ts`;
* `Balance.of ts`   the outcome for a list on its own.
-/

namespace FilterQuery

/-! ## one pass -/

/-- the number of closing parentheses whose partner would have to stand in front of the list -/
def closing : List Token → Nat
  | [] => 0
  | t :: ts =>
    match t.role with
    | .openParen => closing ts - 1
    | .closeParen => closing ts + 1
    | _ => closing ts

/-- Judges all parentheses of a list that stands behind `opened` open ones. -/
def settle (opened : Nat) : List Token → List Token × Nat
  | [] => ([], 0)
  | t :: ts =>
    match t.role with
    | .openParen =>
      let (settled, n) := settle (opened + 1) ts
      ({ t with fault := if n = 0 then some .unmatchedOpen else none } :: settled, n - 1)
    | .closeParen =>
      let (settled, n) := settle (opened - 1) ts
      ({ t with fault := if opened = 0 then some .unmatchedClose else none } :: settled, n + 1)
    | _ =>
      let (settled, n) := settle opened ts
      (t :: settled, n)

theorem settle_snd (opened : Nat) (ts : List Token) : (settle opened ts).2 = closing ts := by
  induction ts generalizing opened with
  | nil => rfl
  | cons t ts ih =>
    unfold settle closing
    split <;> simp only [ih]

/-- only the faults of parentheses can change -/
theorem map_settle {β : Type} (f : Token → β) (hf : ∀ t e, f { t with fault := e } = f t)
    (opened : Nat) (ts : List Token) : (settle opened ts).1.map f = ts.map f := by
  induction ts generalizing opened with
  | nil => rfl
  | cons t ts ih =>
    unfold settle
    split <;> simp [ih, hf]

/-! ## the outcome -/

structure Balance where
  tokens : List Token
  /-- indices of the opening parentheses without a partner, in order -/
  unmatchedOpen : List Nat
  /-- the number of closing parentheses without a partner -/
  unmatchedClose : Nat
deriving DecidableEq, Repr

/-- the indices from `n` on of the opening parentheses that carry a fault -/
def faultyOpen (n : Nat) : List Token → List Nat
  | [] => []
  | t :: ts =>
    if t.role = .openParen ∧ t.fault.isSome then n :: faultyOpen (n + 1) ts
    else faultyOpen (n + 1) ts

def Balance.of (ts : List Token) : Balance :=
  let (settled, n) := settle 0 ts
  ⟨settled, faultyOpen 0 settled, n⟩

/-- the tokens with the verdicts of all parentheses -/
def balanced (ts : List Token) : List Token := (settle 0 ts).1

end FilterQuery
