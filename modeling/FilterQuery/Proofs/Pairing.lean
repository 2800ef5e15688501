import FilterQuery.InPlace
import FilterQuery.Proofs.Settlement

/-!
# Parentheses paired by their indices

A stack of indices finds the same faults as counting.

* `stackAfter`         the indices of the open parentheses behind one more token;
* `Token.forgiven`     an opening parenthesis before anything is known about its partner;
* `pairUp_eq`          one pass forgives all opening parentheses and leaves the indices of the faulty
  ones;
* `blame?_faultyOpen`  these indices are there, and the parentheses at them are all that is missing;
* `resettle?_eq`       so parentheses settled by indices are settled;
* `Balance.inPlace?_eq`   and the outcome of pairing is that of settling.
-/

namespace FilterQuery

def stackAfter (opened : List Nat) (index : Nat) : Role → List Nat
  | .openParen => index :: opened
  | .closeParen => opened.tail
  | _ => opened

theorem length_stackAfter (opened : List Nat) (index : Nat) (r : Role) :
    (stackAfter opened index r).length = openAfter opened.length r := by
  cases r with
  | closeParen => exact List.length_tail
  | _ => rfl

def Token.forgiven (t : Token) : Token :=
  if t.role = .openParen then { t with fault := none } else t

/-- one token: what it is forgiven does not depend on what follows it -/
theorem pairUp_cons (opened : List Nat) (index closed : Nat) (t : Token) (ts : List Token) :
    pairUp opened index (t :: ts) =
      ((t.settled opened.length closed).forgiven ::
          (pairUp (stackAfter opened index t.role) (index + 1) ts).1,
        (pairUp (stackAfter opened index t.role) (index + 1) ts).2) := by
  cases t with
  | mk role text span fault resolution => cases role <;> cases opened <;> rfl

theorem faultyOpen_settled_cons (opened : List Nat) (index : Nat) (t : Token) (ts us : List Token) :
    (faultyOpen index (t.settled opened.length (closing ts) :: us)).reverse ++
        opened.drop (closing (t :: ts)) =
      (faultyOpen (index + 1) us).reverse ++
        (stackAfter opened index t.role).drop (closing ts) := by
  have hother : ∀ {u : Token}, ¬ (u.role = .openParen ∧ u.fault.isSome) →
      faultyOpen index (u :: us) = faultyOpen (index + 1) us := fun h => if_neg h
  cases hr : t.role with
  | openParen =>
    have hsettled : t.settled opened.length (closing ts) =
        { t with fault := if closing ts = 0 then some .unmatchedOpen else none } := by
      unfold Token.settled
      rw [hr]
    have hclosing : closing (t :: ts) = closing ts - 1 := by rw [closing, hr]
    rw [hsettled, hclosing]
    show _ = _ ++ (index :: opened).drop (closing ts)
    cases closing ts with
    | zero =>
      have hfaulty : faultyOpen index ({ t with fault := some .unmatchedOpen } :: us) =
          index :: faultyOpen (index + 1) us := if_pos ⟨hr, rfl⟩
      rw [if_pos rfl, hfaulty, List.reverse_cons, List.append_assoc]
      rfl
    | succ n =>
      rw [if_neg (Nat.succ_ne_zero n), hother (fun h => absurd h.2 (by simp))]
      rfl
  | closeParen =>
    have hrole : (t.settled opened.length (closing ts)).role ≠ .openParen := by
      rw [Token.role_settled, hr]
      decide
    have hclosing : closing (t :: ts) = closing ts + 1 := by rw [closing, hr]
    rw [hother (fun h => hrole h.1), hclosing, ← List.drop_tail]
    rfl
  | _ =>
    have hrole : (t.settled opened.length (closing ts)).role ≠ .openParen := by
      rw [Token.role_settled, hr]
      decide
    have hclosing : closing (t :: ts) = closing ts := by rw [closing, hr]
    rw [hother (fun h => hrole h.1), hclosing]
    rfl

/-- **A stack holds what counting counts.** The indices that are left are those of the parentheses
that counting finds faulty, on top of those that no closing parenthesis of the list has taken. -/
theorem pairUp_eq (opened : List Nat) (index : Nat) (ts : List Token) :
    pairUp opened index ts =
      ((settle opened.length ts).1.map Token.forgiven,
        (faultyOpen index (settle opened.length ts).1).reverse ++ opened.drop (closing ts)) := by
  induction ts generalizing opened index with
  | nil => rfl
  | cons t ts ih =>
    rw [pairUp_cons opened index (closing ts), ih, fst_settle_cons, length_stackAfter,
      faultyOpen_settled_cons]
    rfl

theorem fault_of_mem_settle {opened : Nat} {ts : List Token} {t : Token} {f : Fault}
    (h : t ∈ (settle opened ts).1) (hr : t.role = .openParen) (hf : t.fault = some f) :
    f = .unmatchedOpen := by
  induction ts generalizing opened with
  | nil => exact absurd h List.not_mem_nil
  | cons u us ih =>
    rw [fst_settle_cons] at h
    rcases List.mem_cons.mp h with rfl | h
    · rw [Token.role_settled] at hr
      unfold Token.settled at hf
      rw [hr] at hf
      dsimp only at hf
      split at hf
      · exact (Option.some.inj hf).symm
      · exact absurd hf (by simp)
    · exact ih h

/-- **Each index that is left is that of a token**, and blaming these tokens undoes the pardon. -/
theorem blame?_faultyOpen (front : List Token) {ts : List Token}
    (h : ∀ t ∈ ts, t.role = .openParen → ∀ f, t.fault = some f → f = .unmatchedOpen) :
    blame? (front ++ ts.map Token.forgiven) (faultyOpen front.length ts) = some (front ++ ts) := by
  induction ts generalizing front with
  | nil => rfl
  | cons t ts ih =>
    have hts := ih (front ++ [t]) (fun u hu => h u (List.mem_cons_of_mem _ hu))
    rw [List.length_append, List.append_assoc, List.append_assoc] at hts
    unfold faultyOpen
    split
    · next hfaulty =>
      obtain ⟨hr, hsome⟩ := hfaulty
      obtain ⟨f, hf⟩ := Option.isSome_iff_exists.mp hsome
      obtain rfl := h t List.mem_cons_self hr f hf
      have hblamed : { t.forgiven with fault := some .unmatchedOpen } = t := by
        unfold Token.forgiven
        rw [if_pos hr, ← hf]
      rw [blame?, List.map_cons, List.getElem?_append_right (Nat.le_refl _), Nat.sub_self]
      show blame? ((front ++ t.forgiven :: _).set front.length
        { t.forgiven with fault := some .unmatchedOpen }) _ = _
      rw [hblamed, List.set_append_right _ _ (Nat.le_refl _), Nat.sub_self]
      exact hts
    · next hfaulty =>
      have hsame : t.forgiven = t := by
        unfold Token.forgiven
        split
        · next hr =>
          have hnone : t.fault = none := by
            cases hf : t.fault with
            | none => rfl
            | some f => exact absurd ⟨hr, by rw [hf]; rfl⟩ hfaulty
          rw [← hnone]
        · rfl
      rw [List.map_cons, hsame]
      exact hts

/-! ## a list on its own -/

theorem pairUp_nil_eq (ts : List Token) :
    pairUp [] 0 ts = ((balanced ts).map Token.forgiven, (faultyOpen 0 (balanced ts)).reverse) := by
  have h := pairUp_eq [] 0 ts
  rwa [List.drop_nil, List.append_nil] at h

theorem blame?_balanced (ts : List Token) :
    blame? ((balanced ts).map Token.forgiven) (faultyOpen 0 (balanced ts)) = some (balanced ts) :=
  blame?_faultyOpen [] (fun _ ht hr _ hf => fault_of_mem_settle ht hr hf)

/-- **Parentheses settled by their indices are settled.** -/
theorem resettle?_eq (ts : List Token) : resettle? ts = some (balanced ts) := by
  unfold resettle?
  rw [pairUp_nil_eq]
  show blame? _ (faultyOpen 0 (balanced ts)).reverse.reverse = _
  rw [List.reverse_reverse, blame?_balanced]

/-- the stray ones are those that the open ones in front do not provide for -/
theorem strays_eq (opened : Nat) (ts : List Token) : strays opened ts = closing ts - opened := by
  induction ts generalizing opened with
  | nil => exact (Nat.zero_sub opened).symm
  | cons t ts ih =>
    unfold strays closing
    cases t.role with
    | openParen =>
      show strays (opened + 1) ts = closing ts - 1 - opened
      rw [ih, Nat.sub_sub, Nat.add_comm]
    | closeParen =>
      cases opened with
      | zero => exact congrArg (· + 1) (ih 0)
      | succ n =>
        show strays n ts = closing ts + 1 - (n + 1)
        rw [ih, Nat.add_sub_add_right]
    | _ => exact ih opened

/-- **Pairing gives the outcome that counting gives.** -/
theorem Balance.inPlace?_eq (ts : List Token) : Balance.inPlace? ts = some (Balance.of ts) := by
  unfold Balance.inPlace?
  rw [pairUp_nil_eq]
  show (blame? _ (faultyOpen 0 (balanced ts)).reverse.reverse).map _ = _
  rw [List.reverse_reverse, blame?_balanced, Option.map_some, strays_eq, Nat.sub_zero,
    ← settle_snd 0 ts]
  rfl

end FilterQuery
