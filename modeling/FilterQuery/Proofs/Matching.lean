import FilterQuery.Proofs.Counting

/-!
# Matching parentheses

When settling finds no fault, told by counting.

* `Matched ks`            no beginning of the kinds `ks` has more closing parentheses than opening
  ones, and all of them have as many;
* `closing_judgeAll_le`   the closing parentheses without a partner, counted over all beginnings;
* `valid_settle`          settling finds no fault iff no closing parenthesis lacks a partner and no
  partner is left over;
* `valid_balanced`        so the parentheses of a text are without fault iff they match;
* `Matched.append`, `Matched.group`, `Matched.of_filter`   lists that match, put together.
-/

namespace FilterQuery

/-- No beginning closes more than it opens, and all is closed at the end. -/
def Matched (ks : List Lexeme.Kind) : Prop :=
  (∀ front, front <+: ks → front.count .closeParen ≤ front.count .openParen) ∧
    ks.count .closeParen = ks.count .openParen

/-! ## roles and kinds -/

namespace Registry
variable (reg : Registry) (previous : Option Role)

theorem role_judge_eq_open (l : Lexeme) :
    (reg.judge previous l).role = .openParen ↔ l.kind = .openParen :=
  reg.role_judge_eq_iff previous .openParen l

theorem role_judge_eq_close (l : Lexeme) :
    (reg.judge previous l).role = .closeParen ↔ l.kind = .closeParen :=
  reg.role_judge_eq_iff previous .closeParen l

/-- a role that goes with a kind is as frequent as the kind -/
theorem count_role_judgeAll {r : Role} {k : Lexeme.Kind}
    (h : ∀ p l, (reg.judge p l).role = r ↔ l.kind = k) (ls : List Lexeme) :
    ((reg.judgeAll previous ls).map Token.role).count r = (ls.map Lexeme.kind).count k := by
  induction ls generalizing previous with
  | nil => rfl
  | cons l ls ih =>
    show (_ :: (reg.judgeAll _ ls).map _).count r = (_ :: ls.map _).count k
    rw [List.count_cons, List.count_cons, ih]
    simp only [beq_iff_eq, h]

end Registry

/-! ## the closing ones -/

theorem closing_cons_open {t : Token} (h : t.role = .openParen) (ts : List Token) :
    closing (t :: ts) = closing ts - 1 := by
  rw [closing, h]

theorem closing_cons_close {t : Token} (h : t.role = .closeParen) (ts : List Token) :
    closing (t :: ts) = closing ts + 1 := by
  rw [closing, h]

theorem closing_cons_plain {t : Token} (h : t.role ≠ .openParen) (h' : t.role ≠ .closeParen)
    (ts : List Token) : closing (t :: ts) = closing ts := by
  rw [closing]
  split
  · next hr => exact absurd hr h
  · next hr => exact absurd hr h'
  · rfl

/-- **At most `opened` closing parentheses lack a partner** iff no beginning closes more than that
beyond what it opens. -/
theorem closing_judgeAll_le (reg : Registry) (previous : Option Role) (opened : Nat)
    (ls : List Lexeme) :
    closing (reg.judgeAll previous ls) ≤ opened ↔
      ∀ front, front <+: ls.map Lexeme.kind →
        front.count .closeParen ≤ front.count .openParen + opened := by
  rw [closing_le_iff, forall_prefix_iff_take, forall_prefix_iff_take]
  refine forall_congr' (fun n => ?_)
  rw [← List.map_take, ← List.map_take, reg.take_judgeAll,
    reg.count_role_judgeAll previous reg.role_judge_eq_open,
    reg.count_role_judgeAll previous reg.role_judge_eq_close]

/-! ## settling -/

theorem count_close_le (ts : List Token) :
    (ts.map Token.role).count .closeParen ≤ closing ts + (ts.map Token.role).count .openParen := by
  induction ts with
  | nil => exact Nat.le_refl _
  | cons t ts ih =>
    rw [List.map_cons]
    by_cases ho : t.role = .openParen
    · rw [closing_cons_open ho, ho, List.count_cons_self, List.count_cons_of_ne (by decide)]
      omega
    · by_cases hc : t.role = .closeParen
      · rw [closing_cons_close hc, hc, List.count_cons_self, List.count_cons_of_ne (by decide)]
        omega
      · rw [closing_cons_plain ho hc, List.count_cons_of_ne ho, List.count_cons_of_ne hc]
        exact ih

/-- **Settling finds no fault** iff no closing parenthesis lacks a partner, beyond those that the
open ones in front provide, and no opening one is left over. -/
theorem valid_settle (opened : Nat) (ts : List Token) :
    (∀ t ∈ (settle opened ts).1, t.IsValid) ↔
      (∀ t ∈ ts, t.unsettled.IsValid) ∧ closing ts ≤ opened ∧
        (ts.map Token.role).count .closeParen
          = closing ts + (ts.map Token.role).count .openParen := by
  induction ts generalizing opened with
  | nil => simp [settle, closing]
  | cons t ts ih =>
    have hle := count_close_le ts
    rw [fst_settle_cons, List.forall_mem_cons, List.forall_mem_cons, ih, List.map_cons]
    by_cases ho : t.role = .openParen
    · have hs : (t.settled opened (closing ts)).IsValid ↔ closing ts ≠ 0 := by
        simp [Token.settled, Token.IsValid, ho]
      have hu : t.unsettled.IsValid := by simp [Token.unsettled, Token.IsValid, ho, Role.isParen]
      rw [closing_cons_open ho, ho, List.count_cons_self, List.count_cons_of_ne (by decide), hs]
      simp only [hu, true_and, openAfter]
      constructor
      · rintro ⟨h1, h2, h3, h4⟩
        exact ⟨h2, by omega, by omega⟩
      · rintro ⟨h2, h3, h4⟩
        exact ⟨by omega, h2, by omega, by omega⟩
    · by_cases hc : t.role = .closeParen
      · have hs : (t.settled opened (closing ts)).IsValid ↔ opened ≠ 0 := by
          simp [Token.settled, Token.IsValid, hc]
        have hu : t.unsettled.IsValid := by simp [Token.unsettled, Token.IsValid, hc, Role.isParen]
        rw [closing_cons_close hc, hc, List.count_cons_self, List.count_cons_of_ne (by decide), hs]
        simp only [hu, true_and, openAfter]
        constructor
        · rintro ⟨h1, h2, h3, h4⟩
          exact ⟨h2, by omega, by omega⟩
        · rintro ⟨h2, h3, h4⟩
          exact ⟨by omega, h2, by omega, by omega⟩
      · have hp : t.role.isParen = false := by
          cases hr : t.role <;> first | rfl | exact absurd hr ho | exact absurd hr hc
        rw [closing_cons_plain ho hc, List.count_cons_of_ne ho, List.count_cons_of_ne hc,
          Token.settled_of_not_paren _ _ hp, Token.unsettled_of_not_paren hp,
          openAfter_of_not_paren _ hp, and_assoc]

/-- **The tokens of a text are without fault** iff the parentheses match and no lexeme was at fault
where it was judged. -/
theorem valid_balanced_judgeAll (reg : Registry) (ls : List Lexeme) :
    (∀ t ∈ balanced (reg.judgeAll none ls), t.IsValid) ↔
      Matched (ls.map Lexeme.kind) ∧ ∀ t ∈ reg.judgeAll none ls, t.IsValid := by
  have hu : (∀ t ∈ reg.judgeAll none ls, t.unsettled.IsValid) ↔
      ∀ t ∈ reg.judgeAll none ls, t.IsValid := by
    rw [← List.forall_mem_map, reg.map_unsettled_judgeAll none ls]
  have hclosing := closing_judgeAll_le reg none 0 ls
  simp only [Nat.add_zero] at hclosing
  unfold balanced Matched
  rw [valid_settle, hu, reg.count_role_judgeAll none reg.role_judge_eq_open,
    reg.count_role_judgeAll none reg.role_judge_eq_close, ← hclosing]
  constructor
  · rintro ⟨h1, h2, h3⟩
    exact ⟨⟨h2, by omega⟩, h1⟩
  · rintro ⟨⟨h2, h3⟩, h1⟩
    exact ⟨h1, h2, by omega⟩

/-! ## putting together -/

theorem prefix_append_cases {α : Type} {front as bs : List α} (h : front <+: as ++ bs) :
    front <+: as ∨ ∃ rest, front = as ++ rest ∧ rest <+: bs := by
  rcases List.prefix_or_prefix_of_prefix h (List.prefix_append as bs) with h1 | ⟨rest, rfl⟩
  · exact .inl h1
  · exact .inr ⟨rest, rfl, (List.prefix_append_right_inj as).mp h⟩

namespace Matched
variable {ks ms : List Lexeme.Kind}

theorem singleton {k : Lexeme.Kind} (ho : k ≠ .openParen) (hc : k ≠ .closeParen) :
    Matched [k] := by
  refine ⟨fun front hf => ?_, ?_⟩
  · rcases List.prefix_cons_iff.mp hf with rfl | ⟨front, rfl, hfront⟩
    · exact Nat.le_refl _
    · rw [List.prefix_nil.mp hfront, List.count_cons_of_ne hc]
      exact Nat.zero_le _
  · rw [List.count_cons_of_ne ho, List.count_cons_of_ne hc]
    rfl

theorem append (hk : Matched ks) (hm : Matched ms) : Matched (ks ++ ms) := by
  refine ⟨fun front hf => ?_, ?_⟩
  · rcases prefix_append_cases hf with h | ⟨rest, rfl, h⟩
    · exact hk.1 front h
    · have hrest := hm.1 rest h
      have hall := hk.2
      rw [List.count_append, List.count_append]
      omega
  · rw [List.count_append, List.count_append, hk.2, hm.2]

theorem group (h : Matched ks) : Matched (.openParen :: (ks ++ [.closeParen])) := by
  refine ⟨fun front hf => ?_, ?_⟩
  · rcases List.prefix_cons_iff.mp hf with rfl | ⟨front, rfl, hfront⟩
    · exact Nat.le_refl _
    rw [List.count_cons_self, List.count_cons_of_ne (by decide)]
    rcases prefix_append_cases hfront with hin | ⟨rest, rfl, hrest⟩
    · have hle := h.1 front hin
      omega
    · -- all of the list, and the closing parenthesis or not
      have hone := hrest.sublist.count_le .closeParen
      have hall := h.2
      rw [List.count_singleton_self] at hone
      rw [List.count_append, List.count_append]
      omega
  · have hall := h.2
    rw [List.count_cons_self, List.count_cons_of_ne (by decide), List.count_append,
      List.count_append, List.count_singleton_self, hall]
    rfl

theorem of_filter {p : Lexeme.Kind → Bool} (ho : p .openParen) (hc : p .closeParen)
    (h : Matched (ks.filter p)) : Matched ks := by
  refine ⟨fun front hf => ?_, ?_⟩
  · have hle := h.1 _ (hf.filter p)
    rwa [List.count_filter hc, List.count_filter ho] at hle
  · have he := h.2
    rwa [List.count_filter hc, List.count_filter ho] at he

end Matched

end FilterQuery
