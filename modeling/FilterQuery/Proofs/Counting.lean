import FilterQuery.Proofs.Pairing
import FilterQuery.Proofs.Surroundings
import Mathlib.Data.List.Infix

/-!
# Parentheses counted

Which parentheses have no partner, told by counting over parts of the list.

* `excess up down rs`     how many `up` of a list are left when each `down` takes one of those behind it;
* `excess_le_iff`         no more than there are in some beginning beyond its `down`;
* `closing_le_iff`, `openBehind_le_iff`   so the numbers that settling carries to and fro are maxima
  over beginnings and ends;
* `Token.counted`         the verdict of a token between two lists, by counting;
* `faultyOpen_pairwise`, `mem_faultyOpen`, `countP_settle`   what the outcome says of the verdicts;
* `Balance.inPlace?_counted`    every verdict is the counted one, whatever was there before.
-/

namespace FilterQuery

/-! ## excess -/

def excess (up down : Role) (rs : List Role) : Nat :=
  rs.foldr (fun r n => if r = up then n + 1 else if r = down then n - 1 else n) 0

theorem excess_cons (up down r : Role) (rs : List Role) :
    excess up down (r :: rs) =
      if r = up then excess up down rs + 1 else if r = down then excess up down rs - 1
      else excess up down rs := rfl

theorem forall_prefix_cons {α : Type} {a : α} {as : List α} {P : List α → Prop} :
    (∀ front, front <+: a :: as → P front) ↔ P [] ∧ ∀ front, front <+: as → P (a :: front) := by
  constructor
  · intro h
    exact ⟨h [] List.nil_prefix, fun front hf => h _ ((List.prefix_cons_inj a).mpr hf)⟩
  · rintro ⟨h, h'⟩ front hf
    rcases List.prefix_cons_iff.mp hf with rfl | ⟨front, rfl, hfront⟩
    · exact h
    · exact h' front hfront

theorem forall_prefix_iff_take {α : Type} {as : List α} {P : List α → Prop} :
    (∀ front, front <+: as → P front) ↔ ∀ n, P (as.take n) := by
  constructor
  · intro h n
    exact h _ (List.take_prefix n as)
  · intro h front hf
    rw [List.prefix_iff_eq_take.mp hf]
    exact h front.length

/-- **At most `n` are left** iff no beginning has more than that beyond what it takes. -/
theorem excess_le_iff {up down : Role} (hne : up ≠ down) (n : Nat) (rs : List Role) :
    excess up down rs ≤ n ↔ ∀ front, front <+: rs → front.count up ≤ front.count down + n := by
  induction rs generalizing n with
  | nil =>
    constructor
    · intro _ front hf
      rw [List.prefix_nil.mp hf]
      exact Nat.zero_le _
    · intro _
      exact Nat.zero_le _
  | cons r rs ih =>
    rw [forall_prefix_cons, excess_cons]
    by_cases hup : r = up
    · subst hup
      rw [if_pos rfl]
      cases n with
      | zero =>
        constructor
        · intro h
          exact absurd h (Nat.not_succ_le_zero _)
        · rintro ⟨-, h⟩
          have h0 := h [] List.nil_prefix
          rw [List.count_singleton_self, List.count_cons_of_ne hne] at h0
          exact absurd h0 (Nat.not_succ_le_zero _)
      | succ n =>
        rw [Nat.add_le_add_iff_right, ih]
        simp [hne, ← Nat.add_assoc]
    · rw [if_neg hup]
      by_cases hdown : r = down
      · subst hdown
        rw [if_pos rfl, Nat.sub_le_iff_le_add, ih]
        simp [hup, Nat.add_assoc, Nat.add_comm 1 n]
      · rw [if_neg hdown, ih]
        simp [hup, hdown]

theorem closing_eq_excess (ts : List Token) :
    closing ts = excess .closeParen .openParen (ts.map Token.role) := by
  induction ts with
  | nil => rfl
  | cons t ts ih =>
    rw [List.map_cons, excess_cons, ← ih, closing]
    cases t.role <;> rfl

theorem openBehind_eq_excess (ts : List Token) :
    openBehind 0 ts = excess .openParen .closeParen (ts.map Token.role).reverse := by
  unfold openBehind excess
  rw [List.foldr_reverse, List.foldl_map]
  congr 1
  funext n t
  cases t.role <;> rfl

/-! ## beginnings and ends -/

/-- the closing parentheses without a partner, counted over all beginnings -/
theorem closing_le_iff (n : Nat) (ts : List Token) :
    closing ts ≤ n ↔ ∀ front, front <+: ts.map Token.role →
      front.count .closeParen ≤ front.count .openParen + n := by
  rw [closing_eq_excess, excess_le_iff (by decide)]

theorem openBehind_le_iff (n : Nat) (ts : List Token) :
    openBehind 0 ts ≤ n ↔ ∀ back, back <:+ ts.map Token.role →
      back.count .openParen ≤ back.count .closeParen + n := by
  rw [openBehind_eq_excess, excess_le_iff (by decide)]
  constructor
  · intro h back hb
    have hle := h back.reverse (List.reverse_prefix.mpr hb)
    rwa [List.count_reverse, List.count_reverse] at hle
  · intro h front hf
    have hle := h front.reverse (List.reverse_prefix.mp (by rwa [List.reverse_reverse]))
    rwa [List.count_reverse, List.count_reverse] at hle

/-! ## verdicts -/

/-- The token with the verdict that counting gives it between two lists.  An opening parenthesis has no
partner if no part that starts behind it closes more than it opens, and a closing one has none if no
part that ends in front of it opens more than it closes. -/
def Token.counted (front back : List Token) (t : Token) : Token :=
  match t.role with
  | .openParen =>
    { t with
      fault :=
        if ∀ part ∈ (back.map Token.role).inits, part.count .closeParen ≤ part.count .openParen then
          some .unmatchedOpen
        else none }
  | .closeParen =>
    { t with
      fault :=
        if ∀ part ∈ (front.map Token.role).tails, part.count .openParen ≤ part.count .closeParen then
          some .unmatchedClose
        else none }
  | _ => t

theorem Token.settled_eq_counted (front back : List Token) (t : Token) :
    t.settled (openBehind 0 front) (closing back) = t.counted front back := by
  have hopened : openBehind 0 front = 0 ↔
      ∀ part ∈ (front.map Token.role).tails, part.count .openParen ≤ part.count .closeParen := by
    rw [← Nat.le_zero, openBehind_le_iff]
    simp only [List.mem_tails, Nat.add_zero]
  have hclosed : closing back = 0 ↔
      ∀ part ∈ (back.map Token.role).inits, part.count .closeParen ≤ part.count .openParen := by
    rw [← Nat.le_zero, closing_le_iff]
    simp only [List.mem_inits, Nat.add_zero]
  cases t with
  | mk role text span fault resolution =>
    cases role with
    | openParen => simp only [settled, counted, hclosed]
    | closeParen => simp only [settled, counted, hopened]
    | _ => rfl

/-- **Every token of a settled list carries the counted verdict.** -/
theorem balanced_eq_mapIdx (ts : List Token) :
    balanced ts = ts.mapIdx (fun i t => t.counted (ts.take i) (ts.drop (i + 1))) := by
  refine List.ext_getElem? (fun i => ?_)
  rw [List.getElem?_mapIdx]
  refine (getElem?_settle 0 ts i).trans (Option.map_congr (fun t _ => ?_))
  exact t.settled_eq_counted (ts.take i) (ts.drop (i + 1))

/-! ## the outcome -/

theorem faultyOpen_eq_filter (n : Nat) (ts : List Token) :
    faultyOpen n ts =
      ((ts.zipIdx n).filter (fun p => p.1.role = .openParen ∧ p.1.fault.isSome)).map Prod.snd := by
  induction ts generalizing n with
  | nil => rfl
  | cons t ts ih =>
    rw [List.zipIdx_cons, List.filter_cons, faultyOpen, ih]
    by_cases h : t.role = .openParen ∧ t.fault.isSome
    · rw [if_pos h, if_pos (decide_eq_true h), List.map_cons]
    · rw [if_neg h, if_neg (by simpa using h)]

theorem mem_faultyOpen {i : Nat} {ts : List Token} :
    i ∈ faultyOpen 0 ts ↔ ∃ t, ts[i]? = some t ∧ t.role = .openParen ∧ t.fault.isSome := by
  rw [faultyOpen_eq_filter, List.mem_map]
  constructor
  · rintro ⟨⟨t, j⟩, h, rfl⟩
    obtain ⟨hmem, hp⟩ := List.mem_filter.mp h
    exact ⟨t, List.mem_zipIdx_iff_getElem?.mp hmem, of_decide_eq_true hp⟩
  · rintro ⟨t, ht, hp⟩
    exact ⟨(t, i), List.mem_filter.mpr ⟨List.mem_zipIdx_iff_getElem?.mpr ht, decide_eq_true hp⟩, rfl⟩

theorem faultyOpen_pairwise (n : Nat) (ts : List Token) : (faultyOpen n ts).Pairwise (· < ·) := by
  rw [faultyOpen_eq_filter]
  refine List.Pairwise.sublist (List.filter_sublist.map Prod.snd) ?_
  rw [List.zipIdx_map_snd]
  exact List.pairwise_lt_range'

/-- behind `opened` open parentheses, so many fewer closing ones are at fault -/
theorem countP_settle (opened : Nat) (ts : List Token) :
    (settle opened ts).1.countP (fun t => t.role = .closeParen ∧ t.fault = some .unmatchedClose) =
      closing ts - opened := by
  induction ts generalizing opened with
  | nil => exact (Nat.zero_sub opened).symm
  | cons t ts ih =>
    rw [fst_settle_cons, List.countP_cons, ih, Token.role_settled, closing]
    unfold Token.settled
    cases hr : t.role with
    | openParen => simp [openAfter, Nat.sub_sub, Nat.add_comm]
    | closeParen =>
      cases opened with
      | zero => simp [openAfter]
      | succ n => simp [openAfter]
    | _ => simp [openAfter]

/-- **An outcome that says what counting says.** -/
structure Balance.Counted (b : Balance) (ts : List Token) : Prop where
  tokens_eq : b.tokens = ts.mapIdx (fun i t => t.counted (ts.take i) (ts.drop (i + 1)))
  /-- of a token nothing changes but the fault -/
  kept : ∀ {β : Type} (f : Token → β), (∀ t e, f { t with fault := e } = f t) →
    b.tokens.map f = ts.map f
  increasing : b.unmatchedOpen.Pairwise (· < ·)
  mem_unmatchedOpen : ∀ i, i ∈ b.unmatchedOpen ↔
    ∃ t, b.tokens[i]? = some t ∧ t.role = .openParen ∧ t.fault = some .unmatchedOpen
  unmatchedClose_eq : b.unmatchedClose =
    b.tokens.countP (fun t => t.role = .closeParen ∧ t.fault = some .unmatchedClose)

theorem Balance.counted_of (ts : List Token) : (Balance.of ts).Counted ts where
  tokens_eq := balanced_eq_mapIdx ts
  kept f hf := map_settle f hf 0 ts
  increasing := faultyOpen_pairwise 0 (balanced ts)
  mem_unmatchedOpen i := by
    refine mem_faultyOpen.trans (exists_congr (fun t => and_congr_right (fun ht =>
      and_congr_right (fun hr => ⟨fun hsome => ?_, fun hf => by rw [hf]; rfl⟩))))
    obtain ⟨f, hf⟩ := Option.isSome_iff_exists.mp hsome
    rw [hf, fault_of_mem_settle (List.mem_of_getElem? ht) hr hf]
  unmatchedClose_eq := (settle_snd 0 ts).trans (countP_settle 0 ts).symm

theorem Balance.of_balanced (ts : List Token) : Balance.of (balanced ts) = Balance.of ts := by
  have htokens : (settle 0 (balanced ts)).1 = (settle 0 ts).1 := settled_balanced ts
  have hclosing : (settle 0 (balanced ts)).2 = (settle 0 ts).2 := by
    rw [settle_snd, settle_snd]
    exact closing_congr (map_settle Token.role (fun _ _ => rfl) 0 ts)
  unfold Balance.of
  rw [Prod.ext htokens hclosing]

/-- **Pairing parentheses finds what counting finds**, in any list of tokens with any verdicts, and
finds it once more in its own outcome. -/
theorem Balance.inPlace?_counted (ts : List Token) :
    ∃ b, Balance.inPlace? ts = some b ∧ Balance.of ts = b ∧ b.Counted ts ∧
      Balance.inPlace? b.tokens = some b := by
  refine ⟨Balance.of ts, Balance.inPlace?_eq ts, rfl, Balance.counted_of ts, ?_⟩
  rw [Balance.inPlace?_eq]
  exact congrArg some (Balance.of_balanced ts)

end FilterQuery
