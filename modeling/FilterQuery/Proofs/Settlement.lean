import FilterQuery.Parentheses

/-!
# Settled parentheses

The verdict of a parenthesis depends on the roles around it alone: on the number of open ones in
front of it and of closing ones without a partner behind it.

* `Token.settled o c t`   one token with `o` open ones in front and `c` closing ones behind;
* `Token.relocate`        a token at another place, which changes no verdict (`settle_map_relocate`);
* `Token.unsettled`       a token with the verdict of a parenthesis taken away; a list settles the
  same with and without the verdicts it already has (`settle_map_unsettled`);
* `Settled o ts`          every verdict in `ts` is the one that settling gives;
* `Settled.exchange`      parts without parentheses may be exchanged in a settled list.
-/

namespace FilterQuery

/-! ## one token -/

/-- the number of open parentheses behind a role -/
def openAfter (opened : Nat) : Role → Nat
  | .openParen => opened + 1
  | .closeParen => opened - 1
  | _ => opened

namespace Token

/-- the token judged behind `opened` open parentheses, in front of `closed` closing ones that have
no partner there -/
def settled (opened closed : Nat) (t : Token) : Token :=
  match t.role with
  | .openParen => { t with fault := if closed = 0 then some .unmatchedOpen else none }
  | .closeParen => { t with fault := if opened = 0 then some .unmatchedClose else none }
  | _ => t

/-- the same token at another place -/
def relocate (place : Span → Span) (t : Token) : Token := { t with span := place t.span }

/-- the token without the verdict that settling gives -/
def unsettled (t : Token) : Token := if t.role.isParen then { t with fault := none } else t

theorem unsettled_of_not_paren {t : Token} (h : t.role.isParen = false) : t.unsettled = t := by
  unfold unsettled
  rw [h]
  rfl

theorem settled_of_not_paren {t : Token} (opened closed : Nat) (h : t.role.isParen = false) :
    t.settled opened closed = t := by
  unfold settled
  split
  · next hr => rw [hr] at h; exact absurd h (by decide)
  · next hr => rw [hr] at h; exact absurd h (by decide)
  · rfl

@[simp] theorem role_unsettled (t : Token) : t.unsettled.role = t.role := by
  unfold unsettled
  split <;> rfl

@[simp] theorem text_unsettled (t : Token) : t.unsettled.text = t.text := by
  unfold unsettled
  split <;> rfl

@[simp] theorem span_unsettled (t : Token) : t.unsettled.span = t.span := by
  unfold unsettled
  split <;> rfl

@[simp] theorem resolution_unsettled (t : Token) : t.unsettled.resolution = t.resolution := by
  unfold unsettled
  split <;> rfl

theorem unsettled_shift (t : Token) (d : Int) : (t.shift d).unsettled = t.unsettled.shift d := by
  unfold unsettled
  show (if t.role.isParen then _ else _) = _
  split <;> rfl

theorem settled_unsettled (opened closed : Nat) (t : Token) :
    t.unsettled.settled opened closed = t.settled opened closed := by
  by_cases h : t.role.isParen
  · have e : t.unsettled = { t with fault := none } := if_pos h
    rw [e]
    unfold settled
    split <;> simp_all [Role.isParen]
  · rw [unsettled_of_not_paren (by simpa using h)]

theorem unsettled_settled (opened closed : Nat) (t : Token) :
    (t.settled opened closed).unsettled = t.unsettled := by
  unfold settled
  split
  · next hr => simp [unsettled, hr, Role.isParen]
  · next hr => simp [unsettled, hr, Role.isParen]
  · rfl

theorem settled_span_update (opened closed : Nat) (t : Token) (a : Span) :
    { t with span := a }.settled opened closed = { t.settled opened closed with span := a } := by
  unfold settled
  dsimp only
  split <;> rfl

theorem role_settled (opened closed : Nat) (t : Token) :
    (t.settled opened closed).role = t.role := by
  unfold settled
  split <;> rfl

theorem text_settled (opened closed : Nat) (t : Token) :
    (t.settled opened closed).text = t.text := by
  unfold settled
  split <;> rfl

theorem span_settled (opened closed : Nat) (t : Token) :
    (t.settled opened closed).span = t.span := by
  unfold settled
  split <;> rfl

theorem settled_relocate (opened closed : Nat) (place : Span → Span) (t : Token) :
    (t.relocate place).settled opened closed = (t.settled opened closed).relocate place := by
  unfold relocate
  rw [settled_span_update, span_settled]

end Token

/-! ## lists -/

theorem fst_settle_cons (opened : Nat) (t : Token) (ts : List Token) :
    (settle opened (t :: ts)).1
      = t.settled opened (closing ts) :: (settle (openAfter opened t.role) ts).1 := by
  rw [← settle_snd (openAfter opened t.role) ts]
  cases t with
  | mk role text span fault resolution => cases role <;> rfl

theorem closing_cons_congr {t u : Token} {ts us : List Token} (hr : t.role = u.role)
    (h : closing ts = closing us) : closing (t :: ts) = closing (u :: us) := by
  unfold closing
  rw [hr, h]

theorem closing_append_congr (hs : List Token) {ts us : List Token} (h : closing ts = closing us) :
    closing (hs ++ ts) = closing (hs ++ us) := by
  induction hs with
  | nil => exact h
  | cons t hs ih => exact closing_cons_congr rfl ih

theorem closing_congr {ts us : List Token} (h : ts.map Token.role = us.map Token.role) :
    closing ts = closing us := by
  induction ts generalizing us with
  | nil => rw [List.map_eq_nil_iff.mp h.symm]
  | cons t ts ih =>
    obtain ⟨u, us, rfl, hu, hus⟩ := List.map_eq_cons_iff.mp h.symm
    exact closing_cons_congr hu.symm (ih hus.symm)

theorem closing_map {f : Token → Token} (hf : ∀ t, (f t).role = t.role) (ts : List Token) :
    closing (ts.map f) = closing ts := by
  refine closing_congr ?_
  rw [List.map_map]
  exact List.map_congr_left (fun t _ => hf t)

theorem closing_map_shift (d : Int) (ts : List Token) :
    closing (ts.map (fun t => t.shift d)) = closing ts :=
  closing_map (f := fun t => t.shift d) (fun _ => rfl) ts

theorem closing_append_of_plain {ps : List Token} (h : ∀ t ∈ ps, t.role.isParen = false)
    (ts : List Token) : closing (ps ++ ts) = closing ts := by
  induction ps with
  | nil => rfl
  | cons t ps ih =>
    have ht := h t List.mem_cons_self
    rw [List.cons_append, closing, ih (fun u hu => h u (List.mem_cons_of_mem _ hu))]
    split
    · next hr => rw [hr] at ht; exact absurd ht (by decide)
    · next hr => rw [hr] at ht; exact absurd ht (by decide)
    · rfl

theorem openAfter_of_not_paren {r : Role} (opened : Nat) (h : r.isParen = false) :
    openAfter opened r = opened := by
  cases r <;> first | rfl | exact absurd h (by decide)

/-- verdicts that a list already has do not matter -/
theorem settle_map_unsettled (opened : Nat) (ts : List Token) :
    (settle opened (ts.map Token.unsettled)).1 = (settle opened ts).1 := by
  induction ts generalizing opened with
  | nil => rfl
  | cons t ts ih =>
    rw [List.map_cons, fst_settle_cons, fst_settle_cons, Token.settled_unsettled,
      closing_map Token.role_unsettled, Token.role_unsettled, ih]

theorem settle_map_relocate (opened : Nat) (place : Span → Span) (ts : List Token) :
    (settle opened (ts.map (Token.relocate place))).1 =
      (settle opened ts).1.map (Token.relocate place) := by
  induction ts generalizing opened with
  | nil => rfl
  | cons t ts ih =>
    rw [List.map_cons, fst_settle_cons, fst_settle_cons, Token.settled_relocate,
      closing_map (f := Token.relocate place) (fun _ => rfl), List.map_cons, ← ih]
    rfl

theorem map_unsettled_settle (opened : Nat) (ts : List Token) :
    (settle opened ts).1.map Token.unsettled = ts.map Token.unsettled := by
  induction ts generalizing opened with
  | nil => rfl
  | cons t ts ih =>
    rw [fst_settle_cons, List.map_cons, List.map_cons, Token.unsettled_settled, ih]

theorem balanced_map_unsettled (ts : List Token) :
    balanced (ts.map Token.unsettled) = balanced ts := settle_map_unsettled 0 ts

theorem map_unsettled_balanced (ts : List Token) :
    (balanced ts).map Token.unsettled = ts.map Token.unsettled := map_unsettled_settle 0 ts

/-! ## settled lists -/

/-- settling the list behind `opened` open parentheses changes nothing -/
def Settled (opened : Nat) (ts : List Token) : Prop := (settle opened ts).1 = ts

theorem settled_balanced (ts : List Token) : Settled 0 (balanced ts) := by
  show balanced (balanced ts) = balanced ts
  rw [← balanced_map_unsettled (balanced ts), map_unsettled_balanced, balanced_map_unsettled]

/-- a settled list is known from its tokens without verdicts -/
theorem Settled.eq_balanced {ts us : List Token} (h : Settled 0 ts)
    (he : ts.map Token.unsettled = us.map Token.unsettled) : ts = balanced us := by
  rw [← balanced_map_unsettled us, ← he, balanced_map_unsettled]
  exact h.symm

theorem settled_cons {opened : Nat} {t : Token} {ts : List Token} :
    Settled opened (t :: ts) ↔
      t.settled opened (closing ts) = t ∧ Settled (openAfter opened t.role) ts := by
  unfold Settled
  rw [fst_settle_cons]
  exact List.cons_eq_cons

theorem settled_append_of_plain {opened : Nat} {ps : List Token}
    (h : ∀ t ∈ ps, t.role.isParen = false) {ts : List Token} :
    Settled opened (ps ++ ts) ↔ Settled opened ts := by
  induction ps with
  | nil => rfl
  | cons t ps ih =>
    have ht := h t List.mem_cons_self
    rw [List.cons_append, settled_cons, Token.settled_of_not_paren _ _ ht,
      openAfter_of_not_paren _ ht, ih (fun u hu => h u (List.mem_cons_of_mem _ hu))]
    exact ⟨fun hs => hs.2, fun hs => ⟨rfl, hs⟩⟩

theorem Settled.map_shift {opened : Nat} {ts : List Token} (d : Int) (h : Settled opened ts) :
    Settled opened (ts.map (fun t => t.shift d)) :=
  (settle_map_relocate opened (fun a => a.shift d) ts).trans (congrArg (List.map _) h)

theorem Settled.append_congr {hs ts us : List Token} (hc : closing ts = closing us)
    (hsettled : ∀ o, Settled o ts → Settled o us) {opened : Nat} (h : Settled opened (hs ++ ts)) :
    Settled opened (hs ++ us) := by
  induction hs generalizing opened with
  | nil => exact hsettled opened h
  | cons t hs ih =>
    rw [List.cons_append] at h ⊢
    obtain ⟨ht, hts⟩ := settled_cons.mp h
    refine settled_cons.mpr ⟨?_, ih hts⟩
    rw [← closing_append_congr hs hc]
    exact ht

/-- **Where no parenthesis comes or goes, no verdict changes**, whatever else is put in the place
and however far the tokens behind it move. -/
theorem Settled.exchange {opened : Nat} {hs ps qs ts : List Token} (d : Int)
    (hp : ∀ t ∈ ps, t.role.isParen = false) (hq : ∀ t ∈ qs, t.role.isParen = false)
    (h : Settled opened (hs ++ (ps ++ ts))) :
    Settled opened (hs ++ (qs ++ ts.map (fun t => t.shift d))) := by
  refine Settled.append_congr ?_ (fun o ho => ?_) h
  · rw [closing_append_of_plain hp, closing_append_of_plain hq, closing_map_shift]
  · exact (settled_append_of_plain hq).mpr (((settled_append_of_plain hp).mp ho).map_shift d)

end FilterQuery
