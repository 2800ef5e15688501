import FilterQuery.Proofs.Drafts
import FilterQuery.Proofs.Pairing
import FilterQuery.Proofs.Patchwork
import FilterQuery.Proofs.Takeover

/-!
# Edits are refused for a reason, and otherwise succeed

* `Text.Inside s n`        the offset `n` is strictly inside a character of `s`;
* `Edit.Refused e s x`     `x` is what is wrong with an edit of `s`, `Query.AcceptRefused` the same of
  a suggestion;
* `Query.editInPlace_eq`   an edit in place finds all that it asks for, and gives what `Query.edit`
  gives; `acceptInPlace_eq` is the same of a suggestion;
* `Query.Exact`            an outcome is an error for a reason only, which changes nothing, and is
  there otherwise;
* `Query.inPlace_exact`    so is every edit and every suggestion, of every query that edits lead to.
-/

namespace FilterQuery
open Text

/-! ## reasons -/

namespace Text

def Inside (s : Text) (n : Nat) : Prop :=
  ∃ front c back, s = front ++ c :: back ∧ byteLength front < n ∧
    n < byteLength front + c.utf8Size

theorem lt_of_dropBytes_eq_cons {s : Text} {n : Nat} {c : Char} {back : Text}
    (h : s.dropBytes n = c :: back) : n < byteLength (s.takeBytes n) + c.utf8Size := by
  induction s generalizing n with
  | nil => exact absurd h (by simp [dropBytes])
  | cons d s ih =>
    unfold dropBytes at h
    unfold takeBytes
    split at h
    · next hd =>
      have hlt := ih h
      rw [if_pos hd, byteLength_cons]
      omega
    · next hd =>
      obtain rfl := (List.cons.inj h).1
      rw [if_neg hd, byteLength_nil]
      omega

/-- **An offset that is not behind the end is a boundary or inside a character.** -/
theorem not_isBoundary_iff {s : Text} {n : Nat} (hn : n ≤ s.byteLength) :
    ¬ s.IsBoundary n ↔ s.Inside n := by
  constructor
  · intro h
    have hle := byteLength_takeBytes_le n s
    have hlt : byteLength (s.takeBytes n) < n := Nat.lt_of_le_of_ne hle h
    have hparts := takeBytes_append_dropBytes n s
    cases hdrop : s.dropBytes n with
    | nil =>
      rw [hdrop, List.append_nil] at hparts
      rw [hparts] at hlt
      omega
    | cons c back =>
      rw [hdrop] at hparts
      exact ⟨_, c, back, hparts.symm, hlt, lt_of_dropBytes_eq_cons hdrop⟩
  · rintro ⟨front, c, back, hs, hlt, hlt'⟩ h
    obtain ⟨a, b, hab, rfl⟩ := (isBoundary_iff s n).mp h
    obtain ⟨m, rfl, hm⟩ := exists_of_append_eq_append (hs.symm.trans hab) (Nat.le_of_lt hlt)
    rw [byteLength_append] at hlt hlt'
    cases m with
    | nil => exact absurd hlt (Nat.lt_irrefl _)
    | cons d m =>
      obtain rfl := (List.cons.inj hm).1
      rw [byteLength_cons] at hlt'
      omega

end Text

/-- what is wrong with an edit of a text, in the order in which it is found -/
inductive Edit.Refused (e : Edit) (s : Text) : EditError → Prop where
  | outOfBounds (h : e.range.stop < e.range.start ∨ s.byteLength < e.range.stop) :
      Refused e s (.outOfBounds e.range.start e.range.stop s.byteLength)
  | start (hle : e.range.start ≤ e.range.stop) (hlength : e.range.stop ≤ s.byteLength)
      (h : s.Inside e.range.start) : Refused e s (.insideCharacter e.range.start)
  | stop (hle : e.range.start ≤ e.range.stop) (hlength : e.range.stop ≤ s.byteLength)
      (hstart : ¬ s.Inside e.range.start) (h : s.Inside e.range.stop) :
      Refused e s (.insideCharacter e.range.stop)

theorem Edit.Refused.check_eq {e : Edit} {s : Text} {x : EditError} (h : e.Refused s x) :
    e.check s = .error x := by
  unfold Edit.check
  cases h with
  | outOfBounds h => rw [if_pos h]
  | start hle hlength h =>
    have hstart := (not_isBoundary_iff (Nat.le_trans hle hlength)).mpr h
    rw [if_neg (by omega), if_pos hstart]
  | stop hle hlength hstart h =>
    rw [← not_isBoundary_iff (Nat.le_trans hle hlength)] at hstart
    rw [if_neg (by omega), if_neg hstart, if_pos ((not_isBoundary_iff hlength).mpr h)]

theorem Edit.refused_of_check {e : Edit} {s : Text} {x : EditError} (h : e.check s = .error x) :
    e.Refused s x := by
  unfold Edit.check at h
  split at h
  · next hbounds =>
    obtain rfl := Except.error.inj h
    exact .outOfBounds hbounds
  next hbounds =>
  obtain ⟨hle, hlength⟩ : e.range.start ≤ e.range.stop ∧ e.range.stop ≤ s.byteLength := by omega
  have hstart := not_isBoundary_iff (Nat.le_trans hle hlength)
  split at h
  · next hinside =>
    obtain rfl := Except.error.inj h
    exact .start hle hlength (hstart.mp hinside)
  next houtside =>
  split at h
  · next hinside =>
    obtain rfl := Except.error.inj h
    exact .stop hle hlength (mt hstart.mpr houtside) ((not_isBoundary_iff hlength).mp hinside)
  · exact absurd h (by simp)

/-- **The check of an edit** finds what is wrong with it, and nothing else. -/
theorem Edit.check_eq_error_iff {e : Edit} {s : Text} {x : EditError} :
    e.check s = .error x ↔ e.Refused s x :=
  ⟨Edit.refused_of_check, fun h => h.check_eq⟩

/-! ## edits in place -/

namespace Query
variable {reg : Registry} {q : Query}

/-- the query after an outcome, which is the same one after an error -/
def afterwards {α : Type} (q : Query) : Except EditError (Query × α) → Query × Except EditError α
  | .error x => (q, .error x)
  | .ok (q', a) => (q', .ok a)

theorem afterwards_eq_ok_iff {α : Type} {r : Except EditError (Query × α)} {q' : Query} {a : α} :
    q.afterwards r = (q', .ok a) ↔ r = .ok (q', a) := by
  rcases r with x | ⟨q'', b⟩ <;> simp [afterwards]

theorem afterwards_eq_error_iff {α : Type} {r : Except EditError (Query × α)} {q' : Query}
    {x : EditError} : q.afterwards r = (q', .error x) ↔ r = .error x ∧ q' = q := by
  rcases r with y | ⟨q'', b⟩ <;> simp [afterwards, and_comm, eq_comm]

/-- reading starts at a boundary of the new text -/
theorem exists_origin (reg : Registry) {e : Edit} (k : e.Cut q.source)
    (h : Lexed (lex q.source) q.tokens) :
    ∃ a rest, e.apply q.source = a ++ rest ∧
      (q.tokens[(untouched e.range.start q.tokens).length]?.map (fun t => t.span.start)).getD 0 =
        byteLength a := by
  obtain ⟨p⟩ := exists_splicing reg q k h
  have hall := flatMap_text_lex k.result
  rw [p.new_eq, List.flatMap_append] at hall
  refine ⟨_, _, k.apply_eq.trans hall.symm, ?_⟩
  have horigin := congrArg (fun c => c.extent.start) p.change_eq
  rw [← List.head?_drop]
  exact horigin

/-- **An edit in place** finds all that it asks for, and does what `Query.edit` does. -/
theorem editInPlace_eq (reg : Registry) (h : Lexed (lex q.source) q.tokens) (e : Edit) :
    q.editInPlace reg e = some (q.afterwards (q.edit reg e)) := by
  cases hcheck : e.check q.source with
  | error x =>
    unfold editInPlace edit
    rw [hcheck]
    rfl
  | ok _ =>
    obtain ⟨k⟩ := Edit.check_eq_ok_iff.mp hcheck
    have hexchange := k.exchange?_eq
    have htouched := h.partitionPoint?_eq e.range.start
    have hfirst := (length_untouched e.range.start q.tokens).symm
    obtain ⟨tail, htokens⟩ := untouched_prefix e.range.start q.tokens
    obtain ⟨a, rest, hsource, horigin⟩ := exists_origin reg k h
    generalize hhead : untouched e.range.start q.tokens = head at hfirst htokens horigin
    have hrole := roleInFront?_append head tail
    -- reading on, from the first token that the edit can reach
    have hpassed : Passed e tail (byteLength a) 0 := ⟨Nat.zero_le _, fun t ht => by simp at ht⟩
    obtain ⟨gone, htail, hread⟩ := readOn?_eq head reg rfl rest (lastRole none head) hpassed
    generalize hr : reg.rescan (e.keepable (lastRole none head) tail) (lastRole none head)
      (byteLength a) rest = r at htail hread
    obtain ⟨read, kept⟩ := r
    dsimp only at htail hread
    rw [← hsource, htokens, Nat.add_zero] at hread
    -- the tokens that go, those in their place and those behind
    have hremoved := segment?_append head gone kept
    have hspliced := exchangeSegment?_append head gone kept read
    have hmoved := moveFrom?_append (head ++ read) kept e.delta
    rw [List.length_append] at hmoved
    rw [← htail, htokens] at hremoved hspliced
    have hsplice := splice_eq reg rfl hhead (by rw [← htokens, List.drop_left]) (by
      rw [← horigin, ← htokens, List.getElem?_append_right (Nat.le_refl _), Nat.sub_self,
        List.head?_eq_getElem?]) (by rw [hsource, dropBytes_byteLength_append]) hr htail
    rw [q.edit_of_cut reg k, hsplice]
    rw [htokens] at hrole
    unfold editInPlace
    rw [hcheck]
    simp only [hexchange, htouched, hfirst, horigin, hrole, hread, hremoved, hspliced, hmoved,
      Option.bind_eq_bind, Option.bind_some]
    split
    · rw [resettle?_eq, List.append_assoc]
      rfl
    · rw [List.append_assoc]
      rfl

theorem acceptInPlace_eq (reg : Registry) (h : Lexed (lex q.source) q.tokens) (i : Nat) (f : Field) :
    q.acceptInPlace reg i f = some (q.afterwards
      ((q.accept reg i f).map (fun (caret, q', c) => (q', caret, c)))) := by
  unfold acceptInPlace accept
  cases q.tokens[i]? with
  | none => rfl
  | some t =>
    dsimp only
    split
    · rw [editInPlace_eq reg h]
      cases q.edit reg ⟨t.span, f.name⟩ <;> rfl
    · rfl

/-! ## refusals -/

theorem edit_eq_error_iff {e : Edit} {x : EditError} :
    q.edit reg e = .error x ↔ e.Refused q.source x := by
  rw [← Edit.check_eq_error_iff]
  unfold edit
  cases e.check q.source with
  | error y => simp
  | ok _ => exact ⟨fun h => absurd h (by simp), fun h => absurd h (by simp)⟩

/-- what is wrong with accepting a field for the token at an index -/
inductive AcceptRefused (q : Query) (i : Nat) : EditError → Prop where
  | noToken (h : q.tokens.length ≤ i) : AcceptRefused q i (.noToken i)
  | notAField {t : Token} (ht : q.tokens[i]? = some t) (hr : t.role ≠ .field) :
    AcceptRefused q i (.notAField i)

theorem accept_eq_error_iff (reg : Registry) (h : Lexed (lex q.source) q.tokens) {i : Nat}
    (f : Field) {x : EditError} : q.accept reg i f = .error x ↔ q.AcceptRefused i x := by
  unfold accept
  constructor
  · intro hx
    split at hx
    · next hnone =>
      obtain rfl := Except.error.inj hx
      exact .noToken (List.getElem?_eq_none_iff.mp hnone)
    · next t ht =>
      split at hx
      · -- the range of a token fits
        obtain ⟨k, -⟩ := exists_cut_of_token h ht f.name
        rw [q.edit_of_cut reg k] at hx
        exact absurd hx (by simp)
      · next hr =>
        obtain rfl := Except.error.inj hx
        exact .notAField ht hr
  · intro hx
    cases hx with
    | noToken hi => rw [List.getElem?_eq_none_iff.mpr hi]
    | notAField ht hr =>
      rw [ht]
      exact if_neg hr

/-- The outcome in place is an error for a reason only, and then the query is the same; without a
reason the outcome is there and no error. -/
structure Exact {α : Type} (q : Query) (Refused : EditError → Prop)
    (outcome : Option (Query × Except EditError α)) : Prop where
  error_iff : ∀ q' x, outcome = some (q', .error x) ↔ Refused x ∧ q' = q
  succeeds : (∀ x, ¬ Refused x) → ∃ q' a, outcome = some (q', .ok a)

theorem Exact.of_except {α : Type} {Refused : EditError → Prop} {r : Except EditError (Query × α)}
    (hr : ∀ x, r = .error x ↔ Refused x) : q.Exact Refused (some (q.afterwards r)) where
  error_iff q' x := by rw [Option.some.injEq, afterwards_eq_error_iff, hr]
  succeeds h := by
    rcases r with x | ⟨q', a⟩
    · exact absurd ((hr x).mp rfl) (h x)
    · exact ⟨q', a, rfl⟩

/-- **Errors are exact.**  An edit in place of a query that edits lead to, whatever the registries,
is refused for its reason only and then changes nothing; otherwise it finds all that it asks for, and
gives what `Query.edit` gives.  So it is with suggestions. -/
theorem inPlace_exact (reg : Registry) (s : Text) (steps : List (Registry × Edit))
    (reg' : Registry) :
    let q := (ofText reg s).amendAll steps
    (∀ e : Edit, q.Exact (e.Refused q.source) (q.editInPlace reg' e) ∧
      ∀ q' c, q.editInPlace reg' e = some (q', .ok c) ↔ q.edit reg' e = .ok (q', c)) ∧
    ∀ (i : Nat) (f : Field), q.Exact (q.AcceptRefused i) (q.acceptInPlace reg' i f) ∧
      ∀ q' caret c, q.acceptInPlace reg' i f = some (q', .ok (caret, c)) ↔
        q.accept reg' i f = .ok (caret, q', c) := by
  intro q
  have hlexed : Lexed (lex q.source) q.tokens := ((consistent_ofText reg s).amendAll steps).patched.lexed
  refine ⟨fun e => ?_, fun i f => ?_⟩
  · rw [editInPlace_eq reg' hlexed e]
    exact ⟨.of_except (fun _ => edit_eq_error_iff), fun q' c => by
      rw [Option.some.injEq, afterwards_eq_ok_iff]⟩
  · rw [acceptInPlace_eq reg' hlexed i f]
    refine ⟨.of_except (fun x => ?_), fun q' caret c => ?_⟩
    · rw [← accept_eq_error_iff reg' hlexed f]
      cases q.accept reg' i f <;> simp [Except.map]
    · rw [Option.some.injEq, afterwards_eq_ok_iff]
      rcases q.accept reg' i f with x | ⟨caret', q'', c'⟩ <;> simp [Except.map, and_left_comm]

end Query

end FilterQuery
