import FilterQuery.InPlace
import FilterQuery.Proofs.Cut
import FilterQuery.Proofs.Settlement
import Mathlib.Data.List.Induction

/-!
# Parts that are there

What is asked for at the seams of a text or of a list is given.

* `Text.from?_append`, `Text.part?_append`, `Edit.Cut.exchange?_eq`   texts put together from parts;
* `lexemeAt?_append`           the lexeme that a character opens is the one that `munch` takes;
* `segment?_append`, `exchangeSegment?_append`, `moveFrom?_append`    the same of lists;
* `partitionPoint?_eq`         a search by halves in a list that a test divides;
* `roleInFront?_append`, `passTo_eq`   what is in front of a token, and which token is the next one.
-/

namespace FilterQuery

/-! ## texts -/

namespace Text

theorem isBoundary_append (a b : Text) : (a ++ b).IsBoundary (byteLength a) :=
  (isBoundary_iff _ _).mpr ⟨a, b, rfl, rfl⟩

theorem from?_append (a b : Text) : (a ++ b).from? (byteLength a) = some b := by
  unfold from?
  rw [if_pos (isBoundary_append a b), dropBytes_byteLength_append]

theorem part?_append (a b c : Text) :
    (a ++ (b ++ c)).part? ⟨byteLength a, byteLength (a ++ b)⟩ = some b := by
  have hstart := isBoundary_append a (b ++ c)
  have hstop := isBoundary_append (a ++ b) c
  rw [List.append_assoc] at hstop
  have hle : byteLength a ≤ byteLength (a ++ b) := by
    rw [byteLength_append]
    exact Nat.le_add_right _ _
  have hlength : Span.length ⟨byteLength a, byteLength (a ++ b)⟩ = byteLength b := by
    show byteLength (a ++ b) - byteLength a = _
    rw [byteLength_append, Nat.add_sub_cancel_left]
  unfold part?
  rw [if_pos ⟨hle, hstart, hstop⟩, hlength, dropBytes_byteLength_append,
    takeBytes_byteLength_append]

theorem peek?_append (a b : Text) : (a ++ b).peek? (byteLength a) = some b.head? := by
  unfold peek?
  rw [from?_append]
  rfl

theorem runEnd?_append (p : Char → Bool) (a b : Text) :
    (a ++ b).runEnd? p (byteLength a) = some (byteLength (a ++ b.takeWhile p)) := by
  induction b generalizing a with
  | nil =>
    rw [runEnd?]
    split
    · next h => exact absurd ((peek?_append a []).symm.trans h) (by simp)
    · rw [List.takeWhile_nil, List.append_nil]
    · next c h => exact absurd ((peek?_append a []).symm.trans h) (by simp)
  | cons d b ih =>
    have hpeek := peek?_append a (d :: b)
    rw [runEnd?]
    split
    · next h => exact absurd (hpeek.symm.trans h) (by simp)
    · next h => exact absurd (hpeek.symm.trans h) (by simp)
    · next c h =>
      obtain rfl : d = c := by simpa using hpeek.symm.trans h
      split
      · next hp =>
        have hnext := ih (a ++ [d])
        rw [byteLength_append, List.append_assoc, List.append_assoc] at hnext
        rw [List.takeWhile_cons_of_pos hp]
        exact hnext
      · next hp => rw [List.takeWhile_cons_of_neg hp, List.append_nil]

end Text

open Text

theorem Edit.Cut.exchange?_eq {e : Edit} {s : Text} (k : e.Cut s) :
    s.exchange? e.range e.replacement = some (e.apply s) := by
  have hstart := isBoundary_append k.front (k.removed ++ k.back)
  have hstop := isBoundary_append (k.front ++ k.removed) k.back
  rw [← List.append_assoc, ← k.text_eq, k.start_eq] at hstart
  rw [← k.text_eq, k.stop_eq] at hstop
  have hle : e.range.start ≤ e.range.stop := by
    rw [← k.start_eq, ← k.stop_eq, byteLength_append]
    exact Nat.le_add_right _ _
  unfold Text.exchange?
  rw [if_pos ⟨hle, hstart, hstop⟩]
  rfl

/-! ## lexemes -/

theorem literalEnd?_append (a s : Text) :
    literalEnd? (a ++ '"' :: s) (byteLength (a ++ ['"'])) =
      some ((Munch.literal s).kind, byteLength (a ++ (Munch.literal s).text)) := by
  have hrun := runEnd?_append (· != '"') (a ++ ['"']) s
  have hpeek := peek?_append (a ++ ['"'] ++ s.takeWhile (· != '"')) (s.dropWhile (· != '"'))
  rw [List.append_assoc (a ++ ['"']), List.takeWhile_append_dropWhile] at hpeek
  rw [List.append_assoc a, List.singleton_append] at hrun hpeek
  unfold literalEnd?
  simp only [Option.bind_eq_bind, hrun, Option.bind_some, hpeek]
  unfold Munch.literal
  cases hrest : s.dropWhile (· != '"') with
  | nil =>
    have hall : s.takeWhile (· != '"') = s := by
      have h := List.takeWhile_append_dropWhile (p := (· != '"')) (l := s)
      rwa [hrest, List.append_nil] at h
    rw [hall, List.append_assoc]
    rfl
  | cons q rest =>
    show some (Lexeme.Kind.literal, _) = some (Lexeme.Kind.literal, _)
    simp [Nat.add_assoc]

theorem lexemeEnd?_append (a : Text) (c : Char) (s : Text) :
    lexemeEnd? (a ++ c :: s) c (byteLength (a ++ [c])) =
      some ((munch c s).kind, byteLength (a ++ (munch c s).text)) := by
  have hsplit : a ++ c :: s = a ++ [c] ++ s := by rw [List.append_assoc]; rfl
  have hrun : ∀ p, (a ++ c :: s).runEnd? p (byteLength (a ++ [c])) =
      some (byteLength (a ++ c :: s.takeWhile p)) := by
    intro p
    rw [hsplit, runEnd?_append, List.append_assoc]
    rfl
  unfold lexemeEnd? munch
  split
  · rw [hrun]
    rfl
  split
  · rfl
  split
  · rfl
  split
  · rfl
  split
  · rw [hsplit, peek?_append]
    unfold Munch.inequality
    cases s with
    | nil => rfl
    | cons d s =>
      by_cases hd : d = '='
      · subst hd
        rw [List.head?_cons, Option.map_some, if_pos rfl, byteLength_append, Nat.add_assoc,
          byteLength_append]
        rfl
      · rw [List.head?_cons, Option.map_some, if_neg (by simpa using hd)]
        split
        · next h => exact absurd (List.cons.inj h).1 hd
        · rfl
  split
  · next h =>
    subst h
    exact literalEnd?_append a s
  · rw [hrun]
    rfl

/-- **The lexeme read character after character** is the one that is taken at once. -/
theorem lexemeAt?_append (a : Text) (c : Char) (s : Text) :
    lexemeAt? (a ++ c :: s) (byteLength a) = some (some ((munch c s).lexeme (byteLength a))) := by
  have hend := lexemeEnd?_append a c s
  rw [byteLength_append a [c], byteLength_cons, byteLength_nil, Nat.add_zero] at hend
  have hpart := part?_append a (munch c s).text (munch c s).rest
  rw [munch_text_append_rest] at hpart
  unfold lexemeAt?
  simp only [Option.bind_eq_bind, peek?_append, Option.bind_some, List.head?_cons, hend]
  rw [hpart, byteLength_append]
  rfl

theorem lexemeAt?_end (a : Text) : lexemeAt? a (byteLength a) = some none := by
  have hpeek := peek?_append a []
  rw [List.append_nil] at hpeek
  unfold lexemeAt?
  rw [hpeek]
  rfl

/-! ## lists -/

section
variable {α : Type}

theorem segment?_append (xs ys zs : List α) :
    segment? (xs ++ (ys ++ zs)) xs.length (xs.length + ys.length) = some ys := by
  have hlength : (xs ++ (ys ++ zs)).length = xs.length + ys.length + zs.length := by
    rw [List.length_append, List.length_append, Nat.add_assoc]
  unfold segment?
  rw [if_pos ⟨Nat.le_add_right _ _, hlength ▸ Nat.le_add_right _ _⟩, List.drop_left,
    Nat.add_sub_cancel_left, List.take_left]

theorem exchangeSegment?_append (xs ys zs us : List α) :
    exchangeSegment? (xs ++ (ys ++ zs)) xs.length (xs.length + ys.length) us =
      some (xs ++ us ++ zs) := by
  have hlength : (xs ++ (ys ++ zs)).length = xs.length + ys.length + zs.length := by
    rw [List.length_append, List.length_append, Nat.add_assoc]
  unfold exchangeSegment?
  rw [if_pos ⟨Nat.le_add_right _ _, hlength ▸ Nat.le_add_right _ _⟩, List.take_left,
    ← List.append_assoc xs ys zs, ← List.length_append, List.drop_left]

/-- **A search by halves finds where a test fails first**, if all items in front pass and no item
from there on does. -/
theorem partitionPoint?_eq {p : α → Bool} {xs : List α} {k : Nat}
    (hk : ∀ i x, xs[i]? = some x → (p x ↔ i < k)) {low high : Nat} (hlow : low ≤ k) (hhigh : k ≤ high)
    (hlength : high ≤ xs.length) : partitionPoint? p xs low high = some k := by
  fun_induction partitionPoint? p xs low high with
  | case1 low high hlt hnone =>
    rw [List.getElem?_eq_none_iff] at hnone
    omega
  | case2 low high hlt x hx hp ih =>
    have hmiddle := (hk _ x hx).mp hp
    exact ih (by omega) hhigh hlength
  | case3 low high hlt x hx hp ih =>
    have hmiddle : k ≤ (low + high) / 2 := Nat.le_of_not_lt (fun h => hp ((hk _ x hx).mpr h))
    exact ih hlow hmiddle (by omega)
  | case4 low high hlt =>
    have hsame : low = k := by omega
    rw [hsame]

/-- the items that pass a test stand in front, if an item only passes when those in front do -/
theorem lt_length_takeWhile_iff {p : α → Bool} {xs : List α} (h : xs.Pairwise (fun x y => p y → p x))
    {i : Nat} {x : α} (hx : xs[i]? = some x) : p x ↔ i < (xs.takeWhile p).length := by
  induction xs generalizing i with
  | nil => exact absurd hx (by simp)
  | cons y ys ih =>
    obtain ⟨hy, hys⟩ := List.pairwise_cons.mp h
    by_cases hp : p y
    · rw [List.takeWhile_cons_of_pos hp, List.length_cons]
      cases i with
      | zero =>
        obtain rfl := Option.some.inj hx
        exact ⟨fun _ => Nat.succ_pos _, fun _ => hp⟩
      | succ i =>
        rw [ih hys hx]
        exact Nat.succ_lt_succ_iff.symm
    · rw [List.takeWhile_cons_of_neg hp]
      refine ⟨fun hpx => ?_, fun hi => absurd hi (Nat.not_lt_zero i)⟩
      cases i with
      | zero =>
        obtain rfl := Option.some.inj hx
        exact absurd hpx hp
      | succ i => exact absurd (hy x (List.mem_of_getElem? hx) hpx) hp

end

/-! ## tokens -/

theorem lastRole_eq_find? (ts : List Token) :
    lastRole none ts = (ts.reverse.map Token.role).find? (· ≠ .blank) := by
  induction ts using List.reverseRecOn with
  | nil => rfl
  | append_singleton ts t ih =>
    rw [lastRole_append, List.reverse_append, ih]
    show after _ t.role = (t.role :: ts.reverse.map Token.role).find? _
    by_cases hr : t.role = .blank
    · rw [List.find?_cons_of_neg (by simpa using hr), hr]
      rfl
    · rw [List.find?_cons_of_pos (by simpa using hr)]
      unfold after
      split
      · next h => exact absurd h hr
      · rfl

theorem lastRole_eq_getLast? (ts : List Token) :
    lastRole none ts = (ts.filter (fun t => t.role ≠ .blank)).getLast?.map Token.role := by
  rw [lastRole_eq_find?, List.getLast?_filter, List.find?_map]
  rfl

theorem roleInFront?_append (ts us : List Token) :
    roleInFront? (ts ++ us) ts.length = some (lastRole none ts) := by
  have hsegment := segment?_append [] ts us
  rw [List.nil_append, List.length_nil, Nat.zero_add] at hsegment
  unfold roleInFront?
  rw [hsegment, lastRole_eq_find?]
  rfl

theorem moveFrom?_append (ts us : List Token) (d : Int) :
    moveFrom? (ts ++ us) ts.length d = some (ts ++ us.map (fun t => t.shift d)) := by
  have hsegment := segment?_append ts us []
  rw [List.append_nil, ← List.length_append] at hsegment
  unfold moveFrom?
  rw [hsegment, Option.map_some, List.take_left]

theorem passTo_eq (ts : List Token) (offset index : Nat) :
    passTo ts offset index =
      index + ((ts.drop index).takeWhile (fun t => t.span.start < offset)).length := by
  fun_induction passTo ts offset index with
  | case1 index hnone =>
    rw [List.drop_eq_nil_iff.mpr (List.getElem?_eq_none_iff.mp hnone)]
    rfl
  | case2 index t ht hlt ih =>
    obtain ⟨hi, rfl⟩ := List.getElem?_eq_some_iff.mp ht
    rw [ih, List.drop_eq_getElem_cons hi, List.takeWhile_cons_of_pos (by simpa using hlt),
      List.length_cons]
    omega
  | case3 index t ht hlt =>
    obtain ⟨hi, rfl⟩ := List.getElem?_eq_some_iff.mp ht
    rw [List.drop_eq_getElem_cons hi, List.takeWhile_cons_of_neg (by simpa using hlt)]
    rfl

end FilterQuery
