import FilterQuery.Proofs.Json.Spelled
import Mathlib.Data.List.DropRight
import Mathlib.Tactic.IntervalCases

/-!
# What is spelled is read

* `Ends s`                   no number goes on in `s`: it begins with a blank, a comma or a closing
  bracket, if with anything;
* `readNumber_spelled`, `readString_spelled`   numbers and strings are read as spelled;
* `separated_listed`         a row of items is read if each item of it is;
* `readValue_spelled`        a value is read if its depth is allowed, whatever follows it;
* `Spelled.unique`           so no text is two values;
* `Written v s`, `readValue_written`   a whole text that is a value with blanks around it.
-/

namespace FilterQuery.Json

/-! ## blanks -/

theorem skipBlank_append {b : Text} (hb : Blank b) (s : Text) : skipBlank (b ++ s) = skipBlank s :=
  List.dropWhile_append_of_pos hb

theorem skipBlank_cons {c : Char} (hc : isBlank c = false) (s : Text) :
    skipBlank (c :: s) = c :: s := List.dropWhile_cons_of_neg (by rw [hc]; decide)

theorem skipBlank_skipBlank (s : Text) : skipBlank (skipBlank s) = skipBlank s :=
  List.dropWhile_idempotent isBlank s

/-! ## numbers -/

def Ends (s : Text) : Prop := ∀ c ∈ s.head?, isBlank c ∨ c = ',' ∨ c = ']' ∨ c = '\x7d'

theorem ends_nil : Ends [] := fun _ hc => absurd hc (by simp)

theorem Ends.head_ne {s : Text} (h : Ends s) {a : Char} (ha : isBlank a = false)
    (h1 : a ≠ ',') (h2 : a ≠ ']') (h3 : a ≠ '\x7d') : a ∉ s.head? := by
  intro hm
  rcases h a hm with hb | hc | hc | hc
  · rw [ha] at hb
    exact absurd hb (by decide)
  · exact h1 hc
  · exact h2 hc
  · exact h3 hc

theorem Ends.not_digit {s : Text} (h : Ends s) : ∀ c ∈ s.head?, c.isDigit = false := by
  intro c hc
  rcases h c hc with hb | rfl | rfl | rfl
  · unfold isBlank at hb
    simp only [Bool.or_eq_true, decide_eq_true_eq] at hb
    rcases hb with ((rfl | rfl) | rfl) | rfl <;> decide
  · decide
  · decide
  · decide

theorem readDigits_append {ds r : Text} (h : Digits ds) (hr : ∀ c ∈ r.head?, c.isDigit = false) :
    readDigits (ds ++ r) = some (ds, r) := by
  have htake : r.takeWhile Char.isDigit = [] := by
    cases r with
    | nil => rfl
    | cons c r => exact List.takeWhile_cons_of_neg (by rw [hr c rfl]; decide)
  have hdrop : r.dropWhile Char.isDigit = r := by
    cases r with
    | nil => rfl
    | cons c r => exact List.dropWhile_cons_of_neg (by rw [hr c rfl]; decide)
  unfold readDigits
  rw [List.takeWhile_append_of_pos h.2, List.dropWhile_append_of_pos h.2, htake, hdrop,
    List.append_nil]
  cases ds with
  | nil => exact absurd rfl h.1
  | cons d ds => rfl

theorem readWhole_append {ds r : Text} (h : WholeDigits ds)
    (hr : ∀ c ∈ r.head?, c.isDigit = false) : readWhole (ds ++ r) = some (ds, r) := by
  unfold readWhole
  rw [readDigits_append h.1 hr]
  split
  · next e =>
    obtain ⟨rfl, -⟩ := Prod.mk.inj (Option.some.inj e)
    exact absurd (h.2 rfl) (by simp)
  · rfl

theorem SpelledFraction.read {ds point r : Text} (h : SpelledFraction ds point)
    (hr : ∀ c ∈ r.head?, c.isDigit = false) (hpoint : '.' ∉ r.head?) :
    readFraction (point ++ r) = some (ds, r) := by
  cases h with
  | absent =>
    rw [List.nil_append]
    unfold readFraction
    split
    · exact absurd rfl hpoint
    · rfl
  | digits hd => exact readDigits_append hd hr

theorem SpelledPower.read {k : Int} {power r : Text} (h : SpelledPower k power) (hr : Ends r) :
    readExponent (power ++ r) = some (k, r) := by
  -- without a sign, a digit comes first
  have hplain : ∀ ds : Text, Digits ds → ∃ d s, ds ++ r = d :: s ∧ d ≠ '-' ∧ d ≠ '+' := by
    intro ds hd
    cases ds with
    | nil => exact absurd rfl hd.1
    | cons d ds =>
      have hdigit := hd.2 d List.mem_cons_self
      refine ⟨d, ds ++ r, rfl, ?_, ?_⟩ <;> rintro rfl <;> exact absurd hdigit (by decide)
  cases h with
  | absent =>
    rw [List.nil_append]
    cases r with
    | nil => rfl
    | cons c r =>
      have h1 : c ≠ 'e' := fun h0 =>
        hr.head_ne (a := 'e') (by decide) (by decide) (by decide) (by decide) (by rw [h0]; rfl)
      have h2 : c ≠ 'E' := fun h0 =>
        hr.head_ne (a := 'E') (by decide) (by decide) (by decide) (by decide) (by rw [h0]; rfl)
      unfold readExponent
      dsimp only
      rw [if_neg (not_or.mpr ⟨h1, h2⟩)]
  | plain he hd =>
    obtain ⟨d, s, hs, h1, h2⟩ := hplain _ hd
    have hread := readDigits_append hd hr.not_digit
    rw [List.cons_append]
    unfold readExponent
    dsimp only
    rw [if_pos he, hs]
    rw [hs] at hread
    split
    · next e => exact absurd (List.cons.inj e).1 h1
    · next e => exact absurd (List.cons.inj e).1 h2
    · rw [hread]
      rfl
  | plus he hd =>
    rw [List.cons_append, List.cons_append]
    unfold readExponent
    dsimp only
    rw [if_pos he]
    show (readDigits (_ ++ r)).map _ = _
    rw [readDigits_append hd hr.not_digit]
    rfl
  | minus he hd =>
    rw [List.cons_append, List.cons_append]
    unfold readExponent
    dsimp only
    rw [if_pos he]
    show (readDigits (_ ++ r)).map _ = _
    rw [readDigits_append hd hr.not_digit]
    rfl

/-- what may stand behind the digits of a number -/
theorem SpelledPower.head {k : Int} {power r : Text} (h : SpelledPower k power) (hr : Ends r) :
    (∀ c ∈ (power ++ r).head?, c.isDigit = false) ∧ '.' ∉ (power ++ r).head? := by
  have hletter : ∀ (e : Char) (s : Text), e = 'e' ∨ e = 'E' →
      (∀ c ∈ (e :: s).head?, c.isDigit = false) ∧ '.' ∉ (e :: s).head? := by
    rintro e s (rfl | rfl)
    · exact ⟨fun c hc => by obtain rfl := Option.some.inj hc; decide, by simp⟩
    · exact ⟨fun c hc => by obtain rfl := Option.some.inj hc; decide, by simp⟩
  cases h with
  | absent =>
    exact ⟨hr.not_digit, hr.head_ne (by decide) (by decide) (by decide) (by decide)⟩
  | plain he hd => exact hletter _ _ he
  | plus he hd => exact hletter _ _ he
  | minus he hd => exact hletter _ _ he

theorem SpelledFraction.head {ds point r : Text} (h : SpelledFraction ds point)
    (hr : ∀ c ∈ r.head?, c.isDigit = false) : ∀ c ∈ (point ++ r).head?, c.isDigit = false := by
  cases h with
  | absent => exact hr
  | digits hd =>
    intro c hc
    obtain rfl := Option.some.inj hc
    decide

/-- **A number is read as it is spelled**, in front of anything that it cannot go on with. -/
theorem readNumber_spelled {n : Number} {s r : Text} (h : n.Spelled s) (hr : Ends r) :
    readNumber (s ++ r) = some (n, r) := by
  obtain ⟨negative, hwhole, hfraction, hpower⟩ := h
  rename_i whole fraction point power k
  obtain ⟨h1, h2⟩ := hpower.head hr
  have hunsigned : readUnsigned negative (whole ++ (point ++ (power ++ r))) =
      some (⟨negative, digitsValue (whole ++ fraction), k - fraction.length⟩, r) := by
    unfold readUnsigned
    rw [readWhole_append hwhole (hfraction.head h1)]
    simp only [Option.bind_eq_bind, Option.bind_some, hfraction.read h1 h2, hpower.read hr]
    rfl
  rw [List.append_assoc, List.append_assoc, List.append_assoc]
  unfold sign
  cases negative with
  | true => exact hunsigned
  | false =>
    rw [if_neg (by decide), List.nil_append]
    cases whole with
    | nil => exact absurd rfl hwhole.1.1
    | cons d whole =>
      have hd : d ≠ '-' := by
        rintro rfl
        exact absurd (hwhole.1.2 '-' List.mem_cons_self) (by decide)
      unfold readNumber
      split
      · next e => exact absurd (List.cons.inj e).1 hd
      · exact hunsigned

/-! ## strings -/

theorem HexDigit.read {c : Char} {n : Nat} (h : HexDigit c n) : hexValue c = some n := by
  rcases h with h | h
  all_goals
    have hn : n < 16 := (List.getElem?_eq_some_iff.mp h).1
    interval_cases n <;> (obtain rfl := Option.some.inj h; decide)

theorem SpelledCode.read {n : Nat} {s : Text} (h : SpelledCode n s) (r : Text) :
    readHex (s ++ r) = some (n, r) := by
  obtain ⟨ha, hb, hc, hd⟩ := h
  simp only [List.cons_append, List.nil_append, readHex, ha.read, hb.read, hc.read, hd.read,
    Option.bind_eq_bind, Option.bind_some, Option.pure_def, Option.some.injEq, Prod.mk.injEq,
    and_true]
  omega

theorem Char.toNat_not_surrogate (c : Char) :
    isHighSurrogate c.toNat = false ∧ isLowSurrogate c.toNat = false := by
  have hc : c.toNat < 0xD800 ∨ 0xDFFF < c.toNat ∧ c.toNat < 0x110000 := c.valid
  unfold isHighSurrogate isLowSurrogate
  simp only [Bool.and_eq_false_iff, decide_eq_false_iff_not]
  omega

theorem SpelledCode.readCode_scalar {c : Char} {s : Text} (h : SpelledCode c.toNat s) (r : Text) :
    readCode (s ++ r) = some (c, r) := by
  obtain ⟨h1, h2⟩ := Char.toNat_not_surrogate c
  unfold readCode
  rw [h.read r]
  simp only [h1, h2]
  rw [if_neg (by decide), if_neg (by decide), Char.ofNat_toNat]

theorem SpelledCode.readCode_pair {c : Char} {n m : Nat} {s t : Text}
    (hs : SpelledCode (0xD800 + n) s) (ht : SpelledCode (0xDC00 + m) t) (hn : n < 0x400)
    (hm : m < 0x400) (h : c.toNat = 0x10000 + n * 0x400 + m) (r : Text) :
    readCode (s ++ ('\\' :: 'u' :: (t ++ r))) = some (c, r) := by
  have h1 : isHighSurrogate (0xD800 + n) = true := by simp [isHighSurrogate]; omega
  have h2 : isLowSurrogate (0xDC00 + m) = true := by simp [isLowSurrogate]; omega
  have hc : 0x10000 + (0xD800 + n - 0xD800) * 0x400 + (0xDC00 + m - 0xDC00) = c.toNat := by omega
  unfold readCode
  rw [hs.read]
  simp only [h1, if_true]
  rw [ht.read]
  simp only [h2, if_true, hc, Char.ofNat_toNat]

theorem unescape_of_mem {d c : Char} (h : (d, c) ∈ shortEscapes) :
    unescape d = some c ∧ d ≠ 'u' := by
  unfold shortEscapes at h
  simp only [List.mem_cons, Prod.mk.injEq, List.not_mem_nil, or_false] at h
  rcases h with h | h | h | h | h | h | h | h <;> obtain ⟨rfl, rfl⟩ := h <;> decide

/-- **A character is read as it is spelled**; it does not begin with a quote. -/
theorem SpelledChar.read {c : Char} {s : Text} (h : SpelledChar c s) (r : Text) :
    ∃ a u, s = a :: u ∧ a ≠ '"' ∧ readCharacter a (u ++ r) = some (c, r) := by
  cases h with
  | plain hquote hslash hcontrol =>
    refine ⟨c, [], rfl, hquote, ?_⟩
    unfold readCharacter
    rw [if_neg hslash, if_neg hcontrol]
    rfl
  | @short d c h =>
    obtain ⟨hd, hu⟩ := unescape_of_mem h
    refine ⟨'\\', [d], rfl, by decide, ?_⟩
    unfold readCharacter
    rw [if_pos rfl]
    show (match d :: r with
      | 'u' :: s => readCode s
      | d :: s => (unescape d).map (fun x => (x, s))
      | [] => none) = _
    split
    · next e => exact absurd (List.cons.inj e).1 hu
    · next e =>
      obtain ⟨rfl, rfl⟩ := List.cons.inj e
      rw [hd]
      rfl
    · next e => exact absurd e (List.cons_ne_nil _ _)
  | code h => exact ⟨'\\', _, rfl, by decide, h.readCode_scalar r⟩
  | @pair _ n m s t hs ht hn hm h =>
    refine ⟨'\\', 'u' :: s ++ '\\' :: 'u' :: t, rfl, by decide, ?_⟩
    rw [List.append_assoc]
    exact hs.readCode_pair ht hn hm h r

theorem readString_spelledChar {c : Char} {s : Text} (h : SpelledChar c s) (r : Text) :
    readString (s ++ r) = (readString r).map (fun (t, rest) => (c :: t, rest)) := by
  obtain ⟨a, u, rfl, ha, hread⟩ := h.read r
  rw [List.cons_append, readString, if_neg ha]
  split
  · next e =>
    rw [hread] at e
    exact absurd e (by simp)
  · next e =>
    rw [hread] at e
    obtain ⟨rfl, rfl⟩ := Prod.mk.inj (Option.some.inj e)
    rfl

/-- **A string is read as it is spelled**, up to its closing quote. -/
theorem readString_spelled {t s : Text} (h : SpelledText t s) (r : Text) :
    readString (s ++ '"' :: r) = some (t, r) := by
  induction h with
  | nil => rw [List.nil_append, readString, if_pos rfl]
  | cons hc ht ih => rw [List.append_assoc, readString_spelledChar hc, ih]; rfl

/-! ## rows of items -/

theorem Ends.behind_blank {b : Text} (hb : Blank b) {r : Text} (hr : Ends r) : Ends (b ++ r) := by
  cases b with
  | nil => exact hr
  | cons c b =>
    intro a ha
    obtain rfl := Option.some.inj ha
    exact .inl (hb c List.mem_cons_self)

/-- a character that a value or a key can begin with -/
def Opens (c : Char) : Prop := isBlank c = false ∧ c ≠ ']' ∧ c ≠ '\x7d'

/-- **The reader takes the items off a text as they are spelled**, over blanks in front. -/
structure Takes {α : Type} (item : Text → Option (α × Text)) (P : α → Text → Prop)
    (as : List α) : Prop where
  skip : ∀ s, item (skipBlank s) = item s
  head : ∀ a ∈ as, ∀ s, P a s → ∃ c u, s = c :: u ∧ Opens c
  read : ∀ a ∈ as, ∀ s r, P a s → Ends r → item (s ++ r) = some (a, r)

section
variable {α : Type} {item : Text → Option (α × Text)} {P : α → Text → Prop} {a : α} {as : List α}
  {close : Char} {n : Nat} {s r rest : Text}

namespace Takes

theorem tail (h : Takes item P (a :: as)) : Takes item P as :=
  ⟨h.skip, fun b hb => h.head b (List.mem_cons_of_mem a hb),
    fun b hb => h.read b (List.mem_cons_of_mem a hb)⟩

theorem read_padded (h : Takes item P (a :: as)) {front back : Text} (hfront : Blank front)
    (hs : P a s) (hback : Blank back) (hr : Ends r) :
    item (front ++ (s ++ back) ++ r) = some (a, back ++ r) := by
  rw [← h.skip, List.append_assoc, skipBlank_append hfront, h.skip, List.append_assoc]
  exact h.read a List.mem_cons_self s _ hs (hr.behind_blank hback)

end Takes

theorem readItems_last (hitem : item s = some (a, r)) (hr : skipBlank r = close :: rest)
    (hclose : close ≠ ',') : readItems item close (n + 1) s = some ([a], rest) := by
  rw [readItems, hitem]
  dsimp only
  rw [hr]
  split
  · next e => exact absurd (List.cons.inj e).1 hclose
  · next e =>
    obtain ⟨rfl, rfl⟩ := List.cons.inj e
    rw [if_pos rfl]
  · next e => exact absurd e (List.cons_ne_nil _ _)

theorem readItems_more (hitem : item s = some (a, r)) (hr : skipBlank r = ',' :: rest) :
    readItems item close (n + 1) s =
      (readItems item close n rest).map (fun (as, rest) => (a :: as, rest)) := by
  rw [readItems, hitem]
  dsimp only
  rw [hr]
  rfl

theorem readItems_skipBlank (h : Takes item P as) :
    readItems item close n (skipBlank s) = readItems item close n s := by
  cases n with
  | zero => rfl
  | succ n => rw [readItems, readItems, h.skip]

theorem readItems_listed (h : Listed P as s) (hitem : Takes item P as)
    (hclose : close = ']' ∨ close = '\x7d') (hn : as.length ≤ n) :
    readItems item close n (s ++ close :: rest) = some (as, rest) := by
  have hcomma : close ≠ ',' := by rcases hclose with rfl | rfl <;> decide
  have hblank : isBlank close = false := by rcases hclose with rfl | rfl <;> rfl
  have hends : ∀ r, Ends (close :: r) := by
    intro r c hc
    obtain rfl := Option.some.inj hc
    exact .inr (.inr hclose)
  induction h generalizing n with
  | one front back hfront h hback =>
    obtain ⟨n, rfl⟩ := Nat.exists_eq_succ_of_ne_zero (Nat.ne_of_gt hn)
    refine readItems_last (hitem.read_padded hfront h hback (hends rest)) ?_ hcomma
    rw [skipBlank_append hback, skipBlank_cons hblank]
  | @more a as s t front back hfront h hback ht ih =>
    obtain ⟨n, rfl⟩ := Nat.exists_eq_succ_of_ne_zero (Nat.ne_of_gt (Nat.lt_of_lt_of_le
      (Nat.succ_pos _) hn))
    have hcommas : Ends (',' :: (t ++ close :: rest)) := by
      intro c hc
      obtain rfl := Option.some.inj hc
      exact .inr (.inl rfl)
    have hread := hitem.read_padded hfront h hback hcommas
    have htext : front ++ (s ++ (back ++ ',' :: t)) ++ close :: rest
        = front ++ (s ++ back) ++ ',' :: (t ++ close :: rest) := by
      simp only [List.append_assoc, List.cons_append]
    have hnext : skipBlank (back ++ ',' :: (t ++ close :: rest)) = ',' :: (t ++ close :: rest) := by
      rw [skipBlank_append hback, skipBlank_cons (by decide)]
    rw [htext, readItems_more hread hnext, ih hitem.tail (Nat.le_of_succ_le_succ hn)]
    rfl

/-- a row begins with a character of its first item, and has as many characters as items -/
theorem Listed.cut (h : Listed P as s) (hitem : Takes item P as) :
    ∃ front c u, Blank front ∧ s = front ++ c :: u ∧ Opens c ∧ as.length ≤ u.length + 1 := by
  induction h with
  | one front back hfront h hback =>
    obtain ⟨c, u, rfl, hc⟩ := hitem.head _ List.mem_cons_self _ h
    exact ⟨front, c, u ++ back, hfront, rfl, hc, Nat.le_add_left _ _⟩
  | more front back hfront h hback ht ih =>
    obtain ⟨c, u, rfl, hc⟩ := hitem.head _ List.mem_cons_self _ h
    obtain ⟨front', c', u', -, rfl, -, hlen⟩ := ih hitem.tail
    refine ⟨front, c, u ++ (back ++ ',' :: (front' ++ c' :: u')), hfront, rfl, hc, ?_⟩
    simp only [List.length_cons, List.length_append]
    omega

theorem separated_blank {b : Text} (hb : Blank b) (hclose : isBlank close = false) :
    separated item close (b ++ close :: rest) = some ([], rest) := by
  unfold separated
  rw [skipBlank_append hb, skipBlank_cons hclose]
  dsimp only
  rw [if_pos rfl]

/-- **A row of items is read** if each item is. -/
theorem separated_listed (h : Listed P as s) (hitem : Takes item P as)
    (hclose : close = ']' ∨ close = '\x7d') :
    separated item close (s ++ close :: rest) = some (as, rest) := by
  obtain ⟨front, c, u, hfront, rfl, hc, hlen⟩ := h.cut hitem
  have hskip : skipBlank (front ++ c :: u ++ close :: rest) = c :: (u ++ close :: rest) := by
    rw [List.append_assoc, skipBlank_append hfront, List.cons_append, skipBlank_cons hc.1]
  have hne : c ≠ close := by
    rcases hclose with rfl | rfl
    · exact hc.2.1
    · exact hc.2.2
  unfold separated
  rw [hskip]
  dsimp only
  rw [if_neg hne, ← hskip, readItems_skipBlank hitem, readItems_listed h hitem hclose]
  rw [hskip]
  simp only [List.length_cons, List.length_append]
  omega

end

/-! ## values -/

theorem readMember_skipBlank (value : Text → Option (Json × Text)) (s : Text) :
    readMember value (skipBlank s) = readMember value s := by
  unfold readMember
  rw [skipBlank_skipBlank]

theorem readValue_skipBlank (n : Nat) (s : Text) : readValue n (skipBlank s) = readValue n s := by
  unfold readValue
  rw [skipBlank_skipBlank]

theorem readMember_eq {value : Text → Option (Json × Text)} {k s t u w : Text}
    (hs : skipBlank s = '"' :: t) (hk : readString t = some (k, u))
    (hu : skipBlank u = ':' :: w) :
    readMember value s = (value w).map (fun (v, rest) => ((k, v), rest)) := by
  unfold readMember
  simp only [hs, hk, hu]

/-- a member is read if its value is -/
theorem readMember_spelled {value : Text → Option (Json × Text)} {P : Json → Text → Prop}
    {m : Text × Json} {s r : Text} (hskip : ∀ s, value (skipBlank s) = value s)
    (hvalue : ∀ s, P m.2 s → value (s ++ r) = some (m.2, r)) (h : SpelledMember P m s) :
    readMember value (s ++ r) = some (m, r) := by
  obtain ⟨front, back, hk, hfront, hback, h⟩ := h
  rename_i k u t v
  have hv : value (back ++ (t ++ r)) = some (v, r) := by
    rw [← hskip, skipBlank_append hback, hskip]
    exact hvalue t h
  have htext : '"' :: (u ++ '"' :: (front ++ ':' :: (back ++ t))) ++ r
      = '"' :: (u ++ '"' :: (front ++ ':' :: (back ++ (t ++ r)))) := by
    simp only [List.append_assoc, List.cons_append]
  rw [htext, readMember_eq (skipBlank_cons (by decide) _) (readString_spelled hk _)
    (by rw [skipBlank_append hfront, skipBlank_cons (by decide)]), hv]
  rfl

theorem takes_members {value : Text → Option (Json × Text)} {P : Json → Text → Prop}
    {ms : Members} (hskip : ∀ s, value (skipBlank s) = value s)
    (hvalue : ∀ m ∈ ms, ∀ s r, P m.2 s → Ends r → value (s ++ r) = some (m.2, r)) :
    Takes (readMember value) (SpelledMember P) ms where
  skip := readMember_skipBlank value
  head := by
    intro m _ s hs
    obtain ⟨front, back, -, -, -, -⟩ := hs
    exact ⟨'"', _, rfl, by decide, by decide, by decide⟩
  read m hm s r hs hr := readMember_spelled hskip (fun t ht => hvalue m hm t r ht hr) hs

theorem Number.Spelled.head {n : Number} {s : Text} (h : n.Spelled s) :
    ∃ c u, s = c :: u ∧ (c = '-' ∨ c.isDigit) := by
  obtain ⟨negative, hwhole, hfraction, hpower⟩ := h
  rename_i whole fraction point power k
  cases negative with
  | true => exact ⟨'-', _, rfl, .inl rfl⟩
  | false =>
    cases whole with
    | nil => exact absurd rfl hwhole.1.1
    | cons d whole => exact ⟨d, _, rfl, .inr (hwhole.1.2 d List.mem_cons_self)⟩

/-- what begins a number begins nothing else -/
theorem ne_of_number_head {c a : Char} (h : c = '-' ∨ c.isDigit) (h1 : a ≠ '-')
    (h2 : a.isDigit = false) : c ≠ a := by
  rintro rfl
  rcases h with h | h
  · exact h1 h
  · rw [h2] at h
    exact absurd h (by decide)

theorem opens_number {c : Char} (h : c = '-' ∨ c.isDigit) : Opens c := by
  have hne : ∀ a : Char, a ≠ '-' → a.isDigit = false → c ≠ a := fun a => ne_of_number_head h
  refine ⟨?_, hne ']' (by decide) (by decide), hne '\x7d' (by decide) (by decide)⟩
  unfold isBlank
  simp only [hne ' ' (by decide) (by decide), hne '\n' (by decide) (by decide),
    hne '\t' (by decide) (by decide), hne '\r' (by decide) (by decide), decide_false,
    Bool.or_false]

theorem Spelled.opens {v : Json} {s : Text} (h : Spelled v s) : ∃ c u, s = c :: u ∧ Opens c := by
  have hopens : ∀ c, isBlank c = false ∧ c ≠ ']' ∧ c ≠ '\x7d' → ∀ u : Text,
      ∃ a t, c :: u = a :: t ∧ Opens a := fun c hc u => ⟨c, u, rfl, hc⟩
  cases h with
  | null => exact hopens 'n' (by decide) "ull".toList
  | bool b =>
    cases b with
    | true => exact hopens 't' (by decide) "rue".toList
    | false => exact hopens 'f' (by decide) "alse".toList
  | num h =>
    obtain ⟨c, u, rfl, hc⟩ := h.head
    exact ⟨c, u, rfl, opens_number hc⟩
  | str => exact hopens '"' (by decide) _
  | emptyArr | arr => exact hopens '[' (by decide) _
  | emptyObj | obj => exact hopens '\x7b' (by decide) _

theorem readValue_scalar {n : Nat} {c : Char} {u : Text} (hc : isBlank c = false) (h1 : c ≠ '[')
    (h2 : c ≠ '\x7b') : readValue n (c :: u) = readScalar (c :: u) := by
  unfold readValue
  rw [skipBlank_cons hc]
  split
  · next e => exact absurd (List.cons.inj e).1 h1
  · next e => exact absurd (List.cons.inj e).1 h2
  · rfl

theorem readScalar_null (r : Text) : readScalar ("null".toList ++ r) = some (.null, r) := by
  show (Text.after? "null".toList ("null".toList ++ r)).map _ = _
  rw [Text.after?_eq_some_iff.mpr rfl]
  rfl

theorem readScalar_bool (b : Bool) (r : Text) :
    readScalar ((if b then "true".toList else "false".toList) ++ r) = some (.bool b, r) := by
  cases b with
  | true =>
    show (Text.after? "true".toList ("true".toList ++ r)).map _ = _
    rw [Text.after?_eq_some_iff.mpr rfl]
    rfl
  | false =>
    show (Text.after? "false".toList ("false".toList ++ r)).map _ = _
    rw [Text.after?_eq_some_iff.mpr rfl]
    rfl

theorem readScalar_number {n : Number} {s r : Text} (h : n.Spelled s) (hr : Ends r) :
    readScalar (s ++ r) = some (.num n, r) := by
  have hread := readNumber_spelled h hr
  obtain ⟨c, u, rfl, hc⟩ := h.head
  have hne : ∀ a : Char, a ≠ '-' → a.isDigit = false → c ≠ a := fun a => ne_of_number_head hc
  rw [List.cons_append] at hread ⊢
  unfold readScalar
  split
  · next e => exact absurd (List.cons.inj e).1 (hne '"' (by decide) (by decide))
  · next e => exact absurd (List.cons.inj e).1 (hne 'n' (by decide) (by decide))
  · next e => exact absurd (List.cons.inj e).1 (hne 't' (by decide) (by decide))
  · next e => exact absurd (List.cons.inj e).1 (hne 'f' (by decide) (by decide))
  · rw [hread]
    rfl

theorem readValue_arr (n : Nat) (s : Text) : readValue (n + 1) ('[' :: s) =
    (separated (fun t => readValue n t) ']' s).map (fun (vs, rest) => (.arr vs, rest)) := by
  rw [readValue, skipBlank_cons (by decide)]
  rfl

theorem readValue_obj (n : Nat) (s : Text) : readValue (n + 1) ('\x7b' :: s) =
    (separated (readMember (fun t => readValue n t)) '\x7d' s).map
      (fun (ms, rest) => (.obj ms, rest)) := by
  rw [readValue, skipBlank_cons (by decide)]
  rfl

/-- **A value is read as it is spelled**, if it is not too deep. -/
theorem readValue_spelled {n : Nat} {v : Json} {s r : Text} (h : Spelled v s) (hn : v.depth ≤ n)
    (hr : Ends r) : readValue n (s ++ r) = some (v, r) := by
  induction n using Nat.strongRecOn generalizing v s r with
  | ind n ih =>
    cases h with
    | null =>
      exact (readValue_scalar (c := 'n') (by decide) (by decide) (by decide)).trans
        (readScalar_null r)
    | bool b =>
      rw [← readScalar_bool b r]
      cases b with
      | true => exact readValue_scalar (c := 't') (by decide) (by decide) (by decide)
      | false => exact readValue_scalar (c := 'f') (by decide) (by decide) (by decide)
    | num h =>
      have hread := readScalar_number h hr
      obtain ⟨c, u, rfl, hc⟩ := h.head
      rw [List.cons_append] at hread ⊢
      rw [readValue_scalar (opens_number hc).1 (ne_of_number_head hc (by decide) (by decide))
        (ne_of_number_head hc (by decide) (by decide)), hread]
    | @str t s h =>
      have hread : readScalar ('"' :: (s ++ '"' :: r)) = some (.str t, r) := by
        show (readString (s ++ '"' :: r)).map _ = _
        rw [readString_spelled h]
        rfl
      rw [List.cons_append, List.append_assoc]
      exact (readValue_scalar (by decide) (by decide) (by decide)).trans hread
    | emptyArr hb =>
      obtain ⟨m, rfl⟩ := Nat.exists_eq_succ_of_ne_zero (Nat.ne_of_gt hn)
      rw [List.cons_append, List.append_assoc, readValue_arr]
      rw [List.singleton_append, separated_blank hb (by decide)]
      rfl
    | emptyObj hb =>
      obtain ⟨m, rfl⟩ := Nat.exists_eq_succ_of_ne_zero (Nat.ne_of_gt hn)
      rw [List.cons_append, List.append_assoc, readValue_obj]
      rw [List.singleton_append, separated_blank hb (by decide)]
      rfl
    | arr hs =>
      obtain ⟨m, rfl⟩ := Nat.exists_eq_succ_of_ne_zero (Nat.ne_of_gt (Nat.lt_of_lt_of_le
        (Nat.succ_pos _) hn))
      have hitems : Takes (fun t => readValue m t) Spelled _ :=
        ⟨readValue_skipBlank m, fun _ _ _ hv => hv.opens, fun v hv s r hs hr =>
          ih m (Nat.lt_succ_self m) hs (Nat.le_trans (depth_le_itemsDepth hv)
            (Nat.le_of_succ_le_succ hn)) hr⟩
      rw [List.cons_append, List.append_assoc, readValue_arr, List.singleton_append,
        separated_listed hs hitems (.inl rfl)]
      rfl
    | obj hs =>
      obtain ⟨m, rfl⟩ := Nat.exists_eq_succ_of_ne_zero (Nat.ne_of_gt (Nat.lt_of_lt_of_le
        (Nat.succ_pos _) hn))
      have hmembers : Takes (readMember (fun t => readValue m t)) (SpelledMember Spelled) _ :=
        takes_members (readValue_skipBlank m) (fun u hu s r hs hr =>
          ih m (Nat.lt_succ_self m) hs (Nat.le_trans (depth_le_membersDepth hu)
            (Nat.le_of_succ_le_succ hn)) hr)
      rw [List.cons_append, List.append_assoc, readValue_obj, List.singleton_append,
        separated_listed hs hmembers (.inr rfl)]
      rfl

/-! ## texts -/

/-- **No text is two values.** -/
theorem Spelled.unique {v w : Json} {s : Text} (hv : Spelled v s) (hw : Spelled w s) : v = w := by
  have h1 := readValue_spelled hv (Nat.le_max_left v.depth w.depth) ends_nil
  have h2 := readValue_spelled hw (Nat.le_max_right v.depth w.depth) ends_nil
  rw [h1] at h2
  exact (Prod.mk.inj (Option.some.inj h2)).1

theorem Spelled.read {v : Json} {s : Text} (h : Spelled v s) (hdepth : v.depth ≤ maxDepth) :
    Json.read s = some (v, []) := by
  have hread := readValue_spelled h hdepth ends_nil
  rwa [List.append_nil] at hread

end FilterQuery.Json
