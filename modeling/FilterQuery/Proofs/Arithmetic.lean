import FilterQuery.Bounded
import FilterQuery.Proofs.Steps

/-!
# Edits count exactly

* `Addition.isExact_of_nonneg`   an addition that does not have to stop;
* `Edit.Cut.delta?_eq`, `Edit.Cut.stop?_eq`   the numbers of an edit in 64 bits;
* `Edit.takenBack`, `Edit.movedAlong`   the additions of an edit for a token that is read and for
  one that is kept;
* `readOnBounded_run`, `moveFromBounded_run`, `Query.Steps.editBounded_run`   with numbers of
  64 bits an edit makes the steps of one in place, and has these additions on record;
* `Edit.CountsExactly`     all numbers of an edit are what they are without bounds;
* `Query.editBounded_exact`   so they are, on texts of no more than `maxDistance` bytes.
-/

namespace FilterQuery
open Text

/-! ## numbers -/

theorem asDistance_eq {n : Nat} (h : n ≤ maxDistance) : asDistance n = n := by
  unfold maxDistance UInt64.size at h
  refine Int.bmod_eq_of_le ?_ ?_
  all_goals
    unfold UInt64.size
    omega

theorem distance?_eq {d : Int} (h : d ≤ maxDistance) (h' : -d ≤ maxDistance) :
    distance? d = some d := if_pos ⟨by omega, h⟩

theorem maxDistance_add_self : maxDistance + maxDistance < Span.maxOffset := by decide

theorem Addition.sum_eq {a : Addition} (ho : a.offset ≤ maxDistance)
    (hd : a.distance ≤ maxDistance) : a.sum = shift a.offset a.distance := by
  have hmax := maxDistance_add_self
  refine Nat.min_eq_left ?_
  unfold shift
  omega

theorem Addition.isExact_of_nonneg {a : Addition} (ho : a.offset ≤ maxDistance)
    (hd : a.distance ≤ maxDistance) (h : 0 ≤ a.offset + a.distance) : a.IsExact := by
  unfold IsExact
  rw [sum_eq ho hd]
  unfold shift
  omega

namespace Edit.Cut
variable {e : Edit} {s : Text} (k : e.Cut s)

theorem length_range : e.range.length = k.removed.byteLength := by
  show e.range.stop - e.range.start = _
  rw [← k.start_eq, ← k.stop_eq, byteLength_append, Nat.add_sub_cancel_left]

theorem bounds : e.range.start ≤ e.range.stop ∧ e.range.stop ≤ s.byteLength ∧
    e.stop ≤ k.result.byteLength ∧ e.replacement.byteLength ≤ e.stop := by
  have hstop := k.stop_eq
  have hlength := k.byteLength_text
  have hresult : k.result.byteLength = e.stop + k.back.byteLength := by
    rw [k.stop_eq_byteLength, ← byteLength_append]
    rfl
  rw [byteLength_append, k.start_eq] at hstop
  have hend : e.stop = e.range.start + e.replacement.byteLength := rfl
  rw [k.start_eq] at hlength
  omega

include k in
theorem minus?_range : minus? e.range.stop e.range.start = some e.range.length :=
  if_pos k.bounds.1

variable (hold : s.byteLength ≤ maxDistance) (hnew : k.result.byteLength ≤ maxDistance)

include hold hnew

theorem delta_le : e.delta ≤ maxDistance ∧ -e.delta ≤ maxDistance := by
  have hbounds := k.bounds
  have hlength := k.length_range
  have hdelta := k.delta_eq
  have hrange : e.range.length = e.range.stop - e.range.start := rfl
  omega

theorem delta?_eq : e.delta? = some e.delta := by
  obtain ⟨hstart, hstop, hend, hreplacement⟩ := k.bounds
  obtain ⟨hdelta, hdelta'⟩ := k.delta_le hold hnew
  have hlength : e.range.length ≤ maxDistance := by
    unfold Span.length
    omega
  unfold Edit.delta?
  rw [k.minus?_range, Option.bind_eq_bind, Option.bind_some, asDistance_eq hlength,
    asDistance_eq (by omega)]
  exact distance?_eq hdelta hdelta'

omit hold in
theorem stop?_eq : e.stop? = some e.stop := by
  have hmax := maxDistance_add_self
  exact if_pos (Nat.le_trans k.bounds.2.2.1 (by omega))

end Edit.Cut

/-! ## what goes on record -/

/-- The end of a token that is read is taken back to the old text, unless it is in front of the end
of the inserted text. -/
def Edit.takenBack (e : Edit) (a : Span) : List Addition :=
  if a.stop < e.stop then [] else [⟨.back, a.stop, -e.delta⟩]

/-- Both ends of a token that is kept are moved. -/
def Edit.movedAlong (e : Edit) (a : Span) : List Addition :=
  [⟨.along, a.start, e.delta⟩, ⟨.along, a.stop, e.delta⟩]

namespace Recorded

theorem run_lift {α : Type} (x : Option α) (record : List Addition) :
    (liftM x : Recorded α).run record = x.map (fun a => (a, record)) := by
  cases x <;> rfl

theorem run_bind {α β : Type} (x : Recorded α) (f : α → Recorded β) (record : List Addition) :
    (x >>= f).run record = (x.run record).bind (fun r => (f r.1).run r.2) := rfl

/-- a step that is there leaves the record alone -/
theorem run_lift_bind {α β : Type} {x : Option α} {a : α} (h : x = some a) (f : α → Recorded β)
    (record : List Addition) : (liftM x >>= f).run record = (f a).run record := by
  rw [h]
  rfl

theorem run_pure {α : Type} (a : α) (record : List Addition) :
    (pure a : Recorded α).run record = some (a, record) := rfl

theorem run_add (purpose : Addition.Purpose) (n : Nat) (d : Int) (record : List Addition) :
    (Recorded.add purpose n d).run record =
      some ((⟨purpose, n, d⟩ : Addition).sum, record ++ [⟨purpose, n, d⟩]) := rfl

end Recorded

section
variable {e : Edit} (hdelta : e.delta ≤ maxDistance) (hdelta' : -e.delta ≤ maxDistance)

include hdelta hdelta'

theorem takeoverBounded_run {a : Span} (ha : a.stop ≤ maxDistance) (ts : List Token)
    (role : Option Role) (index : Nat) (record : List Addition) :
    (Edit.takeoverBounded e.delta e.stop ts a.stop role index).run record =
      (e.takeover? ts a.stop role index).map (fun r => (r, record ++ e.takenBack a)) := by
  unfold Edit.takeoverBounded Edit.takeover? Edit.takenBack
  by_cases hstop : a.stop < e.stop
  · rw [if_pos hstop, if_pos hstop, if_pos hstop, List.append_nil]
    rfl
  have hneg : distance? (-e.delta) = some (-e.delta) := distance?_eq hdelta' (by omega)
  have hsum : (⟨.back, a.stop, -e.delta⟩ : Addition).sum = shift a.stop (-e.delta) :=
    Addition.sum_eq ha hdelta'
  rw [if_neg hstop, if_neg hstop, if_neg hstop, hneg]
  simp only [Recorded.run_bind, Recorded.run_lift, Recorded.run_add, Option.map_some,
    Option.bind_some, hsum]
  generalize passTo ts (shift a.stop (-e.delta)) index = next
  cases ts[next]? with
  | none => rfl
  | some t =>
    dsimp only
    split
    · cases roleInFront? ts next <;> rfl
    · rfl

/-- one lexeme: the step of `Registry.readOn?`, and its end on record -/
theorem readOnBounded_of_lexeme (reg : Registry) {s : Text} (hs : s.byteLength ≤ maxDistance)
    {start : Nat} {l : Lexeme} (h : lexemeAt? s start = some (some l)) (ts : List Token)
    (previous : Option Role) (index : Nat) (record : List Addition) :
    (reg.readOnBounded s ts e.delta e.stop start previous index).run record =
      let t := reg.judge previous l
      let role := after previous t.role
      match e.takeover? ts l.span.stop role index with
      | none => none
      | some (index, true) => some (([t], index), record ++ e.takenBack l.span)
      | some (index, false) =>
        ((reg.readOnBounded s ts e.delta e.stop l.span.stop role index).run
          (record ++ e.takenBack l.span)).map (fun r => ((t :: r.1.1, r.1.2), r.2)) := by
  have hstop := Nat.le_trans (stop_of_lexemeAt? h).2 hs
  have hrun := takeoverBounded_run hdelta hdelta' hstop ts
    (after previous (reg.judge previous l).role) index record
  rw [Registry.readOnBounded, h]
  dsimp only
  rw [Recorded.run_bind, hrun]
  cases e.takeover? ts l.span.stop (after previous (reg.judge previous l).role) index with
  | none => rfl
  | some r =>
    obtain ⟨next, found⟩ := r
    cases found with
    | true => rfl
    | false => exact Option.map_eq_bind.symm

/-- **Reading with numbers of 64 bits** reads what reading in place does, and takes back the ends of
the tokens that it reads. -/
theorem readOnBounded_run (reg : Registry) {s : Text} (hs : s.byteLength ≤ maxDistance)
    (ts : List Token) (start : Nat) (previous : Option Role) (index : Nat)
    (record : List Addition) :
    (reg.readOnBounded s ts e.delta e.stop start previous index).run record =
      (reg.readOn? s ts e start previous index).map (fun (read, next) =>
        ((read, next), record ++ (read.map Token.span).flatMap e.takenBack)) := by
  -- by induction on what reading in place reads; the record so far is any, as each lexeme adds to it
  fun_induction Registry.readOn? reg s ts e start previous index generalizing record with
  | case1 start previous index hl =>
    rw [Registry.readOnBounded, hl]
    rfl
  | case2 start previous index hl =>
    rw [Registry.readOnBounded, hl]
    exact congrArg some (Prod.ext rfl (List.append_nil record).symm)
  | case3 start previous index l hl t =>
    rename_i role htakeover
    rw [readOnBounded_of_lexeme hdelta hdelta' reg hs hl]
    dsimp only
    rw [htakeover]
    rfl
  | case4 start previous index l hl t role =>
    rename_i next htakeover
    rw [readOnBounded_of_lexeme hdelta hdelta' reg hs hl]
    dsimp only
    rw [htakeover, Option.map_some, List.map_singleton, List.flatMap_singleton, reg.judge_span]
  | case5 start previous index l hl t role =>
    rename_i next htakeover ih
    rw [readOnBounded_of_lexeme hdelta hdelta' reg hs hl]
    dsimp only
    rw [htakeover]
    dsimp only
    rw [ih, Option.map_map, Option.map_map]
    refine congrArg (Option.map · _) (funext fun r => Prod.ext rfl ?_)
    show record ++ e.takenBack l.span ++ (r.1.map Token.span).flatMap e.takenBack =
      record ++ (t.span :: r.1.map Token.span).flatMap e.takenBack
    rw [List.flatMap_cons, reg.judge_span, List.append_assoc]

omit hdelta' in
/-- moving tokens with numbers of 64 bits moves them, and both their ends go on record -/
theorem mapM_moveBounded_run {ts : List Token}
    (h : ∀ t ∈ ts, t.span.start ≤ maxDistance ∧ t.span.stop ≤ maxDistance)
    (record : List Addition) :
    (ts.mapM (Token.moveBounded e.delta)).run record =
      some (ts.map (fun t => t.shift e.delta),
        record ++ (ts.map Token.span).flatMap e.movedAlong) := by
  induction ts generalizing record with
  | nil => exact congrArg some (Prod.ext rfl (List.append_nil record).symm)
  | cons t ts ih =>
    obtain ⟨⟨hstart, hstop⟩, hts⟩ := List.forall_mem_cons.mp h
    have hs : (⟨.along, t.span.start, e.delta⟩ : Addition).sum = shift t.span.start e.delta :=
      Addition.sum_eq hstart hdelta
    have hs' : (⟨.along, t.span.stop, e.delta⟩ : Addition).sum = shift t.span.stop e.delta :=
      Addition.sum_eq hstop hdelta
    have hmove : (t.moveBounded e.delta).run record =
        some (t.shift e.delta, record ++ e.movedAlong t.span) := by
      unfold Token.moveBounded
      simp only [Recorded.run_bind, Recorded.run_add, Option.bind_some, hs, hs', Recorded.run_pure,
        List.append_assoc]
      rfl
    rw [List.mapM_cons, Recorded.run_bind, hmove, Option.bind_some, Recorded.run_bind, ih hts,
      Option.bind_some, Recorded.run_pure]
    refine congrArg some (Prod.ext rfl ?_)
    show record ++ e.movedAlong t.span ++ (ts.map Token.span).flatMap e.movedAlong =
      record ++ (t.span :: ts.map Token.span).flatMap e.movedAlong
    rw [List.flatMap_cons, List.append_assoc]

omit hdelta' in
theorem moveFromBounded_run (us : List Token) {ts : List Token}
    (h : ∀ t ∈ ts, t.span.start ≤ maxDistance ∧ t.span.stop ≤ maxDistance)
    (record : List Addition) :
    (moveFromBounded (us ++ ts) us.length e.delta).run record =
      some (us ++ ts.map (fun t => t.shift e.delta),
        record ++ (ts.map Token.span).flatMap e.movedAlong) := by
  have hsegment := segment?_append us ts []
  rw [List.append_nil, ← List.length_append] at hsegment
  unfold moveFromBounded
  rw [hsegment, Recorded.run_bind, Recorded.run_lift, Option.map_some, Option.bind_some,
    Recorded.run_bind, mapM_moveBounded_run hdelta h, List.take_left]
  rfl

end

namespace Query.Steps
variable {reg : Registry} {q : Query} {e : Edit} (p : q.Steps reg e)

/-- the additions for the tokens that are read, and then those for the tokens that are kept -/
def additions : List Addition :=
  (p.read.map Token.span).flatMap e.takenBack ++ (p.kept.map Token.span).flatMap e.movedAlong

/-- **An edit with numbers of 64 bits** makes the steps of one in place. -/
theorem editBounded_run (hdelta : e.delta ≤ maxDistance) (hdelta' : -e.delta ≤ maxDistance)
    (hdelta? : e.delta? = some e.delta) (hstop? : e.stop? = some e.stop)
    (hsource : p.source.byteLength ≤ maxDistance)
    (hkept : ∀ t ∈ p.kept, t.span.start ≤ maxDistance ∧ t.span.stop ≤ maxDistance)
    (record : List Addition) :
    (q.editBounded reg e).run record =
      some ((p.query, .ok p.change), record ++ p.additions) := by
  have hread := readOnBounded_run hdelta hdelta' reg hsource q.tokens
    ((q.tokens[p.head.length]?.map (fun t => t.span.start)).getD 0) p.previous p.head.length record
  have hmove := moveFromBounded_run hdelta (p.head ++ p.read) hkept
    (record ++ (p.read.map Token.span).flatMap e.takenBack)
  have hremoved := segment?_append p.head p.gone p.kept
  have hspliced := exchangeSegment?_append p.head p.gone p.kept p.read
  rw [p.read_eq, Option.map_some] at hread
  rw [← p.tokens_eq] at hremoved hspliced
  rw [List.length_append] at hmove
  -- step after step
  unfold Query.editBounded
  rw [p.check_eq]
  dsimp only
  rw [Recorded.run_lift_bind hdelta?, Recorded.run_lift_bind p.source_eq,
    Recorded.run_lift_bind hstop?, Recorded.run_lift_bind p.touched_eq, p.first_eq,
    Recorded.run_lift_bind p.previous_eq, Recorded.run_bind, hread, Option.bind_some]
  dsimp only
  rw [Recorded.run_lift_bind hremoved, Recorded.run_lift_bind hspliced, Recorded.run_bind, hmove,
    Option.bind_some, resettle?_eq]
  split
  · next hr =>
    have hquery : p.query = ⟨p.source, balanced p.tokens⟩ := congrArg (Query.mk _) (if_pos hr)
    rw [hquery, additions, ← List.append_assoc]
    rfl
  · next hr =>
    have hquery : p.query = ⟨p.source, p.tokens⟩ := congrArg (Query.mk _) (if_neg hr)
    rw [hquery, additions, ← List.append_assoc]
    rfl

end Query.Steps

/-- the additions of an edit, told by the tokens that it has read and by those that it has kept -/
def Change.additions (c : Change) (e : Edit) (old new : Query) : List Addition :=
  (((new.tokens.map Token.span).drop c.first).take c.count).flatMap e.takenBack ++
    ((old.tokens.map Token.span).drop
      (old.tokens.length - (new.tokens.length - (c.first + c.count)))).flatMap e.movedAlong

/-- the additions for these tokens can be told by the change -/
theorem Query.Steps.additions_change {reg : Registry} {q : Query} {e : Edit} (p : q.Steps reg e) :
    p.change.additions e q p.query = p.additions := by
  -- the verdicts on parentheses that are settled anew leave all spans alone
  have hspans : p.query.tokens.map Token.span = p.tokens.map Token.span := by
    show (if p.resettled then balanced p.tokens else p.tokens).map _ = _
    split
    · exact map_settle Token.span (fun _ _ => rfl) 0 p.tokens
    · rfl
  have hlength := congrArg List.length hspans
  have hold := congrArg List.length p.tokens_eq
  rw [List.length_map, List.length_map] at hlength
  have hnew : p.tokens.length = p.head.length + p.read.length + p.kept.length := by
    rw [tokens, List.length_append, List.length_append, List.length_map]
  rw [List.length_append, List.length_append] at hold
  have hread : ((p.query.tokens.map Token.span).drop p.head.length).take p.read.length =
      p.read.map Token.span := by
    rw [hspans, tokens, List.append_assoc, ← List.map_drop, List.drop_left, ← List.map_take,
      List.take_left]
  have hkept : (q.tokens.map Token.span).drop
      (q.tokens.length - (p.query.tokens.length - (p.head.length + p.read.length))) =
        p.kept.map Token.span := by
    have hplace : q.tokens.length - (p.query.tokens.length - (p.head.length + p.read.length)) =
        (p.head ++ p.gone).length := by
      rw [List.length_append]
      omega
    rw [hplace, p.tokens_eq, ← List.append_assoc, ← List.map_drop, List.drop_left]
  show List.flatMap _ (List.take p.read.length (List.drop p.head.length _)) ++ _ = _
  rw [hread]
  exact congrArg (_ ++ List.flatMap e.movedAlong ·) hkept

/-! ## exactness -/

/-- **An edit counts exactly**: none of its numbers is too large or too small for 64 bits, and no
addition on record had to stop. -/
structure Edit.CountsExactly (e : Edit) (s : Text) (record : List Addition) : Prop where
  length_eq : minus? e.range.stop e.range.start = some e.range.length
  delta?_eq : e.delta? = some e.delta
  neg_delta_eq : distance? (-e.delta) = some (-e.delta)
  delta_eq : e.delta = ((e.apply s).byteLength : Int) - s.byteLength
  stop?_eq : e.stop? = some (e.range.start + e.replacement.byteLength)
  exact : ∀ a ∈ record, a.IsExact
  /-- what is taken back arrives behind the removed text, and in the old text -/
  back : ∀ a ∈ record, a.purpose = .back → e.range.stop ≤ a.sum ∧ a.sum ≤ s.byteLength

section
variable {e : Edit} {s : Text} (k : e.Cut s) (hold : s.byteLength ≤ maxDistance)
  (hnew : k.result.byteLength ≤ maxDistance)

include hold hnew

theorem exact_of_mem_takenBack {a : Span} (ha : a.stop ≤ k.result.byteLength) {x : Addition}
    (hx : x ∈ e.takenBack a) :
    x.IsExact ∧ e.range.stop ≤ x.sum ∧ x.sum ≤ s.byteLength := by
  obtain ⟨hdelta, hdelta'⟩ := k.delta_le hold hnew
  have hbounds := k.bounds
  have hresult := k.byteLength_result
  have hback := Edit.stop_sub_delta hbounds.1
  unfold Edit.takenBack at hx
  split at hx
  · exact absurd hx List.not_mem_nil
  next hstop =>
  obtain rfl := List.mem_singleton.mp hx
  have hexact : (⟨.back, a.stop, -e.delta⟩ : Addition).IsExact :=
    Addition.isExact_of_nonneg (Nat.le_trans ha hnew) hdelta' (by dsimp only; omega)
  have hsum := hexact
  unfold Addition.IsExact at hsum
  dsimp only at hsum
  refine ⟨hexact, ?_, ?_⟩ <;> omega

theorem exact_of_mem_movedAlong {a : Span} (hrange : e.range.stop ≤ a.start)
    (hle : a.start ≤ a.stop) (ha : a.stop ≤ s.byteLength) {x : Addition}
    (hx : x ∈ e.movedAlong a) : x.IsExact := by
  obtain ⟨hdelta, -⟩ := k.delta_le hold hnew
  have hback := Edit.stop_sub_delta k.bounds.1
  rcases List.mem_cons.mp hx with rfl | hx
  · exact Addition.isExact_of_nonneg (by dsimp only; omega) hdelta (by dsimp only; omega)
  · obtain rfl := List.mem_singleton.mp hx
    exact Addition.isExact_of_nonneg (by dsimp only; omega) hdelta (by dsimp only; omega)

end

namespace Query.Steps
variable {reg : Registry} {q : Query} {e : Edit} (p : q.Steps reg e) (k : e.Cut q.source)

include k in
theorem source_eq_result : p.source = k.result := by
  rw [← k.apply_eq]
  exact Option.some.inj (p.source_eq.symm.trans k.exchange?_eq)

variable (hlexed : Lexed (lex q.source) q.tokens) (hold : q.source.byteLength ≤ maxDistance)
  (hnew : k.result.byteLength ≤ maxDistance)

include k hlexed hold hnew

theorem countsExactly : e.CountsExactly q.source p.additions := by
  obtain ⟨hdelta, hdelta'⟩ := k.delta_le hold hnew
  have hread : ∀ x ∈ (p.read.map Token.span).flatMap e.takenBack,
      x.IsExact ∧ e.range.stop ≤ x.sum ∧ x.sum ≤ q.source.byteLength := by
    intro x hx
    obtain ⟨a, ha, hx⟩ := List.mem_flatMap.mp hx
    obtain ⟨t, ht, rfl⟩ := List.mem_map.mp ha
    have hstop := (readOn?_bounds p.read_eq).1 t ht
    rw [p.source_eq_result k] at hstop
    exact exact_of_mem_takenBack k hold hnew hstop hx
  have hkept : ∀ x ∈ (p.kept.map Token.span).flatMap e.movedAlong,
      x.IsExact ∧ x.purpose = .along := by
    intro x hx
    obtain ⟨a, ha, hx⟩ := List.mem_flatMap.mp hx
    obtain ⟨t, ht, rfl⟩ := List.mem_map.mp ha
    obtain ⟨hlt, hstop⟩ := hlexed.span_within (p.mem_of_mem_kept ht)
    have hstart := p.stop_le_start hlexed k.bounds.1 ht
    refine ⟨exact_of_mem_movedAlong k hold hnew hstart (Nat.le_of_lt hlt) hstop hx, ?_⟩
    rcases List.mem_cons.mp hx with rfl | hx
    · rfl
    · rw [List.mem_singleton.mp hx]
  constructor
  case length_eq => exact k.minus?_range
  case delta?_eq => exact k.delta?_eq hold hnew
  case neg_delta_eq => exact distance?_eq hdelta' (by omega)
  case delta_eq =>
    rw [k.apply_eq, k.byteLength_result]
    omega
  case stop?_eq => exact k.stop?_eq hnew
  case exact =>
    intro x hx
    rcases List.mem_append.mp hx with hx | hx
    · exact (hread x hx).1
    · exact (hkept x hx).1
  case back =>
    intro x hx hback
    rcases List.mem_append.mp hx with hx | hx
    · exact (hread x hx).2
    · exact absurd (hback.symm.trans (hkept x hx).2) (by decide)

theorem editBounded_eq :
    (q.editBounded reg e).run [] = some ((p.query, .ok p.change), p.additions) := by
  obtain ⟨hdelta, hdelta'⟩ := k.delta_le hold hnew
  refine p.editBounded_run hdelta hdelta' (k.delta?_eq hold hnew) (k.stop?_eq hnew)
    (p.source_eq_result k ▸ hnew) (fun t ht => ?_) []
  obtain ⟨hlt, hstop⟩ := hlexed.span_within (p.mem_of_mem_kept ht)
  omega

end Query.Steps

/-- **Edits count exactly.**  On texts of no more than `maxDistance` bytes an edit with numbers of
64 bits has no number that is too large or too small, and no addition that has to stop at an end: it
does what the edit in place does.  Its additions take back the ends of the tokens that are read,
from the end of the inserted text on, and move both ends of the tokens that are kept. -/
theorem Query.editBounded_exact (reg : Registry) {s : Text} {e : Edit} (h : e.check s = .ok ())
    (hold : s.byteLength ≤ maxDistance) (hnew : (e.apply s).byteLength ≤ maxDistance) :
    ∃ c record,
      ((ofText reg s).editBounded reg e).run [] = some ((ofText reg (e.apply s), .ok c), record) ∧
      (ofText reg s).editInPlace reg e = some (ofText reg (e.apply s), .ok c) ∧
      record = c.additions e (ofText reg s) (ofText reg (e.apply s)) ∧
      e.CountsExactly s record := by
  obtain ⟨k⟩ := Edit.check_eq_ok_iff.mp h
  have hlexed := lexed_ofText reg s
  have hplace : (ofText reg s).editInPlace reg e =
      some (ofText reg (e.apply s), .ok ((ofText reg s).splice reg e).2) := by
    rw [editInPlace_eq reg hlexed, edit_of_cut reg (ofText reg s) k, k.apply_eq,
      ← splice_ofText reg k]
    rfl
  obtain ⟨p, hquery, hchange⟩ := exists_steps hplace
  rw [k.apply_eq] at hnew
  refine ⟨_, p.additions, ?_, hplace, ?_, p.countsExactly k hlexed hold hnew⟩
  · rw [hquery, hchange]
    exact p.editBounded_eq k hlexed hold hnew
  · rw [hquery, hchange]
    exact p.additions_change.symm

/-- one digit is typed in the place of two -/
theorem Query.editBounded_exact_digit :
    (Edit.mk ⟨3, 5⟩ "7".toList).check "é=10)".toList = .ok () ∧
      byteLength "é=10)".toList ≤ maxDistance ∧
      byteLength ((Edit.mk ⟨3, 5⟩ "7".toList).apply "é=10)".toList) ≤ maxDistance ∧
      ∃ c record,
        ((ofText .builtin "é=10)".toList).editBounded .builtin ⟨⟨3, 5⟩, "7".toList⟩).run [] =
          some ((ofText .builtin ((Edit.mk ⟨3, 5⟩ "7".toList).apply "é=10)".toList), .ok c),
            record) ∧
        (ofText .builtin "é=10)".toList).editInPlace .builtin ⟨⟨3, 5⟩, "7".toList⟩ =
          some (ofText .builtin ((Edit.mk ⟨3, 5⟩ "7".toList).apply "é=10)".toList), .ok c) ∧
        record = c.additions ⟨⟨3, 5⟩, "7".toList⟩ (ofText .builtin "é=10)".toList)
          (ofText .builtin ((Edit.mk ⟨3, 5⟩ "7".toList).apply "é=10)".toList)) ∧
        (Edit.mk ⟨3, 5⟩ "7".toList).CountsExactly "é=10)".toList record :=
  ⟨by decide, by decide, by decide, editBounded_exact .builtin (by decide) (by decide) (by decide)⟩

/-- the end of the digit is taken back, and both ends of the parenthesis are moved -/
example : (((Query.ofText .builtin "é=10)".toList).editBounded .builtin ⟨⟨3, 5⟩, "7".toList⟩).run
    []).map (fun r => r.2.map (fun a => (a.offset, a.distance, a.sum))) =
      some [(4, 1, 5), (5, -1, 4), (6, -1, 5)] := by
  decide +kernel

end FilterQuery
