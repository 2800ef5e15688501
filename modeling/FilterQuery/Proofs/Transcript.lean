import FilterQuery.Proofs.Export
import FilterQuery.Proofs.Judgement
import FilterQuery.Proofs.Prompting
import FilterQuery.Terminal.Session

/-!
# What the program prints

The output of the program, told without the session that it carries from line to line.

* `Quits`, `IsQuery`      the lines that end the program, and those that are no command;
* `HasErrorVerdict`       a line of a report that finds fault with its token;
* `Latest reg earlier q`  `q` is what the last query among some lines is;
* `Block reg earlier line block`   what is printed about a line, given the lines in front of it;
* `Session.Stands`        a session that has read some lines; a line answered leaves one that has read
  this one too (`Stands.step`), and so every line gets its block (`Stands.serve`);
* `execute_readings`      the whole output, and the exit code.
-/

namespace FilterQuery

/-! ## lines -/

def Quits (line : Text) : Prop := line.trim = ":quit".toList ∨ line.trim = ":q".toList

instance (line : Text) : Decidable (Quits line) := inferInstanceAs (Decidable (_ ∨ _))

structure IsQuery (line : Text) : Prop where
  ne_nil : line.trim ≠ []
  not_quits : ¬ Quits line
  ne_json : line.trim ≠ ":json".toList
  not_fields : ¬ ":fields".toList <+: line.trim

theorem Command.ofLine_cases (line : Text) :
    (line.trim = [] ∧ Command.ofLine line = .nothing) ∨
    (Quits line ∧ Command.ofLine line = .quit) ∨
    (line.trim = ":json".toList ∧ Command.ofLine line = .json) ∨
    (∃ rest, line.trim = ":fields".toList ++ rest ∧ Command.ofLine line = .fields rest.trim) ∨
    (IsQuery line ∧ Command.ofLine line = .query line) := by
  unfold Command.ofLine
  by_cases hnil : line.trim = []
  · exact .inl ⟨hnil, if_pos hnil⟩
  by_cases hquits : Quits line
  · exact .inr (.inl ⟨hquits, (if_neg hnil).trans (if_pos hquits)⟩)
  by_cases hjson : line.trim = ":json".toList
  · exact .inr (.inr (.inl ⟨hjson, (if_neg hnil).trans ((if_neg hquits).trans (if_pos hjson))⟩))
  cases hafter : Text.after? ":fields".toList line.trim with
  | some rest =>
    refine .inr (.inr (.inr (.inl ⟨rest, Text.after?_eq_some_iff.mp hafter, ?_⟩)))
    refine (if_neg hnil).trans ((if_neg hquits).trans ((if_neg hjson).trans ?_))
    rw [hafter]
  | none =>
    have hfields : ¬ ":fields".toList <+: line.trim := by
      rintro ⟨rest, h⟩
      rw [Text.after?_eq_some_iff.mpr h.symm] at hafter
      exact absurd hafter (by simp)
    refine .inr (.inr (.inr (.inr ⟨⟨hnil, hquits, hjson, hfields⟩, ?_⟩)))
    refine (if_neg hnil).trans ((if_neg hquits).trans ((if_neg hjson).trans ?_))
    rw [hafter]

/-! ## reports -/

def HasErrorVerdict (line : Text) : Prop := ∃ f : Fault, ' ' :: Fault.verdict (some f) <:+ line

instance (line : Text) : Decidable (HasErrorVerdict line) :=
  decidable_of_iff (∃ f ∈ Fault.all, ' ' :: Fault.verdict (some f) <:+ line)
    ⟨fun ⟨f, _, h⟩ => ⟨f, h⟩, fun ⟨f, h⟩ => ⟨f, f.mem_all, h⟩⟩

/-- a line that sums up so many problems -/
def problems (n : Nat) : Text :=
  if n = 0 then "✓ query is well-formed".toList
  else "✗ ".toList ++ Text.decimal n ++ " problem(s)".toList

def Query.tokenLines (q : Query) : List Text :=
  (q.tokens.filter (fun t => t.role ≠ .blank)).map Token.reportLine

theorem Token.verdict_suffix_reportLine (t : Token) :
    ' ' :: Fault.verdict t.fault <:+ t.reportLine := by
  unfold Token.reportLine
  dsimp only
  rw [List.append_assoc]
  exact List.suffix_append _ _

/-- the line of a token has an error verdict iff the token has a fault -/
theorem hasErrorVerdict_reportLine (t : Token) : HasErrorVerdict t.reportLine ↔ t.fault.isSome := by
  have hend := t.verdict_suffix_reportLine
  cases hf : t.fault with
  | some f =>
    rw [hf] at hend
    exact ⟨fun _ => rfl, fun _ => ⟨f, hend⟩⟩
  | none =>
    rw [hf] at hend
    refine ⟨?_, fun h => absurd h (by decide)⟩
    rintro ⟨f, g⟩
    -- the line ends with a tick, and no message does
    have hsame : ∀ {x y : Text}, x <:+ t.reportLine → y <:+ t.reportLine → x ≠ [] → y ≠ [] →
        x.getLast? = y.getLast? := by
      rintro x y ⟨u, hu⟩ ⟨v, hv⟩ hx hy
      rw [← List.getLast?_append_of_ne_nil u hx, ← List.getLast?_append_of_ne_nil v hy, hu, hv]
    have hlast := hsame g hend (by simp) (by simp)
    revert hlast
    cases f <;> decide

theorem Registry.mem_judgeAll {reg : Registry} {previous : Option Role} {ls : List Lexeme}
    {t : Token} (h : t ∈ reg.judgeAll previous ls) : ∃ p l, t = reg.judge p l := by
  induction ls generalizing previous with
  | nil => exact absurd h List.not_mem_nil
  | cons l ls ih =>
    rcases List.mem_cons.mp h with rfl | h
    · exact ⟨previous, l, rfl⟩
    · exact ih h

theorem Query.fault_of_blank {reg : Registry} {s : Text} {t : Token}
    (h : t ∈ (Query.ofText reg s).tokens) (hblank : t.role = .blank) : t.fault = none := by
  have hmem : t.unsettled ∈ reg.judgeAll none (lex s) := by
    rw [← Registry.map_unsettled_judgeAll, ← map_unsettled_balanced]
    exact List.mem_map_of_mem h
  rw [Token.unsettled_of_not_paren (by rw [hblank]; rfl)] at hmem
  obtain ⟨p, l, rfl⟩ := Registry.mem_judgeAll hmem
  have hkind := (reg.role_judge_eq_iff p .blank l).mp hblank
  unfold Registry.judge
  rw [hkind]
  rfl

theorem Query.length_diagnostics (q : Query) :
    q.diagnostics.length = q.tokens.countP (fun t => t.fault.isSome) := by
  unfold Query.diagnostics
  induction q.tokens with
  | nil => rfl
  | cons t ts ih =>
    cases hf : t.fault with
    | none =>
      rw [List.filterMap_cons_none (by rw [hf]; rfl), List.countP_cons_of_neg (by rw [hf]; decide),
        ih]
    | some f =>
      rw [List.filterMap_cons_some (by rw [hf]; rfl), List.countP_cons_of_pos (by rw [hf]; rfl),
        List.length_cons, ih]

/-- **A report sums up as many problems as its lines have error verdicts.** -/
theorem Query.report_ofText (reg : Registry) (s : Text) :
    let lines := (Query.ofText reg s).tokenLines
    (Query.ofText reg s).report = lines ++ [problems (lines.countP (fun l => HasErrorVerdict l))] := by
  intro lines
  have hcount : lines.countP (fun l => HasErrorVerdict l) =
      (Query.ofText reg s).diagnostics.length := by
    show (Query.tokenLines _).countP _ = _
    unfold Query.tokenLines
    rw [Query.length_diagnostics, List.countP_map, List.countP_filter]
    refine List.countP_congr (fun t ht => ?_)
    by_cases hblank : t.role = .blank
    · simp [hblank, Query.fault_of_blank ht hblank]
    · simp [hblank, hasErrorVerdict_reportLine]
  rw [hcount]
  unfold Query.report Query.summary problems
  cases (Query.ofText reg s).diagnostics.length <;> rfl

/-! ## fields -/

/-- the line that stands for fields where there are none -/
def noField (beginning : Text) : Text :=
  "  no field starts with `".toList ++ beginning ++ "`".toList

/-- the lines about the fields whose names start with a text -/
inductive FieldLines (reg : Registry) (beginning : Text) : List Text → Prop where
  | listed (h : ∃ f ∈ reg.fields, beginning <+: f.name) :
      FieldLines reg beginning
        ((reg.fields.filter (fun f => beginning <+: f.name)).map Field.reportLine)
  | none (h : ¬ ∃ f ∈ reg.fields, beginning <+: f.name) : FieldLines reg beginning [noField beginning]

theorem FieldLines.report (reg : Registry) (beginning : Text) :
    FieldLines reg beginning (reg.report beginning) := by
  have hfields : reg.startingWith beginning =
      reg.fields.filter (fun f => beginning <+: f.name) := by
    unfold Registry.startingWith
    refine List.filter_congr (fun f _ => ?_)
    rw [Bool.eq_iff_iff, List.isPrefixOf_iff_prefix, decide_eq_true_eq]
  unfold Registry.report Registry.listing
  rw [hfields]
  by_cases h : ∃ f ∈ reg.fields, beginning <+: f.name
  · have hlisted := FieldLines.listed h
    obtain ⟨f, hf, hprefix⟩ := h
    have hmem : f ∈ reg.fields.filter (fun f => beginning <+: f.name) :=
      List.mem_filter.mpr ⟨hf, decide_eq_true hprefix⟩
    split
    · next hnil =>
      rw [List.map_eq_nil_iff.mp hnil] at hmem
      exact absurd hmem List.not_mem_nil
    · exact hlisted
  · have hnil : reg.fields.filter (fun f => beginning <+: f.name) = [] := by
      rw [List.filter_eq_nil_iff]
      exact fun f hf hprefix => h ⟨f, hf, of_decide_eq_true hprefix⟩
    rw [hnil]
    exact .none h

/-! ## blocks -/

/-- what the last query among some lines is, the empty one if there is none -/
inductive Latest (reg : Registry) : List Text → Query → Prop where
  | none {earlier : List Text} (h : ∀ l ∈ earlier, ¬ IsQuery l) : Latest reg earlier .empty
  | some {line : Text} (before : List Text) {behind : List Text} (h : IsQuery line)
      (hbehind : ∀ l ∈ behind, ¬ IsQuery l) :
      Latest reg (before ++ line :: behind) (.ofText reg line)

inductive Block (reg : Registry) (earlier : List Text) (line : Text) : List Text → Prop where
  | nothing (h : line.trim = []) : Block reg earlier line []
  | json {q : Query} (h : line.trim = ":json".toList) (hq : Latest reg earlier q) :
      Block reg earlier line [q.toJson.pretty 0]
  | fields {rest : Text} {shown : List Text} (h : line.trim = ":fields".toList ++ rest)
      (hshown : FieldLines reg rest.trim shown) : Block reg earlier line shown
  | query {lines : List Text} (h : IsQuery line) (hlines : lines = (Query.ofText reg line).tokenLines) :
      Block reg earlier line (lines ++ [problems (lines.countP (fun l => HasErrorVerdict l))])

theorem Latest.append_other {reg : Registry} {earlier : List Text} {q : Query} {line : Text}
    (h : Latest reg earlier q) (hline : ¬ IsQuery line) : Latest reg (earlier ++ [line]) q := by
  cases h with
  | none h => exact .none (List.forall_mem_append.mpr ⟨h, List.forall_mem_singleton.mpr hline⟩)
  | some before h hbehind =>
    rw [List.append_assoc, List.cons_append]
    exact .some before h
      (List.forall_mem_append.mpr ⟨hbehind, List.forall_mem_singleton.mpr hline⟩)

theorem Latest.append_query {reg : Registry} {line : Text} (earlier : List Text) (h : IsQuery line) :
    Latest reg (earlier ++ [line]) (.ofText reg line) :=
  .some earlier h (fun _ hl => absurd hl List.not_mem_nil)

/-! ## sessions -/

namespace Session

/-- The session has read the lines `earlier`, none of which ended it. -/
structure Stands (reg : Registry) (earlier : List Text) (a : Session) : Prop where
  registry_eq : a.registry = reg
  serves : a.prompt.Serves reg
  latest : Latest reg earlier a.last

namespace Stands
variable {reg : Registry} {earlier : List Text} {a : Session}

theorem new (reg : Registry) : Stands reg [] (.new reg) :=
  ⟨rfl, .new reg, .none (fun _ hl => absurd hl List.not_mem_nil)⟩

theorem other (h : a.Stands reg earlier) {line : Text} (hline : ¬ IsQuery line) :
    a.Stands reg (earlier ++ [line]) := ⟨h.registry_eq, h.serves, h.latest.append_other hline⟩

/-- **A line is answered with its block**, unless it ends the session. -/
theorem step (h : a.Stands reg earlier) {line : Text} (hline : ¬ Quits line) :
    ∃ b block, a.step line = some (b, block) ∧ Block reg earlier line block ∧
      b.Stands reg (earlier ++ [line]) := by
  unfold Session.step
  rcases Command.ofLine_cases line with ⟨hnil, hc⟩ | ⟨hquits, hc⟩ | ⟨hjson, hc⟩ |
    ⟨rest, hfields, hc⟩ | ⟨hquery, hc⟩
  · rw [hc]
    exact ⟨a, [], rfl, .nothing hnil, h.other (fun hq => hq.ne_nil hnil)⟩
  · exact absurd hquits hline
  · rw [hc]
    exact ⟨a, _, rfl, .json hjson h.latest, h.other (fun hq => hq.ne_json hjson)⟩
  · rw [hc]
    refine ⟨a, _, rfl, .fields hfields ?_, h.other (fun hq => hq.not_fields ⟨rest, hfields.symm⟩)⟩
    rw [h.registry_eq]
    exact .report reg rest.trim
  · rw [hc]
    refine ⟨_, _, rfl, ?_, h.registry_eq, h.serves.step (.finish line), ?_⟩
    · show Block reg earlier line (a.prompt.sync line).document.query.report
      rw [h.serves.query_sync, Query.report_ofText]
      exact .query hquery rfl
    · show Latest reg (earlier ++ [line]) (a.prompt.sync line).document.query
      rw [h.serves.query_sync]
      exact .append_query earlier hquery

theorem step_of_quits {line : Text} (a : Session) (hline : Quits line) : a.step line = none := by
  have hcommand : Command.ofLine line = .quit := by
    unfold Command.ofLine
    rw [if_neg ?_]
    · exact if_pos hline
    · intro hnil
      rcases hline with e | e <;> exact absurd (hnil.symm.trans e) (by decide)
  unfold Session.step
  rw [hcommand]

theorem serve_line (a : Session) (line : Text) (rs : List Reading) :
    a.serve (.line line :: rs) =
      match a.step line with
      | none => ⟨[], 0⟩
      | some (b, printed) => ⟨printed ++ (b.serve rs).printed, (b.serve rs).exitCode⟩ := by
  have hanswer : a.answer (.line line) =
      match a.step line with
      | none => .stop 0
      | some (b, printed) => .next b printed := rfl
  rw [Session.serve, hanswer]
  cases a.step line <;> rfl

/-- **Every line up to one that ends the session gets its block**, and the program ends well. -/
theorem serve (h : a.Stands reg earlier) (lines : List Text) :
    let answered := lines.takeWhile (fun l => ¬ Quits l)
    ∃ blocks : List (List Text), a.serve (readings lines) = ⟨blocks.flatten, 0⟩ ∧
      blocks.length = answered.length ∧
      ∀ i line block, answered[i]? = some line → blocks[i]? = some block →
        Block reg (earlier ++ answered.take i) line block := by
  -- by induction on the lines; those that have been answered move into `earlier`
  induction lines generalizing earlier a with
  | nil => exact ⟨[], rfl, rfl, fun i _ _ hi => absurd hi (by simp)⟩
  | cons line lines ih =>
    intro answered
    by_cases hline : Quits line
    · have hanswered : answered = [] := List.takeWhile_cons_of_neg (by simpa using hline)
      rw [hanswered]
      refine ⟨[], ?_, rfl, fun i _ _ hi => absurd hi (by simp)⟩
      show a.serve (.line line :: readings lines) = _
      rw [serve_line, step_of_quits a hline]
      rfl
    · obtain ⟨b, block, hstep, hblock, hb⟩ := h.step hline
      obtain ⟨blocks, hserve, hlength, hblocks⟩ := ih hb
      have hanswered : answered = line :: lines.takeWhile (fun l => ¬ Quits l) :=
        List.takeWhile_cons_of_pos (by simpa using hline)
      rw [hanswered]
      refine ⟨block :: blocks, ?_, congrArg (· + 1) hlength, ?_⟩
      · show a.serve (.line line :: readings lines) = _
        rw [serve_line, hstep]
        show (⟨block ++ (b.serve (readings lines)).printed, _⟩ : Outcome) = _
        rw [hserve]
        rfl
      · intro i l c hl hc
        cases i with
        | zero =>
          obtain rfl := Option.some.inj hl
          obtain rfl := Option.some.inj hc
          rw [List.take_zero, List.append_nil]
          exact hblock
        | succ i =>
          have hrest := hblocks i l c hl hc
          rw [List.append_assoc] at hrest
          exact hrest

end Stands

end Session

/-! ## the program -/

/-- **All that the program prints**, for every registry file and all lines of input: the banner, what
came of loading the file, the fields, the help, and then one block for each line up to one that ends
the program.  The exit code is zero. -/
theorem execute_readings (file : Stored) (reason : Text) (lines : List Text) :
    let loaded := Registry.ofFile fieldsFile file
    let reg := loadedOrBuiltin loaded
    let answered := lines.takeWhile (fun l => ¬ Quits l)
    let shown := if reg.fields = [] then [noField []] else reg.fields.map Field.reportLine
    ∃ blocks : List (List Text),
      execute file reason (readings lines) =
        ⟨banner :: loadMessage loaded reason :: shown ++ [help, []] ++ blocks.flatten, 0⟩ ∧
      blocks.length = answered.length ∧
      ∀ i line block, answered[i]? = some line → blocks[i]? = some block →
        Block reg (answered.take i) line block := by
  intro loaded reg answered shown
  obtain ⟨blocks, hserve, hlength, hblocks⟩ := (Session.Stands.new reg).serve lines
  refine ⟨blocks, ?_, hlength, hblocks⟩
  have hshown : reg.report [] = shown := by
    have hreport := FieldLines.report reg []
    generalize reg.report [] = ls at hreport
    cases hreport with
    | listed h =>
      obtain ⟨f, hf, _⟩ := h
      have hne : reg.fields ≠ [] := List.ne_nil_of_mem hf
      show _ = if reg.fields = [] then _ else _
      rw [if_neg hne, List.filter_eq_self.mpr (fun f _ => decide_eq_true List.nil_prefix)]
    | none h =>
      have hnil : reg.fields = [] :=
        List.eq_nil_iff_forall_not_mem.mpr (fun f hf => h ⟨f, hf, List.nil_prefix⟩)
      show _ = if reg.fields = [] then _ else _
      rw [if_pos hnil]
  have hexecute : execute file reason (readings lines) =
      ⟨greeting loaded reason ++ ((Session.new reg).serve (readings lines)).printed,
        ((Session.new reg).serve (readings lines)).exitCode⟩ := rfl
  rw [hexecute, hserve, ← hshown]
  rfl

/-- A registry without fields has no line for a field, but a line is printed in their place. -/
theorem execute_without_fields :
    let file := Stored.bytes "[]".toUTF8
    let loaded := Registry.ofFile fieldsFile file
    execute file [] (readings []) ≠
      ⟨banner :: loadMessage loaded [] :: (loadedOrBuiltin loaded).fields.map Field.reportLine ++
        [help, []], 0⟩ := by
  intro file loaded
  have htext : String.fromUTF8? "[]".toUTF8 = some "[]" := by decide +kernel
  have hloaded : loaded = .ok ⟨[], List.nodup_nil, fun _ hf => absurd hf List.not_mem_nil⟩ := by
    show Registry.ofFile fieldsFile (.bytes "[]".toUTF8) = _
    unfold Registry.ofFile
    dsimp only
    rw [htext]
    rfl
  show (⟨greeting loaded [] ++ (Session.serve _ (readings [])).printed, _⟩ : Outcome) ≠ _
  rw [hloaded]
  decide

end FilterQuery
