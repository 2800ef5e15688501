import FilterQuery.Proofs.Completion

/-!
# Replies without a history

A prompt carries its document from call to call, and yet no reply tells what was asked before.

* `Query.hint`            the hint at a caret, from the query of the line alone;
* `Prompt.Call.reply`     the reply that a call is due, from its line and its caret alone;
* `Serves.hint_eq`, `Serves.snd_step`   a prompt true to its text replies so;
* `Prompt.palette_step`   no call changes the colours;
* `Prompt.run_replies`    whatever a prompt is asked, it replies as a new one does, and is never
  brought up to a line in any way but by one edit.
-/

namespace FilterQuery

/-- the rest of the only name that the word at the end of the text may become -/
def Query.hint (reg : Registry) (q : Query) (caret : Nat) : Option Text :=
  if caret < q.source.byteLength then none
  else
    match q.suggestAt reg caret with
    | some (i, [f]) => q.tokens[i]?.bind (fun t => t.text.after? f.name)
    | _ => none

namespace Prompt

/-- **The reply that a call is due.** -/
def Call.reply (reg : Registry) (colors : Palette) : Call → Reply
  | .complete line caret =>
    let (start, cs) := (Query.ofText reg line).completions reg caret
    .completed start cs
  | .hint line caret => .hinted ((Query.ofText reg line).hint reg caret)
  | .highlight line => .painted (colors.paint (.ofText reg line))
  | .finish line => .finished (.ofText reg line)

/-! ## one call -/

namespace Serves
variable {reg : Registry} {p : Prompt}

/-- **A hint** depends on the line and the caret alone, asked for early in the line or not. -/
theorem hint_eq (h : p.Serves reg) (line : Text) (caret : Nat) :
    (p.hint line caret).2 = (Query.ofText reg line).hint reg caret := by
  unfold Prompt.hint Query.hint
  show (if caret < line.byteLength then _ else _ : Prompt × Option Text).2
    = if caret < line.byteLength then _ else _
  by_cases hcaret : caret < line.byteLength
  · rw [if_pos hcaret, if_pos hcaret]
  · rw [if_neg hcaret, if_neg hcaret]
    dsimp only
    rw [h.suggestAt_sync line caret, h.query_sync line]
    -- a hint is given for one field only
    rcases (Query.ofText reg line).suggestAt reg caret with _ | ⟨i, _ | ⟨f, _ | ⟨g, fs⟩⟩⟩ <;> rfl

/-- **A prompt true to its text gives the reply that is due.** -/
theorem snd_step (h : p.Serves reg) (c : Call) : (p.step c).2 = c.reply reg p.palette := by
  cases c with
  | complete line caret =>
    have hc := h.complete_eq line caret
    show Reply.completed (p.complete line caret).2.1 (p.complete line caret).2.2 = _
    rw [hc]
    rfl
  | hint line caret => exact congrArg Reply.hinted (h.hint_eq line caret)
  | highlight line => exact congrArg (fun q => Reply.painted (p.palette.paint q)) (h.query_sync line)
  | finish line => exact congrArg Reply.finished (h.query_sync line)

/-- the edit to a line is never refused -/
theorem exists_sync (h : p.Serves reg) (line : Text) :
    ∃ d r, p.document.sync line = .ok (d, r) ∧ p.sync line = { p with document := d } := by
  obtain ⟨d, r, hd, -⟩ := Document.exists_sync h.coherent line
  refine ⟨d, r, hd, ?_⟩
  unfold Prompt.sync synced
  rw [hd]

end Serves

/-! ## many calls -/

theorem palette_step (p : Prompt) (c : Call) : (p.step c).1.palette = p.palette := by
  cases c with
  | complete line caret =>
    show (p.complete line caret).1.palette = _
    rw [fst_complete]
    rfl
  | hint line caret =>
    show (p.hint line caret).1.palette = _
    unfold hint
    split
    · rfl
    · dsimp only
      split <;> rfl
  | highlight line => rfl
  | finish line => rfl

theorem Serves.snd_run {reg : Registry} {p : Prompt} (h : p.Serves reg) (cs : List Call) :
    (p.run cs).2 = cs.map (Call.reply reg p.palette) := by
  induction cs generalizing p with
  | nil => rfl
  | cons c cs ih =>
    show (p.step c).2 :: ((p.step c).1.run cs).2 = _ :: cs.map _
    rw [ih (h.step c), h.snd_step c, p.palette_step c]

/-- **Replies do not depend on what was asked before.**  Whatever a prompt is asked, in whatever
order, each call gets the reply of a new prompt, which is the one that is due; and no line that comes
next is refused as an edit, so the document never starts over from the empty text. -/
theorem run_replies (reg : Registry) (cs : List Call) :
    let (p, replies) := (new reg).run cs
    replies = cs.map (fun c => ((new reg).step c).2) ∧
      replies = cs.map (Call.reply reg .default) ∧
      ∀ line, ∃ d r, p.document.sync line = .ok (d, r) ∧ p.sync line = { p with document := d } := by
  have hnew := Serves.new reg
  refine ⟨?_, hnew.snd_run cs, (hnew.run cs).exists_sync⟩
  show ((new reg).run cs).2 = _
  rw [hnew.snd_run cs]
  exact List.map_congr_left (fun c _ => (hnew.snd_step c).symm)

end Prompt

end FilterQuery
