import FilterQuery.Proofs.Acceptance
import FilterQuery.Proofs.Prompting

/-!
# Completed lines

A candidate for the word at the caret is taken in one of two ways.  A line editor puts it in the
place of what stands between the start it was given and the caret; a document puts the name in the
place of the whole token.

* `Query.completions`        what a prompt offers at a caret, from the query of the line alone;
* `Edit.Cut.replaceBytes_eq_iff`   when replacing up to an offset is replacing the range of an edit;
* `Prompt.complete_accept`   the two ways give the same text exactly if the caret stands at the end
  of the token;
* `Prompt.complete_keeps_rest`   what differs with the caret inside the token.
-/

namespace FilterQuery
open Text

/-! ## what is offered -/

/-- the start of the token at a caret and its candidates; the caret itself if there are none -/
def Query.completions (reg : Registry) (q : Query) (caret : Nat) : Nat × List Candidate :=
  match q.suggestAt reg caret with
  | none => (caret, [])
  | some (i, fs) =>
    ((q.tokens[i]?.map (fun t => t.span.start)).getD caret, fs.map Candidate.ofField)

theorem Prompt.Serves.suggestAt_sync {reg : Registry} {p : Prompt} (h : p.Serves reg) (line : Text)
    (caret : Nat) :
    (p.sync line).document.suggestAt caret = (Query.ofText reg line).suggestAt reg caret := by
  rw [Document.suggestAt, h.query_sync line, (h.sync line).1.registry_eq]

/-- **What a prompt offers** depends on the line and the caret alone. -/
theorem Prompt.Serves.complete_eq {reg : Registry} {p : Prompt} (h : p.Serves reg) (line : Text)
    (caret : Nat) : (p.complete line caret).2 = (Query.ofText reg line).completions reg caret := by
  unfold Prompt.complete Query.completions
  dsimp only
  rw [h.suggestAt_sync line caret, h.query_sync line]
  cases (Query.ofText reg line).suggestAt reg caret <;> rfl

theorem Query.exists_of_mem_completions {reg : Registry} {q : Query} {caret : Nat} {c : Candidate}
    (hc : c ∈ (q.completions reg caret).2) :
    ∃ (i : Nat) (t : Token) (f : Field), q.tokens[i]? = some t ∧ f ∈ reg.suggest t ∧
      c = .ofField f ∧ (q.completions reg caret).1 = t.span.start := by
  unfold completions at hc ⊢
  cases hs : q.suggestAt reg caret with
  | none =>
    rw [hs] at hc
    exact absurd hc List.not_mem_nil
  | some r =>
    obtain ⟨i, fs⟩ := r
    rw [hs] at hc
    obtain ⟨t, ht, -, rfl⟩ := suggestAt_eq_some hs
    obtain ⟨f, hf, rfl⟩ := List.mem_map.mp hc
    refine ⟨i, t, f, ht, hf, rfl, ?_⟩
    show (q.tokens[i]?.map _).getD caret = _
    rw [ht]
    rfl

/-! ## two ways to put it in -/

/-- **Replacing up to an offset is the edit** iff the offset is where the range of the edit ends. -/
theorem Edit.Cut.replaceBytes_eq_iff {e : Edit} {s : Text} (k : e.Cut s) {offset : Nat}
    (h : s.IsBoundary offset) :
    s.replaceBytes e.range.start offset e.replacement = k.result ↔ offset = e.range.stop := by
  obtain ⟨a, b, hab, rfl⟩ := (isBoundary_iff s offset).mp h
  have htake : s.takeBytes e.range.start = k.front := by
    have hfront := takeBytes_byteLength_append k.front (k.removed ++ k.back)
    rwa [← List.append_assoc, ← k.text_eq, k.start_eq] at hfront
  have hdrop : s.dropBytes (byteLength a) = b := by
    rw [hab, dropBytes_byteLength_append]
  have hparts : a ++ b = k.front ++ k.removed ++ k.back := hab.symm.trans k.text_eq
  rw [replaceBytes, htake, hdrop, Edit.Cut.result, List.append_cancel_left_eq, ← k.stop_eq]
  constructor
  · rintro rfl
    rw [List.append_cancel_right hparts]
  · intro hlen
    exact (append_inj_of_byteLength hparts hlen).2

theorem Document.accept_of_ok {d : Document} {i caret : Nat} {f : Field} {q : Query} {c : Change}
    (h : d.query.accept d.registry i f = .ok (caret, q, c)) :
    d.accept i f = .ok ((d.revise q c).1, caret) := by
  unfold accept
  rw [h]

/-- **A completion is what accepting gives** iff the caret stands at the end of the token, whatever
the prompt was asked before. -/
theorem Prompt.complete_accept {reg : Registry} (calls : List Call) {line : Text} {caret : Nat}
    (h : line.IsBoundary caret) :
    let offered := (((new reg).run calls).1.complete line caret).2
    ∀ c ∈ offered.2, ∃ (i : Nat) (t : Token) (f : Field) (d : Document) (behind : Nat),
      (Query.ofText reg line).tokens[i]? = some t ∧ f ∈ reg.suggest t ∧
      offered.1 = t.span.start ∧ c.replacement = f.name ∧
      (Document.ofText reg line).accept i f = .ok (d, behind) ∧
      d.text = line.replaceBytes t.span.start t.span.stop f.name ∧
      (line.replaceBytes offered.1 caret c.replacement = d.text ↔ caret = t.span.stop) := by
  have hserves := (Serves.new reg).run calls
  rw [hserves.complete_eq line caret]
  intro offered c hc
  obtain ⟨i, t, f, ht, hf, rfl, hstart⟩ := Query.exists_of_mem_completions hc
  obtain ⟨hr, -⟩ := Registry.mem_suggest.mp hf
  obtain ⟨k, change, -, haccept⟩ := Query.exists_accept ht hr f
  refine ⟨i, t, f, _, _, ht, hf, hstart, rfl, Document.accept_of_ok haccept, k.apply_eq.symm, ?_⟩
  rw [hstart]
  exact k.replaceBytes_eq_iff h

/-- the caret at the end of `src` -/
theorem Prompt.complete_accept_src :
    let line : Text := "not src".toList
    let offered := (((new .builtin).run []).1.complete line 7).2
    line.IsBoundary 7 ∧ offered.2.length = 2 ∧
    ∀ c ∈ offered.2, ∃ (i : Nat) (t : Token) (f : Field) (d : Document) (behind : Nat),
      (Query.ofText .builtin line).tokens[i]? = some t ∧ f ∈ Registry.builtin.suggest t ∧
      offered.1 = t.span.start ∧ c.replacement = f.name ∧
      (Document.ofText .builtin line).accept i f = .ok (d, behind) ∧
      d.text = line.replaceBytes t.span.start t.span.stop f.name ∧
      (line.replaceBytes offered.1 7 c.replacement = d.text ↔ 7 = t.span.stop) :=
  ⟨by decide, by decide +kernel, complete_accept [] (by decide)⟩

/-- The caret inside `src`: the rest of the token stays behind the candidate, where accepting
replaces it. -/
theorem Prompt.complete_keeps_rest :
    let line : Text := "src".toList
    let offered := (((new .builtin).run []).1.complete line 1).2
    line.IsBoundary 1 ∧ offered.1 = 0 ∧
      offered.2.map Candidate.replacement = ["src_ip".toList, "src_port".toList] ∧
      line.replaceBytes offered.1 1 "src_ip".toList = "src_iprc".toList ∧
      (Document.ofText .builtin line).accept 0
        ⟨"src_ip".toList, .string, some "Source IP address".toList⟩ =
        .ok (⟨.builtin, .ofText .builtin "src_ip".toList, 1⟩, 6) := by
  decide +kernel

end FilterQuery
