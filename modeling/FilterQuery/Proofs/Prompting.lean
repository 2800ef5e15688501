import FilterQuery.Proofs.Drafts
import FilterQuery.Terminal.Prompt

/-!
# Prompts in use

A prompt carries one document from call to call and from line to line.

* `Prompt.Call`, `Prompt.Reply`, `Prompt.step`, `Prompt.run`   what can be asked of a prompt, in any
  order, and what it replies;
* `Prompt.Serves reg p`    the document of a prompt has the registry `reg`, and tokens that are those
  of its text; no call changes that (`Serves.step`, `Serves.run`);
* `Document.exists_sync`   bringing such a document up to a line is never refused;
* `Serves.query_sync`      so a line is always seen as the query that it is.
-/

namespace FilterQuery

theorem Draft.Step.not_refused_sync {reg : Registry} {a b : Draft} {text : Text} {x : EditError} :
    ¬ Draft.Step reg a (.sync text) (.refused x) b := by
  intro h
  cases h

/-- bringing a document up to a text is never refused -/
theorem Document.exists_sync {d : Document} (h : d.Coherent) (text : Text) :
    ∃ d' p, d.sync text = .ok (d', p) ∧ d'.Coherent ∧ d'.registry = d.registry ∧ d'.text = text := by
  have hf := follows_sync h text
  cases hs : d.sync text with
  | error x =>
    have hstep : d.step (.sync text) = (d, .refused x) := by simp only [step, hs]
    rw [hstep] at hf
    exact absurd hf.step Draft.Step.not_refused_sync
  | ok r =>
    obtain ⟨d', p⟩ := r
    have hstep : ∃ a, d.step (.sync text) = (d', a) := by
      cases p with
      | none => exact ⟨.unchanged, by simp only [step, hs]⟩
      | some p => exact ⟨.revised p, by simp only [step, hs]⟩
    obtain ⟨a, ha⟩ := hstep
    rw [ha] at hf
    refine ⟨d', p, rfl, hf.coherent, hf.registry_eq, ?_⟩
    have hdraft := hf.step
    show d'.draft.text = text
    generalize d'.draft = b at hdraft
    cases hdraft with
    | synced => rfl
    | syncedSame => rfl

namespace Prompt

/-! ## calls -/

inductive Call where
  | complete (line : Text) (caret : Nat)
  | hint (line : Text) (caret : Nat)
  | highlight (line : Text)
  | finish (line : Text)
deriving DecidableEq, Repr

inductive Reply where
  | completed (start : Nat) (candidates : List Candidate)
  | hinted (tail : Option Text)
  | painted (text : Text)
  | finished (q : Query)
deriving DecidableEq, Repr

/-- one call and the reply to it -/
def step (p : Prompt) : Call → Prompt × Reply
  | .complete line caret =>
    let (p, start, cs) := p.complete line caret
    (p, .completed start cs)
  | .hint line caret =>
    let (p, tail) := p.hint line caret
    (p, .hinted tail)
  | .highlight line =>
    let (p, text) := p.highlight line
    (p, .painted text)
  | .finish line =>
    let (p, q) := p.finish line
    (p, .finished q)

def run (p : Prompt) : List Call → Prompt × List Reply
  | [] => (p, [])
  | c :: cs =>
    let (p', r) := p.step c
    let (p'', rs) := p'.run cs
    (p'', r :: rs)

theorem fst_complete (p : Prompt) (line : Text) (caret : Nat) :
    (p.complete line caret).1 = p.sync line := by
  unfold complete
  dsimp only
  split <;> rfl

/-! ## the document carried along -/

/-- The document has the registry, and the tokens of its text. -/
structure Serves (reg : Registry) (p : Prompt) : Prop where
  coherent : p.document.Coherent
  registry_eq : p.document.registry = reg

namespace Serves
variable {reg : Registry} {p : Prompt}

theorem new (reg : Registry) : Serves reg (.new reg) := ⟨rfl, rfl⟩

theorem sync (h : p.Serves reg) (line : Text) :
    (p.sync line).Serves reg ∧ (p.sync line).document.text = line := by
  obtain ⟨d', r, hd, hcoherent, hregistry, htext⟩ := Document.exists_sync h.coherent line
  have hdocument : (p.sync line).document = d' := by
    show synced p.document line = d'
    simp only [synced, hd]
  constructor
  · constructor
    · rw [hdocument]
      exact hcoherent
    · rw [hdocument, hregistry]
      exact h.registry_eq
  · rw [hdocument]
    exact htext

/-- **A line is seen as the query that it is**, whatever the document held before. -/
theorem query_sync (h : p.Serves reg) (line : Text) :
    (p.sync line).document.query = .ofText reg line := by
  obtain ⟨hserves, htext⟩ := h.sync line
  have hquery := hserves.coherent
  rw [Document.Coherent, hserves.registry_eq, htext] at hquery
  exact hquery

/-! ## calls -/

theorem hint (h : p.Serves reg) (line : Text) (caret : Nat) : (p.hint line caret).1.Serves reg := by
  unfold Prompt.hint
  split
  · exact h
  · dsimp only
    split <;> exact (h.sync line).1

theorem step (h : p.Serves reg) (c : Call) : (p.step c).1.Serves reg := by
  cases c with
  | complete line caret =>
    show (p.complete line caret).1.Serves reg
    rw [fst_complete]
    exact (h.sync line).1
  | hint line caret => exact h.hint line caret
  | highlight line => exact (h.sync line).1
  | finish line =>
    have hs := (h.sync line).1
    have hreset := Document.follows_step hs.coherent .reset
    exact ⟨hreset.coherent, hreset.registry_eq.trans hs.registry_eq⟩

/-- **Whatever is asked of a prompt**, its document stays with the registry and true to its text. -/
theorem run (h : p.Serves reg) (cs : List Call) : (p.run cs).1.Serves reg := by
  induction cs generalizing p with
  | nil => exact h
  | cons c cs ih => exact ih (h.step c)

end Serves

end Prompt

end FilterQuery
