import FilterQuery.Document
import FilterQuery.Proofs.Difference
import FilterQuery.Proofs.Editing

/-!
# Documents as drafts

To its user a document is a `Draft`: a text and the number of its changes.

* `Document.Op`, `Document.Answer`, `Document.step`, `Document.run`   what can be asked of a document,
  in any order, and what it answers; an operation that is refused leaves it as it is;
* `Draft.Step`, `Draft.Run`   the same for drafts: which operation leads from one draft to which
  other one, with which answer; tokens are those of the text;
* `Document.Coherent`         the tokens of a document are those of its text;
* `run_refines`               every run of a document is one of its draft, and ends coherent.
-/

namespace FilterQuery
open Text

/-! ## operations on documents -/

namespace Document

inductive Op where
  | edit (e : Edit)
  | sync (text : Text)
  | accept (index : Nat) (f : Field)
  | suggest (caret : Nat)
  | reset

inductive Answer where
  | refused (x : EditError)
  | revised (p : Revised)
  /-- the text was the same -/
  | unchanged
  | suggested (s : Option (Nat × List Field))
  | accepted (caret : Nat)
  | done

/-- one operation and its answer -/
def step (d : Document) : Op → Document × Answer
  | .edit e =>
    match d.edit e with
    | .error x => (d, .refused x)
    | .ok (d', p) => (d', .revised p)
  | .sync text =>
    match d.sync text with
    | .error x => (d, .refused x)
    | .ok (d', none) => (d', .unchanged)
    | .ok (d', some p) => (d', .revised p)
  | .accept index f =>
    match d.accept index f with
    | .error x => (d, .refused x)
    | .ok (d', caret) => (d', .accepted caret)
  | .suggest caret => (d, .suggested (d.suggestAt caret))
  | .reset => (d.reset, .done)

def run (d : Document) : List Op → Document × List Answer
  | [] => (d, [])
  | op :: ops =>
    let (d', a) := d.step op
    let (d'', as) := d'.run ops
    (d'', a :: as)

/-- the tokens are those of the text -/
def Coherent (d : Document) : Prop := d.query = .ofText d.registry d.text

end Document

/-! ## drafts -/

/-- a text that is being edited, and how often it was changed -/
structure Draft where
  text : Text
  revision : Nat
deriving DecidableEq, Repr

def Document.draft (d : Document) : Draft := ⟨d.text, d.revision⟩

namespace Draft

/-- the next draft -/
def revise (a : Draft) (text : Text) : Draft := ⟨text, a.revision + 1⟩

/-- **What an operation does to a draft, and what it answers.** -/
inductive Step (reg : Registry) (a : Draft) : Document.Op → Document.Answer → Draft → Prop where
  | edited {e : Edit} (k : e.Cut a.text) (c : Change) :
    Step reg a (.edit e) (.revised ⟨a.revision + 1, c⟩)
      (a.revise (k.front ++ e.replacement ++ k.back))
  | editRefused {e : Edit} {x : EditError} (h : e.check a.text = .error x) :
    Step reg a (.edit e) (.refused x) a
  | synced {text : Text} (h : a.text ≠ text) (c : Change) :
    Step reg a (.sync text) (.revised ⟨a.revision + 1, c⟩) (a.revise text)
  | syncedSame : Step reg a (.sync a.text) .unchanged a
  /-- the token at the index is a field and its text is replaced by the name -/
  | accepted {index : Nat} {t : Token} {front back : Text} (f : Field)
    (ht : (Query.ofText reg a.text).tokens[index]? = some t) (hr : t.role = .field)
    (htext : a.text = front ++ t.text ++ back) (hstart : front.byteLength = t.span.start) :
    Step reg a (.accept index f) (.accepted (front.byteLength + f.name.byteLength))
      (a.revise (front ++ f.name ++ back))
  | acceptNoToken {index : Nat} (f : Field)
    (h : (Query.ofText reg a.text).tokens[index]? = none) :
    Step reg a (.accept index f) (.refused (.noToken index)) a
  | acceptNotAField {index : Nat} {t : Token} (f : Field)
    (ht : (Query.ofText reg a.text).tokens[index]? = some t) (hr : t.role ≠ .field) :
    Step reg a (.accept index f) (.refused (.notAField index)) a
  | suggested (caret : Nat) :
    Step reg a (.suggest caret) (.suggested ((Query.ofText reg a.text).suggestAt reg caret)) a
  | reset : Step reg a .reset .done (a.revise [])

inductive Run (reg : Registry) : Draft → List Document.Op → List Document.Answer → Draft → Prop where
  | nil (a : Draft) : Run reg a [] [] a
  | cons {a b c : Draft} {op : Document.Op} {r : Document.Answer} {ops : List Document.Op}
    {rs : List Document.Answer} (h : Step reg a op r b) (hs : Run reg b ops rs c) :
    Run reg a (op :: ops) (r :: rs) c

end Draft

/-! ## cuts at tokens -/

/-- the span of a token is the range of an edit that fits -/
theorem Query.exists_cut_of_token {q : Query} (h : Lexed (lex q.source) q.tokens) {i : Nat}
    {t : Token} (ht : q.tokens[i]? = some t) (w : Text) :
    ∃ k : (⟨t.span, w⟩ : Edit).Cut q.source, k.removed = t.text := by
  obtain ⟨hi, hget⟩ := List.getElem?_eq_some_iff.mp ht
  have htokens : q.tokens = q.tokens.take i ++ t :: q.tokens.drop (i + 1) := by
    rw [← hget, List.getElem_cons_drop, List.take_append_drop]
  rw [htokens] at h
  obtain ⟨ls, ms, hlex, -, hms⟩ := h.split
  cases ms with
  | nil => exact absurd hms (List.cons_ne_nil _ _)
  | cons l ms =>
    obtain ⟨h1, h2⟩ := start_eq_of_lexFrom hlex
    obtain ⟨htext, hspan⟩ := hms.cons_cons
    have hall := flatMap_text_lex q.source
    rw [hlex, List.flatMap_append, List.flatMap_cons, ← htext] at hall
    refine ⟨⟨ls.flatMap Lexeme.text, t.text, ms.flatMap Lexeme.text, ?_, ?_, ?_⟩, rfl⟩
    · rw [List.append_assoc, hall]
    · show _ = t.span.start
      rw [hspan, h1, Nat.zero_add]
    · show _ = t.span.stop
      rw [hspan, h2, h1, byteLength_append, Nat.zero_add, htext]

namespace Document
variable {d : Document}

/-! ## one operation -/

/-- an outcome of an operation is coherent and a step of the draft -/
structure Follows (d : Document) (op : Op) (r : Document × Answer) : Prop where
  coherent : r.1.Coherent
  registry_eq : r.1.registry = d.registry
  step : Draft.Step d.registry d.draft op r.2 r.1.draft

theorem Coherent.exists_edit (h : d.Coherent) {e : Edit} (k : e.Cut d.text) :
    ∃ c, d.query.edit d.registry e = .ok (.ofText d.registry k.result, c) := by
  refine ⟨(d.query.splice d.registry e).2, ?_⟩
  have hq : (d.query.splice d.registry e).1 = .ofText d.registry k.result := by
    rw [h]
    exact Query.splice_ofText d.registry k
  rw [Query.edit_of_cut d.registry d.query k, ← hq]

theorem follows_edit (h : d.Coherent) (e : Edit) : d.Follows (.edit e) (d.step (.edit e)) := by
  cases hc : e.check d.text with
  | error x =>
    have he : d.query.edit d.registry e = .error x := by
      unfold Query.edit
      rw [show e.check d.query.source = .error x from hc]
    have hs : d.step (.edit e) = (d, .refused x) := by simp only [step, edit, he]
    rw [hs]
    exact ⟨h, rfl, .editRefused hc⟩
  | ok _ =>
    obtain ⟨k⟩ := Edit.check_eq_ok_iff.mp hc
    obtain ⟨c, he⟩ := h.exists_edit k
    have hs : d.step (.edit e) = (⟨d.registry, .ofText d.registry k.result, d.revision + 1⟩,
        .revised ⟨d.revision + 1, c⟩) := by
      simp only [step, edit, he, revise]
    rw [hs]
    exact ⟨rfl, rfl, .edited (a := d.draft) k c⟩

theorem follows_sync (h : d.Coherent) (text : Text) :
    d.Follows (.sync text) (d.step (.sync text)) := by
  cases hb : Edit.between d.text text with
  | none =>
    have htext := Edit.between_eq_none_iff.mp hb
    subst htext
    have hs : d.step (.sync d.text) = (d, .unchanged) := by simp only [step, sync, hb]
    rw [hs]
    exact ⟨h, rfl, .syncedSame⟩
  | some e =>
    have hne : d.text ≠ text := by
      intro h0
      rw [Edit.between_eq_none_iff.mpr h0] at hb
      exact absurd hb (by simp)
    obtain ⟨k, hk⟩ := Edit.exists_cut_of_between hb
    obtain ⟨c, he⟩ := h.exists_edit k
    have hs : d.step (.sync text) = (⟨d.registry, .ofText d.registry text, d.revision + 1⟩,
        .revised ⟨d.revision + 1, c⟩) := by
      rw [hk] at he
      simp only [step, sync, hb, edit, he, revise]
    rw [hs]
    exact ⟨rfl, rfl, .synced hne c⟩

theorem follows_accept (h : d.Coherent) (index : Nat) (f : Field) :
    d.Follows (.accept index f) (d.step (.accept index f)) := by
  have htokens : (Query.ofText d.registry d.text).tokens = d.query.tokens :=
    congrArg Query.tokens h.symm
  cases ht : d.query.tokens[index]? with
  | none =>
    have hs : d.step (.accept index f) = (d, .refused (.noToken index)) := by
      simp only [step, accept, Query.accept, ht]
    rw [hs]
    exact ⟨h, rfl, .acceptNoToken f (htokens ▸ ht)⟩
  | some t =>
    by_cases hr : t.role = .field
    · have hlexed : Lexed (lex d.query.source) d.query.tokens :=
        htokens ▸ Query.lexed_ofText d.registry d.text
      obtain ⟨k, hk⟩ := Query.exists_cut_of_token hlexed ht f.name
      obtain ⟨c, he⟩ := h.exists_edit k
      have hs : d.step (.accept index f) =
          (⟨d.registry, .ofText d.registry k.result, d.revision + 1⟩,
            .accepted (t.span.start + f.name.byteLength)) := by
        simp only [step, accept, Query.accept, ht, if_pos hr, he, revise]
        rfl
      have hstart : k.front.byteLength = t.span.start := k.start_eq
      have htext : d.text = k.front ++ t.text ++ k.back := hk ▸ k.text_eq
      rw [hs, ← hstart]
      exact ⟨rfl, rfl, .accepted f (htokens ▸ ht) hr htext hstart⟩
    · have hs : d.step (.accept index f) = (d, .refused (.notAField index)) := by
        simp only [step, accept, Query.accept, ht, if_neg hr]
      rw [hs]
      exact ⟨h, rfl, .acceptNotAField f (htokens ▸ ht) hr⟩

/-- **One operation is one step of the draft**, and leaves the tokens those of the text. -/
theorem follows_step (h : d.Coherent) (op : Op) : d.Follows op (d.step op) := by
  cases op with
  | edit e => exact follows_edit h e
  | sync text => exact follows_sync h text
  | accept index f => exact follows_accept h index f
  | suggest caret =>
    refine ⟨h, rfl, ?_⟩
    show Draft.Step d.registry d.draft _ (.suggested (d.query.suggestAt d.registry caret)) d.draft
    rw [h]
    exact .suggested caret
  | reset =>
    refine ⟨?_, rfl, .reset⟩
    have hlex : lex [] = [] := lexFrom_nil 0
    show (⟨[], balanced (d.registry.judgeAll none [])⟩ : Query) =
      ⟨[], balanced (d.registry.judgeAll none (lex []))⟩
    rw [hlex]

/-! ## runs -/

theorem coherent_ofText (reg : Registry) (text : Text) : (ofText reg text).Coherent := rfl

theorem revision_step_le (h : d.Coherent) (op : Op) : (d.step op).1.revision ≤ d.revision + 1 := by
  have hs := (follows_step h op).step
  show (d.step op).1.draft.revision ≤ d.draft.revision + 1
  generalize (d.step op).1.draft = b, (d.step op).2 = r at hs
  cases hs with
  | edited | synced | accepted | reset => exact Nat.le_refl _
  | editRefused | syncedSame | acceptNoToken | acceptNotAField | suggested => exact Nat.le_succ _

theorem run_follows (h : d.Coherent) (ops : List Op) :
    (d.run ops).1.Coherent ∧ (d.run ops).1.registry = d.registry ∧
      Draft.Run d.registry d.draft ops (d.run ops).2 (d.run ops).1.draft ∧
      (d.run ops).1.revision ≤ d.revision + ops.length := by
  induction ops generalizing d with
  | nil => exact ⟨h, rfl, .nil _, Nat.le_refl _⟩
  | cons op ops ih =>
    have hs := follows_step h op
    have hrev := revision_step_le h op
    obtain ⟨h1, h2, h3, h4⟩ := ih hs.coherent
    rw [hs.registry_eq] at h2 h3
    refine ⟨h1, h2, .cons hs.step h3, ?_⟩
    show ((d.step op).1.run ops).1.revision ≤ _
    rw [List.length_cons]
    omega

/-- **A document refines its draft.**  Whatever is asked of a document, in whatever order, it
answers as its draft does; its tokens are those of its text then, and its revision has not grown
beyond the number of operations. -/
theorem run_refines (reg : Registry) (text : Text) (ops : List Op) :
    let (d, answers) := (ofText reg text).run ops
    Draft.Run reg ⟨text, 0⟩ ops answers ⟨d.text, d.revision⟩ ∧ d.query = .ofText reg d.text ∧
      d.revision ≤ ops.length := by
  obtain ⟨h1, h2, h3, h4⟩ := run_follows (coherent_ofText reg text) ops
  have hq : ((ofText reg text).run ops).1.query = .ofText reg ((ofText reg text).run ops).1.text := by
    rw [Coherent, h2] at h1
    exact h1
  exact ⟨h3, hq, (Nat.zero_add ops.length) ▸ h4⟩

end Document

end FilterQuery
