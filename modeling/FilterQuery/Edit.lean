import FilterQuery.Span
import FilterQuery.Text

/-!
# Edits of a text

An edit replaces one range of bytes.

* `Edit.check`     whether it fits a text; `EditError` is the first reason why not;
* `Edit.apply`     the text after it;
* `Edit.delta`     by how many bytes the text grows;
* `Edit.between`   the smallest edit that turns one text into another.
-/

namespace FilterQuery

structure Edit where
  range : Span
  replacement : Text
deriving DecidableEq, Repr

inductive EditError where
  | outOfBounds (start stop length : Nat)
  | insideCharacter (offset : Nat)
  | noToken (index : Nat)
  | notAField (index : Nat)
deriving DecidableEq, Repr

namespace EditError

def message : EditError → Text
  | outOfBounds start stop length =>
    "edit range ".toList ++ Text.decimal start ++ "..".toList ++ Text.decimal stop ++
      " is outside the text (length ".toList ++ Text.decimal length ++ ")".toList
  | insideCharacter offset =>
    "offset ".toList ++ Text.decimal offset ++ " is not on a character boundary".toList
  | noToken index => "no token at index ".toList ++ Text.decimal index
  | notAField index => "token at index ".toList ++ Text.decimal index ++ " is not a field".toList

end EditError

namespace Edit

def insert (offset : Nat) (t : Text) : Edit := ⟨⟨offset, offset⟩, t⟩

def delete (range : Span) : Edit := ⟨range, []⟩

/-- The range lies in the text and neither end inside a character. -/
def check (e : Edit) (s : Text) : Except EditError Unit :=
  if e.range.stop < e.range.start ∨ s.byteLength < e.range.stop then
    .error (.outOfBounds e.range.start e.range.stop s.byteLength)
  else if ¬ s.IsBoundary e.range.start then .error (.insideCharacter e.range.start)
  else if ¬ s.IsBoundary e.range.stop then .error (.insideCharacter e.range.stop)
  else .ok ()

def apply (e : Edit) (s : Text) : Text := s.replaceBytes e.range.start e.range.stop e.replacement

def delta (e : Edit) : Int := (e.replacement.byteLength : Int) - (e.range.length : Int)

/-- where the inserted text ends -/
def stop (e : Edit) : Nat := e.range.start + e.replacement.byteLength

end Edit

/-! ## the edit between two texts -/

/-- the longest common beginning -/
def Text.commonStart : Text → Text → Text
  | c :: s, d :: t => if c = d then c :: commonStart s t else []
  | _, _ => []

theorem Text.commonStart_left (s t : Text) : commonStart s t <+: s := by
  induction s generalizing t with
  | nil => simp [commonStart]
  | cons c s ih =>
    cases t with
    | nil => simp [commonStart]
    | cons d t =>
      unfold commonStart
      split
      · exact List.cons_prefix_cons.mpr ⟨rfl, ih t⟩
      · exact List.nil_prefix

theorem Text.commonStart_comm (s t : Text) : commonStart s t = commonStart t s := by
  induction s generalizing t with
  | nil => cases t <;> rfl
  | cons c s ih =>
    cases t with
    | nil => rfl
    | cons d t =>
      unfold commonStart
      by_cases h : c = d
      · subst h
        rw [if_pos rfl, if_pos rfl, ih]
      · rw [if_neg h, if_neg (Ne.symm h)]

theorem Text.commonStart_right (s t : Text) : commonStart s t <+: t := by
  rw [commonStart_comm]
  exact commonStart_left t s

/-- Leaves the common beginning alone, then the common end of what follows it. -/
def Edit.between (old new : Text) : Option Edit :=
  if old = new then none
  else
    let front := old.commonStart new
    let before := old.drop front.length
    let after := new.drop front.length
    let back := (Text.commonStart before.reverse after.reverse).length
    let removed : Text := before.take (before.length - back)
    some ⟨⟨front.byteLength, front.byteLength + removed.byteLength⟩,
      after.take (after.length - back)⟩

end FilterQuery
