import FilterQuery.Text.Grapheme.Property

/-!
# Grapheme clusters

A grapheme cluster is what a reader takes for one character: a letter with its accents, a Hangul
syllable, a flag, a group of joined pictographs.  Two characters in a row are in one cluster by the
rules of Unicode for extended grapheme clusters, which look at the characters in front as well.

Only the reader of lines needs clusters, for what a backspace takes back.  No theorem reaches them:
what is proved of sessions takes the lines as given.

* `Grapheme.Class`, `classOf`   what the rules know about a character;
* `Grapheme.State`              what they know about the characters in front;
* `State.joins`                 whether a character goes on with the cluster in front of it;
* `Text.clusters`               the clusters of a text.
-/

namespace FilterQuery

namespace Grapheme

/-! ## characters -/

inductive Class where
  | carriageReturn
  | lineFeed
  | control
  | extend
  | joiner
  | spacing
  | prepend
  /-- a consonant at the start of a Hangul syllable -/
  | leading
  | vowel
  /-- a consonant at the end of a Hangul syllable -/
  | trailing
  /-- a Hangul syllable without a last consonant -/
  | openSyllable
  | closedSyllable
  /-- half a flag -/
  | regional
  | pictograph
  /-- a consonant that may be part of a conjunct -/
  | consonant
  | other
deriving DecidableEq, Repr

/-- the Hangul letters and syllables; a syllable without a last consonant is followed by the 27
syllables that have one -/
def hangulClassOf (n : Nat) : Option Class :=
  let within (a b : Nat) : Bool := a ≤ n && n ≤ b
  if within 0x1100 0x115f || within 0xa960 0xa97c then some .leading
  else if within 0x1160 0x11a7 || within 0xd7b0 0xd7c6 then some .vowel
  else if within 0x11a8 0x11ff || within 0xd7cb 0xd7fb then some .trailing
  else if within 0xac00 0xd7a3 then
    some (if (n - 0xac00) % 28 = 0 then .openSyllable else .closedSyllable)
  else none

/-- the vowels of Kirat Rai, which combine as those of Hangul do -/
def isCombiningVowel (n : Nat) : Bool := n = 0x16d63 || (0x16d67 ≤ n && n ≤ 0x16d6a)

def classOf (c : Char) : Class :=
  let n := c.toNat
  if c = '\r' then .carriageReturn
  else if c = '\n' then .lineFeed
  else if ' ' ≤ c ∧ c ≤ '~' then .other
  else if controls.has c then .control
  else if n = 0x200d then .joiner
  else if extenders.has c then .extend
  else if spacingMarks.has c then .spacing
  else if prepended.has c then .prepend
  else if 0x1f1e6 ≤ n ∧ n ≤ 0x1f1ff then .regional
  else if pictographs.has c then .pictograph
  else if conjunctConsonants.has c then .consonant
  else if isCombiningVowel n then .vowel
  else (hangulClassOf n).getD .other

/-! ## the characters in front -/

structure State where
  last : Class
  /-- they end in a pictograph and extenders -/
  pictograph : Bool
  /-- they end in a pictograph, extenders and a joiner -/
  joined : Bool
  /-- they end in an odd number of regional indicators -/
  oddRegional : Bool
  /-- they end in a consonant with extenders, joiners and linkers -/
  conjunct : Bool
  /-- there is a linker among these -/
  linked : Bool
deriving DecidableEq, Repr

namespace State

def start : State := ⟨.control, false, false, false, false, false⟩

/-- The non-joiner extends a character but ends a conjunct. -/
def keepsConjunct (c : Char) : Bool :=
  (classOf c = .extend || classOf c = .joiner) && c.toNat ≠ 0x200c

def next (k : State) (c : Char) : State where
  last := classOf c
  pictograph := classOf c = .pictograph || (k.pictograph && classOf c = .extend)
  joined := k.pictograph && classOf c = .joiner
  oddRegional := classOf c = .regional && !k.oddRegional
  conjunct := classOf c = .consonant || (k.conjunct && keepsConjunct c)
  linked := k.conjunct && keepsConjunct c && (k.linked || conjunctLinkers.has c)

/-- The first rule that speaks of two neighbours decides. -/
def joins (k : State) (c : Char) : Bool :=
  match k.last, classOf c with
  | .carriageReturn, .lineFeed => true
  | .carriageReturn, _ | .lineFeed, _ | .control, _ => false
  | _, .carriageReturn | _, .lineFeed | _, .control => false
  | .leading, .leading | .leading, .vowel | .leading, .openSyllable | .leading, .closedSyllable =>
    true
  | .openSyllable, .vowel | .openSyllable, .trailing | .vowel, .vowel | .vowel, .trailing => true
  | .closedSyllable, .trailing | .trailing, .trailing => true
  | _, .extend | _, .joiner | _, .spacing => true
  | .prepend, _ => true
  | _, .consonant => k.linked
  | _, .pictograph => k.joined
  | .regional, .regional => k.oddRegional
  | _, _ => false

end State

/-- the characters that go on with a cluster, and the text behind it -/
def restOfCluster (k : State) : Text → Text × Text
  | [] => ([], [])
  | c :: s =>
    if k.joins c then
      let (g, rest) := restOfCluster (k.next c) s
      (c :: g, rest)
    else ([], c :: s)

theorem restOfCluster_append (k : State) (s : Text) :
    (restOfCluster k s).1 ++ (restOfCluster k s).2 = s := by
  induction s generalizing k with
  | nil => rfl
  | cons c s ih =>
    unfold restOfCluster
    split
    · show c :: ((restOfCluster (k.next c) s).1 ++ (restOfCluster (k.next c) s).2) = c :: s
      rw [ih]
    · rfl

theorem restOfCluster_length_le (k : State) (s : Text) :
    (restOfCluster k s).2.length ≤ s.length := by
  have h := congrArg List.length (restOfCluster_append k s)
  rw [List.length_append] at h
  omega

end Grapheme

namespace Text

open Grapheme

/-- What is in front of a cluster does not matter for where it ends. -/
def clusters : Text → List Text
  | [] => []
  | c :: s =>
    let r := restOfCluster (State.start.next c) s
    (c :: r.1) :: clusters r.2
termination_by s => s.length
decreasing_by exact Nat.lt_succ_of_le (restOfCluster_length_le _ s)

end Text

end FilterQuery
