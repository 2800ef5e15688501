import FilterQuery.Text.Grapheme

/-!
# Lines of input

How a reader of lines cuts an input that does not come from a terminal, and takes back characters at
a backspace.  No theorem reaches this: what is proved of sessions takes the lines as given.

* `rawLines`         the lines of a text with their ends;
* `withoutEnd`       a line without its end;
* `withoutErased`    a line after its backspaces have taken back what was typed in front of them;
* `inputLines`       the lines that a text of input stands for.
-/

namespace FilterQuery

/-! ## ends of lines -/

def rawLines : Text → List Text
  | [] => []
  | c :: s =>
    if c = '\n' then [c] :: rawLines s
    else
      match rawLines s with
      | [] => [[c]]
      | l :: ls => (c :: l) :: ls

/-- a line without the line feed at its end and without a carriage return in front of that -/
def withoutEnd (line : Text) : Text :=
  match line.reverse with
  | '\n' :: '\r' :: s => s.reverse
  | '\n' :: s => s.reverse
  | _ => line

/-! ## backspaces -/

/-- a line that is being typed; the size in bytes of each cluster is kept in one byte, the last
cluster first -/
structure Typing where
  text : Text
  sizes : List UInt8
deriving DecidableEq, Repr

namespace Typing

def backspace : Text := ['\x08']

/-- A backspace takes back as many bytes as the last cluster has; without one it does nothing. -/
def enter (a : Typing) (cluster : Text) : Typing :=
  if cluster = backspace then
    match a.sizes with
    | [] => a
    | n :: ns => ⟨a.text.takeBytes (a.text.byteLength - n.toNat), ns⟩
  else ⟨a.text ++ cluster, .ofNat cluster.byteLength :: a.sizes⟩

end Typing

/-- A line without backspaces is as it was typed. -/
def withoutErased (line : Text) : Text :=
  if line.contains '\x08' then (line.clusters.foldl Typing.enter ⟨[], []⟩).text else line

/-! ## input -/

def inputLine (raw : Text) : Text := withoutErased (withoutEnd raw)

def inputLines (s : Text) : List Text := (rawLines s).map inputLine

end FilterQuery
