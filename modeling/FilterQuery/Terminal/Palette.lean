import FilterQuery.Query

/-!
# Colours

* `Color`, `Palette`    a colour for every verdict on a token;
* `Palette.color`       the colour of a token, `none` for the colour that the terminal has;
* `Palette.paint`       the text of a query with 24-bit colour sequences around its tokens.
-/

namespace FilterQuery

structure Color where
  red : UInt8
  green : UInt8
  blue : UInt8
deriving DecidableEq, Repr

structure Palette where
  parenthesis : Option Color
  stringField : Color
  numberField : Color
  condition : Color
  keyword : Color
  value : Color
  fault : Color
deriving DecidableEq, Repr

namespace Palette

def default : Palette where
  parenthesis := none
  stringField := ⟨0x21, 0x96, 0xF3⟩
  numberField := ⟨0x67, 0x3A, 0xB7⟩
  condition := ⟨0x79, 0x55, 0x48⟩
  keyword := ⟨0xFF, 0x85, 0x00⟩
  value := ⟨0x6B, 0xB3, 0x59⟩
  fault := ⟨0xD5, 0x00, 0x00⟩

instance : Inhabited Palette := ⟨default⟩

/-- A fault hides all else about a token. -/
def color (p : Palette) (t : Token) : Option Color :=
  if t.IsValid then
    match t.role with
    | .blank => none
    | .openParen | .closeParen => p.parenthesis
    | .field => if t.resolution = some (.known .number) then p.numberField else p.stringField
    | .condition => p.condition
    | .value => p.value
    | .keyword => p.keyword
  else p.fault

end Palette

/-! ## painting -/

/-- sets the colour of the characters that follow -/
def Color.start (c : Color) : Text :=
  "\x1b[38;2;".toList ++ Text.decimal c.red.toNat ++ ';' :: Text.decimal c.green.toNat ++
    ';' :: Text.decimal c.blue.toNat ++ ['m']

/-- back to plain characters -/
def plain : Text := "\x1b[0m".toList

def Color.around : Option Color → Text → Text
  | none, s => s
  | some c, s => c.start ++ s ++ plain

/-- faint characters, for what is not typed yet -/
def faint (s : Text) : Text := "\x1b[2m".toList ++ s ++ plain

def Palette.paint (p : Palette) (q : Query) : Text :=
  q.tokens.flatMap (fun t => Color.around (p.color t) t.text)

end FilterQuery
