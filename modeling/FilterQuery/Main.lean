import FilterQuery.Terminal.Session

/-!
# The command line

Reads `fields.json`, greets, and answers the lines of standard input.
-/

namespace FilterQuery

def notJson : Text := "the bytes are no JSON text".toList

/-- what is found, and why it is refused if it is -/
def readStored (path : String) : IO (Stored × Text) := do
  try
    return (.bytes (← IO.FS.readBinFile path), notJson)
  catch
    | .noFileOrDirectory .. => return (.absent, [])
    | e => return (.unreadable, (toString e).toList)

def printLines (lines : List Text) : IO Unit := do
  for line in lines do
    IO.println (String.ofList line)

def readLine (input : IO.FS.Stream) : IO Reading := do
  try
    let line ← input.getLine
    if line.isEmpty then return .ended
    return .line (inputLine line.toList)
  catch _ => return .failed

partial def answerLines (input : IO.FS.Stream) (a : Session) : IO Nat := do
  match a.answer (← readLine input) with
  | .stop exitCode => return exitCode
  | .next b printed =>
    printLines printed
    answerLines input b

def runProgram : IO UInt32 := do
  let (file, reason) ← readStored (String.ofList fieldsFile)
  let loaded := Registry.ofFile fieldsFile file
  printLines (greeting loaded reason)
  let exitCode ← answerLines (← IO.getStdin) (.new (loadedOrBuiltin loaded))
  return exitCode.toUInt32

end FilterQuery

def main : IO UInt32 := FilterQuery.runProgram
