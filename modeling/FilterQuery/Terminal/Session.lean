import FilterQuery.Json.Writer
import FilterQuery.Query.Export
import FilterQuery.Registry.File
import FilterQuery.Terminal.Line
import FilterQuery.Terminal.Prompt
import FilterQuery.Terminal.Report

/-!
# Sessions

A session reads lines and prints what it has to say about each.

* `Command.ofLine`    what a line asks for;
* `Session.step`      one line: the session afterwards and the lines printed, or the end;
* `Session.answer`    one wait for a line, whatever comes of it;
* `Session.serve`     one wait after the other;
* `execute`           the program from the registry file on, with its exit code; why the file was
  refused, if it was, is given in the words of whoever refused it;
* `program`           everything printed for a registry file and an input.
-/

namespace FilterQuery

/-! ## commands -/

inductive Command where
  | nothing
  | quit
  /-- the last query as JSON -/
  | json
  | fields (beginning : Text)
  | query (line : Text)
deriving DecidableEq, Repr

/-- Blanks around a command do not matter; a query is the line as it is. -/
def Command.ofLine (line : Text) : Command :=
  let s := line.trim
  if s = [] then .nothing
  else if s = ":quit".toList ∨ s = ":q".toList then .quit
  else if s = ":json".toList then .json
  else
    match Text.after? ":fields".toList s with
    | some beginning => .fields beginning.trim
    | none => .query line

/-! ## sessions -/

structure Session where
  registry : Registry
  prompt : Prompt
  /-- the last query entered -/
  last : Query

namespace Session

def new (reg : Registry) : Session := ⟨reg, .new reg, .empty⟩

def step (a : Session) (line : Text) : Option (Session × List Text) :=
  match Command.ofLine line with
  | .nothing => some (a, [])
  | .quit => none
  | .json => some (a, [a.last.toJson.pretty 0])
  | .fields beginning => some (a, a.registry.report beginning)
  | .query line =>
    let (prompt, query) := a.prompt.finish line
    some ({ a with prompt := prompt, last := query }, query.report)

end Session

/-! ## waiting for lines -/

/-- what comes of waiting for a line -/
inductive Reading where
  | line (s : Text)
  /-- the input is at its end, or the wait was interrupted -/
  | ended
  | failed
deriving DecidableEq, Repr

namespace Session

/-- what a session does about a reading -/
inductive Turn where
  | stop (exitCode : Nat)
  | next (a : Session) (printed : List Text)

def answer (a : Session) : Reading → Turn
  | .line s =>
    match a.step s with
    | none => .stop 0
    | some (b, printed) => .next b printed
  | .ended => .stop 0
  | .failed => .stop 1

end Session

/-- what is left of the program when it has ended -/
structure Outcome where
  /-- all that was printed, each item with a line end behind it -/
  printed : List Text
  exitCode : Nat
deriving DecidableEq, Repr

/-- There is always one more reading, so a list of them is at its end only after an end. -/
def Session.serve (a : Session) : List Reading → Outcome
  | [] => ⟨[], 0⟩
  | r :: rs =>
    match a.answer r with
    | .stop code => ⟨[], code⟩
    | .next b printed =>
      let later := serve b rs
      ⟨printed ++ later.printed, later.exitCode⟩

/-! ## the program -/

def fieldsFile : Text := "fields.json".toList

def banner : Text := "--- HQL Editor: filter query highlighter ---".toList

/-- what came of loading the file, with the reason that the system or the reader of JSON gave if one
of them refused it -/
def loadMessage (loaded : Except LoadError Registry) (reason : Text) : Text :=
  match loaded with
  | .ok reg => "✅ Loaded ".toList ++ Text.decimal reg.fields.length ++ " fields from ".toList ++
      fieldsFile
  | .error e => "⚠️ Could not load ".toList ++ fieldsFile ++ " (".toList ++ e.message reason ++
      "), using built-in fields".toList

/-- the registry that is used whatever loading gave -/
def loadedOrBuiltin : Except LoadError Registry → Registry
  | .ok reg => reg
  | .error _ => .builtin

def help : Text := "Tab completes field names. Commands: :fields [prefix]  :json  :quit".toList

/-- what is printed before the first line is read -/
def greeting (loaded : Except LoadError Registry) (reason : Text) : List Text :=
  banner :: loadMessage loaded reason :: (loadedOrBuiltin loaded).report [] ++ [help, []]

def execute (file : Stored) (reason : Text) (readings : List Reading) : Outcome :=
  let loaded := Registry.ofFile fieldsFile file
  let served := (Session.new (loadedOrBuiltin loaded)).serve readings
  ⟨greeting loaded reason ++ served.printed, served.exitCode⟩

/-- the readings of an input with these lines -/
def readings (lines : List Text) : List Reading := lines.map Reading.line ++ [.ended]

/-- all that is printed, each item with a line end behind it -/
def program (file : Stored) (input : Text) (reason : Text := []) : List Text :=
  (execute file reason (readings (inputLines input))).printed

end FilterQuery
