import KeyWrapping.Command.Spec
import KeyWrapping.Error

/-!
# Commands

A command has a declaration, a place in the overview of commands, and a script: what it does with a request. A script
prints to the output and to the errors, and may fail on the way; what it has printed by then stays printed.

Running a command ends with an outcome (`Command.run`). Its status is 0 if all went well, 1 if the command was used in a
wrong way, and 2 if it failed. The output goes to the file that the request names, if it names one.
-/

namespace KeyWrapping.Command

/-! ## Scripts -/

/-- How a command can fail. -/
inductive Failure where
  | usage (e : UsageError)
  /-- The command asked for a value that its declaration does not name. -/
  | noSuchValue (command name : String)
  | cannotOpen (path : String)
  | notAvailable (service cipher : String)
  | nameTaken (name : String)
  | library (e : Error)
  deriving DecidableEq, Repr

namespace Failure

/-- The words for a failure. -/
def wording : Failure → String
  | usage e => e.wording
  | noSuchValue command name => s!"Command {command} has no argument named {name}"
  | cannotOpen path => s!"Could not open {path} for writing"
  | notAvailable service cipher => s!"{service} is not available with {cipher}"
  | nameTaken name => s!"Duplicated registration of command {name}"
  | library e => e.wording

/-- The message of a failure. -/
def message (f : Failure) : String := Message.untilNul f.wording

/-- The exit status for a failure. -/
def status : Failure → Nat
  | usage _ => 1
  | _ => 2

/-- What is printed about a failure of a command with this help text. -/
def report (f : Failure) (help : String) : String :=
  match f with
  | usage _ => s!"Usage error: {f.message}\n{help}\n"
  | library (.invalidTag _) => s!"Integrity check failed: {f.message}\n"
  | _ => s!"Error: {f.message}\n"

end Failure

/-- What was printed. -/
structure Printed where
  output : String
  errors : String
  deriving DecidableEq, Repr

/-- What a command does. -/
abbrev Script := ExceptT Failure (StateM Printed)

namespace Script

/-- Prints to the output. -/
def print (text : String) : Script Unit := modify fun p => { p with output := p.output ++ text }

/-- Prints a remark beside the output. -/
def remark (text : String) : Script Unit := modify fun p => { p with errors := p.errors ++ text }

/-- The result of the library, or the script's failure. -/
def ofLibrary {α : Type} (result : Except Error α) : Script α :=
  match result with
  | .ok x => pure x
  | .error e => throw (.library e)

end Script

end Command

open Command in
/-- A command. -/
structure Command where
  spec : Spec
  group : String
  description : String
  help : String := s!"Usage: {spec.text}"
  script : Request → Script Unit

namespace Command

/-- The name of a command. -/
def name (c : Command) : String := c.spec.name

/-! ## Values in scripts -/

/-- The value with a name. -/
def Spec.value (spec : Spec) (r : Request) (name : String) : Script String :=
  match r.value? name with
  | some value => pure value
  | none => throw (.noSuchValue spec.name name)

/-- The bytes that the value with a name stands for in hex. -/
def Spec.hexValue (spec : Spec) (r : Request) (name : String) : Script Bytes := do
  let value ← spec.value r name
  let text := Bytes.ofText value
  match Hex.scan true (text.length / 2) none text with
  | (bytes, none) => return bytes
  | (_, some problem) => throw (.usage (.notHex name problem))

/-! ## Running -/

/-- How a run of a program ended. -/
structure Outcome where
  status : Nat
  output : String
  errors : String
  /-- The file that was opened, if one was, and what was written to it. -/
  file : Option (String × String)
  deriving DecidableEq, Repr

/-- The outcome when a command stops with a failure after it has printed something, to the file if one was opened. -/
def stopped (c : Command) (f : Failure) (printed : Printed) (path : Option String) : Outcome :=
  { status := f.status
    output := if path.isNone then printed.output else ""
    errors := printed.errors ++ f.report c.help
    file := path.map fun path => (path, printed.output) }

/-- The outcome when a command does its work. -/
def finished (printed : Printed) (path : Option String) : Outcome :=
  { status := 0
    output := if path.isNone then printed.output else ""
    errors := printed.errors
    file := path.map fun path => (path, printed.output) }

/-- Runs the script of a command. -/
def perform (c : Command) (r : Request) (path : Option String) : Outcome :=
  match (c.script r).run ⟨"", ""⟩ with
  | (.ok _, printed) => finished printed path
  | (.error f, printed) => c.stopped f printed path

/-- Runs a command on the words that it is given; `canOpen` says which files can be opened for writing. -/
def run (c : Command) (canOpen : String → Bool) (params : List String) : Outcome :=
  match c.spec.request params with
  | .error e => c.stopped (.usage e) ⟨"", ""⟩ none
  | .ok r =>
    if r.has "help" then finished ⟨c.help ++ "\n", ""⟩ none
    else
      match r.value? "output" with
      | none => c.stopped (.noSuchValue c.name "output") ⟨"", ""⟩ none
      | some path =>
        if path.isEmpty then c.perform r none
        else if canOpen path then c.perform r (some path)
        else c.stopped (.cannotOpen path) ⟨"", ""⟩ none

end Command

end KeyWrapping
