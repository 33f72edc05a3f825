import KeyWrapping.Command.Basic

/-!
# A command that shows what it was given

An inspection prints, in order, the flags and values it is asked for, one to a line, and so shows how a declaration
reads the words of a command line.
-/

namespace KeyWrapping.Command

/-- What an inspection can be asked for. -/
inductive Question where
  | flag (name : String)
  | value (name : String)
  /-- The value with a name, read as hex and written in upper case. -/
  | hex (name : String)
  deriving DecidableEq, Repr

namespace Question

/-- What a line about the question begins with. -/
def label : Question → String
  | flag name => s!"flag {name}="
  | value name => s!"arg {name}="
  | hex name => s!"hex {name}="

/-- What the question asks for. -/
def answer (spec : Spec) (r : Request) : Question → Script String
  | flag name => pure (if r.has name then "yes" else "no")
  | value name => spec.value r name
  | hex name => do return Hex.upperText (← spec.hexValue r name)

end Question

/-- Prints a line for each question; the beginning of a line is printed before its answer is sought. -/
def inspect (spec : Spec) (r : Request) : List Question → Script Unit
  | [] => pure ()
  | question :: rest => do
    Script.print question.label
    let answer ← question.answer spec r
    Script.print s!"{answer}\n"
    inspect spec r rest

/-- A command that answers questions about its request. -/
def inspection (spec : Spec) (questions : List Question) : Command where
  spec := spec
  group := ""
  description := ""
  script r := do
    inspect spec r questions
    if r.has "verbose" then Script.remark "verbose\n"

end KeyWrapping.Command
