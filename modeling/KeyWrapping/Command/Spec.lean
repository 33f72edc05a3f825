import KeyWrapping.Command.Item
import KeyWrapping.Hex

/-!
# What a command accepts

A command is declared by a line of words: its name, and then its flags, its options with their defaults, and the names
of the words it needs. Every command also has the flags `help` and `verbose` and the option `output`, which is empty
unless it is given.

`Spec.request` reads the words that a command is given. They may come in any order, but the plain ones are told apart by
their place. A request for help need not be complete.
-/

namespace KeyWrapping.Command

/-! ## Errors -/

/-- How the words that a command is given can be wrong. -/
inductive UsageError where
  | unknownFlag (name : String)
  | unknownOption (name : String)
  | repeatedOption (name : String)
  | wrongCount (got expected : Nat)
  | notHex (name : String) (problem : Hex.Problem)
  deriving DecidableEq, Repr

/-- The words for a usage error. -/
def UsageError.wording : UsageError → String
  | unknownFlag name => s!"Unknown flag --{name}"
  | unknownOption name => s!"Unknown option --{name}"
  | repeatedOption name => s!"Option --{name} given twice"
  | wrongCount got expected => s!"Invalid argument count, got {got} expected {expected}"
  | notHex name problem => s!"Argument {name} is not valid hex: {problem.message}"

/-! ## Declarations -/

/-- What a command accepts. -/
structure Spec where
  text : String
  positionals : List String
  flags : List String
  /-- The names of the options with their defaults; of two entries with one name the first counts. -/
  options : List (String × String)
  deriving DecidableEq, Repr

/-- Reads a declaration. -/
def Spec.ofText (text : String) : Spec :=
  let items := (words text.toList).tail.map Item.ofChars
  { text
    positionals := items.filterMap Item.plain?
    flags := ["help", "verbose"] ++ items.filterMap Item.flag?
    options := ("output", "") :: (items.filterMap Item.option?).reverse }

/-- The name of a command, which ends at the first space of its declaration. -/
def Spec.name (spec : Spec) : String := String.ofList (spec.text.toList.takeWhile (· != ' '))

/-! ## Requests -/

/-- What a command was given. -/
structure Request where
  flags : List String
  /-- The values by name; of two entries with one name the first counts. -/
  values : List (String × String)
  deriving DecidableEq, Repr

namespace Request

/-- Whether a flag was given. -/
def has (r : Request) (flag : String) : Bool := flag ∈ r.flags

/-- The value with a name. -/
def value? (r : Request) (name : String) : Option String := r.values.lookup name

end Request

/-- The flags, options and plain words read so far; the latest come first. -/
structure Given where
  flags : List String
  options : List (String × String)
  plain : List String
  deriving DecidableEq, Repr

namespace Spec

/-- Reads one more word. -/
def take (spec : Spec) (given : Given) (word : String) : Except UsageError Given :=
  match Item.ofWord word with
  | .plain word => .ok { given with plain := word :: given.plain }
  | .flag name =>
    if name ∈ spec.flags then .ok { given with flags := name :: given.flags } else .error (.unknownFlag name)
  | .option name value =>
    if (spec.options.lookup name).isNone then .error (.unknownOption name)
    else if (given.options.lookup name).isSome then .error (.repeatedOption name)
    else .ok { given with options := (name, value) :: given.options }

/-- Reads words in order, up to the first that is wrong. -/
def takeAll (spec : Spec) (given : Given) : List String → Except UsageError Given
  | [] => .ok given
  | word :: rest => do
    let given ← spec.take given word
    takeAll spec given rest

/-- The request that the words make. A plain word takes precedence over an option of the same name, and a later one over
an earlier one; defaults stand in for what is missing. -/
def request (spec : Spec) (params : List String) : Except UsageError Request := do
  let given ← spec.takeAll ⟨[], [], []⟩ params
  if "help" ∈ given.flags then return ⟨given.flags, given.options⟩
  if given.plain.length = spec.positionals.length then
    return ⟨given.flags, (spec.positionals.zip given.plain.reverse).reverse ++ given.options ++ spec.options⟩
  throw (.wrongCount given.plain.length spec.positionals.length)

end Spec

end KeyWrapping.Command
