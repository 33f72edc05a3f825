import KeyWrapping.Command.Basic
import KeyWrapping.Kek.Aes
import KeyWrapping.Kek.Belt
import KeyWrapping.Version

/-!
# The key wrapping tool

The commands of the tool wrap and unwrap keys, print the version, and print an overview. They are kept in a registry in
the order of their names, in which a name can be taken only once (`Registry.register`). The tool looks its first word up
there and runs the command on the others (`Tool.run`).
-/

namespace KeyWrapping

open Command

/-! ## Commands -/

namespace Tool

/-- The algorithm of a cipher name; with no name it is AES for the length of the key encryption key. -/
def algorithm (cipher : String) (kek : Bytes) : Script Algorithm :=
  let name := if cipher.isEmpty then s!"AES-{8 * kek.length}" else cipher
  match Catalogue.find? name "" with
  | some a => pure a
  | none => throw (.notAvailable "NIST key wrap" name)

/-- Prints the result of a service under the named cipher, for the data in the value with the given name. -/
def serve (spec : Spec) (service : (padded : Bool) → Service) (data : String) (remark : Bool) (r : Request) :
    Script Unit := do
  let kek ← spec.hexValue r "kek"
  let data ← spec.hexValue r data
  let a ← algorithm (← spec.value r "cipher") kek
  let c ← Script.ofLibrary ((Cipher.fresh a).setKey kek)
  let padded := r.has "padded"
  let result ← Script.ofLibrary ((service padded).run c data)
  let mode := if padded then "KWP" else "KW"
  if remark && r.has "verbose" then Script.remark s!"{mode} with {a.name}\n"
  Script.print s!"{Hex.upperText result}\n"

/-- Prints the result of a service with a header, for the data in the value with the given name. -/
def serveHeaded (spec : Spec) (service : BeltKek.Service) (data : String) (r : Request) : Script Unit := do
  let kek ← spec.hexValue r "kek"
  let header ← spec.hexValue r "header"
  let data ← spec.hexValue r data
  let k ← Script.ofLibrary (BeltKek.create kek)
  let result ← Script.ofLibrary (service.run (.ok k.cipher) data header)
  Script.print s!"{Hex.upperText result}\n"

/-- Wraps a key under a named cipher. -/
def nistWrap : Command :=
  let spec := Spec.ofText "nist_kw_wrap --padded --cipher= kek key"
  { spec
    group := "keywrap"
    description := "Wrap a key with AES-KW (RFC 3394) or AES-KWP (RFC 5649)"
    script := serve spec (fun padded => if padded then .wrapPadded else .wrap) "key" true }

/-- Unwraps a key under a named cipher. -/
def nistUnwrap : Command :=
  let spec := Spec.ofText "nist_kw_unwrap --padded --cipher= kek wrapped"
  { spec
    group := "keywrap"
    description := "Unwrap and verify a key wrapped with AES-KW or AES-KWP"
    script := serve spec (fun padded => if padded then .unwrapPadded else .unwrap) "wrapped" false }

/-- Wraps a key with a header. -/
def beltWrap : Command :=
  let spec := Spec.ofText "belt_kwp_wrap kek header data"
  { spec
    group := "keywrap"
    description := "Wrap a key with BelT-KWP (STB 34.101.31)"
    script := serveHeaded spec .wrap "data" }

/-- Unwraps a key with a header. -/
def beltUnwrap : Command :=
  let spec := Spec.ofText "belt_kwp_unwrap kek header wrapped"
  { spec
    group := "keywrap"
    description := "Unwrap a BelT-KWP value and check its header"
    script := serveHeaded spec .unwrap "wrapped" }

/-- Prints the version. -/
def version : Command :=
  { spec := Spec.ofText "version --full"
    group := "info"
    description := "Print the library version"
    script := fun r => Script.print ((if r.has "full" then Version.full else Version.short) ++ "\n") }

end Tool

/-! ## The registry -/

/-- Commands in the order of their names. -/
abbrev Registry := List Command

namespace Registry

/-- The command with a name. -/
def find? (registry : Registry) (name : String) : Option Command := List.find? (fun c => c.name == name) registry

/-- Puts a command in its place. -/
def insert (c : Command) : Registry → Registry
  | [] => [c]
  | d :: rest => if c.name < d.name then c :: d :: rest else d :: insert c rest

/-- Adds a command, whose name must not be taken. -/
def register (registry : Registry) (c : Command) : Except Failure Registry :=
  if (registry.find? c.name).isSome then .error (.nameTaken c.name) else .ok (insert c registry)

/-- A name made as wide as the overview's column. -/
def column (name : String) : String := name ++ String.ofList (List.replicate (16 - name.length) ' ')

/-- The overview's lines about one group. -/
def groupLines (registry : Registry) (group title : String) : String :=
  s!"\n{title}:\n" ++
    String.join ((registry.filter (·.group == group)).map fun c => s!"   {column c.name}   {c.description}\n")

/-- The overview of the commands in a registry. -/
def overview (registry : Registry) : String :=
  "Usage: keywrap <cmd> <cmd-options>\n" ++
    "Every command accepts --help --verbose --output=\n" ++
    "Keys, headers and wrapped values are hex\n" ++
    registry.groupLines "keywrap" "Key wrapping" ++ registry.groupLines "info" "Informational"

end Registry

namespace Tool

/-- The command that prints the overview of the other commands, in no group itself. -/
def help (others : Registry) : Command :=
  { spec := Spec.ofText "help"
    group := ""
    description := "Prints a help string"
    help := others.overview
    script := fun _ => Script.print others.overview }

/-- The commands of the tool. -/
def registry : Registry :=
  let others := [nistWrap, nistUnwrap, beltWrap, beltUnwrap, version].foldr Registry.insert []
  Registry.insert (help others) others

/-- Registers the command with a name once more, if there is one. -/
def registerAgain (name : String) : Option (Except Failure Registry) := (registry.find? name).map registry.register

/-- The name of the command that the tool's first word stands for. -/
def commandName (word : String) : String := if word = "--help" ∨ word = "-h" then "help" else word

/-- Runs the tool on the words of its command line. -/
def run (canOpen : String → Bool) (args : List String) : Outcome :=
  let name := commandName (args.headD "help")
  match registry.find? name with
  | none => ⟨1, "", s!"Unknown command {name} (try --help)\n", none⟩
  | some c => if args.isEmpty then ⟨1, "", c.help, none⟩ else c.run canOpen args.tail

end Tool

end KeyWrapping
