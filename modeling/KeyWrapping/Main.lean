import KeyWrapping.Command.Tool

/-!
# The command line

The outcome of a run is computed first. If it writes a file that cannot be opened, the run is computed again with that
known.
-/

namespace KeyWrapping.Tool

/-- Opens a file for writing and writes the text to it; answers whether that was possible. -/
def writeFile (path text : String) : IO Bool :=
  try
    IO.FS.writeFile path text
    return true
  catch _ => return false

end KeyWrapping.Tool

open KeyWrapping

/-- Runs the tool. -/
def main (args : List String) : IO UInt32 := do
  let outcome := Tool.run (fun _ => true) args
  let outcome ←
    match outcome.file with
    | some (path, text) =>
      if ← Tool.writeFile path text then pure outcome else pure (Tool.run (fun _ => false) args)
    | none => pure outcome
  IO.print outcome.output
  IO.eprint outcome.errors
  return outcome.status.toUInt32
