import KeyWrapping.Bytes
import KeyWrapping.Foreign.Status

/-!
# The memory of foreign callers

A foreign caller passes memory by pointers that may be null, and lengths beside them. Input is a pointer and the
number of bytes to read behind it. Output is a pointer to a buffer and a pointer to a length, which says how many
bytes the buffer has before the call and how many the result has after it. Input and output share no memory: what is
written or wiped in an output changes no input.

A result is written if there is a buffer and the result fits; otherwise the buffer is wiped (`Output.deliver`).
-/

namespace KeyWrapping.Foreign

/-- Memory to read from. -/
structure Input where
  pointer : Option Bytes
  length : Nat
  deriving DecidableEq, Repr

namespace Input

/-- The bytes to read. -/
def bytes (input : Input) : Bytes := (input.pointer.getD []).take input.length

/-- Whether the pointer is null. -/
def isNull (input : Input) : Bool := input.pointer.isNone

end Input

/-- Memory for a result. -/
structure Output where
  buffer : Option Bytes
  length : Option Nat
  deriving DecidableEq, Repr

namespace Output

/-- No memory at all. -/
def none : Output := ⟨.none, .none⟩

/-- The output with the buffer wiped as far as the length says. -/
def wiped (output : Output) : Output :=
  match output.length with
  | .none => output
  | some n => { output with buffer := output.buffer.map (Bytes.wipeFront n) }

/-- Delivers a result: the length becomes that of the result, which is written if it fits. -/
def deliver (output : Output) (result : Bytes) : Status × Output :=
  match output.length, output.buffer with
  | .none, _ => (.nullPointer, output)
  | some _, .none => (.shortBuffer, ⟨.none, some result.length⟩)
  | some n, some buffer =>
    if n < result.length then (.shortBuffer, ⟨some (buffer.wipeFront n), some result.length⟩)
    else (.success, ⟨some (buffer.overwrite result), some result.length⟩)

end Output

end KeyWrapping.Foreign
