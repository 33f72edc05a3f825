import KeyWrapping.Bytes
import KeyWrapping.Error

/-!
# Ranges of memory

Copying and combining two ranges asks for equal sizes and otherwise leaves the target alone. Fresh memory is zeroed;
none is given for an empty request, and a request beyond what can be addressed fails.
-/

namespace KeyWrapping.Memory

/-- The target combined with the source by exclusive or. -/
def xorInto (target source : Bytes) : Except Error Bytes := do
  ensure (target.length == source.length) (.invalidArgument "xor_buf ranges must have equal length")
  return target.xor source

/-- The target overwritten by the source. -/
def copyInto (target source : Bytes) : Except Error Bytes := do
  ensure (target.length == source.length) (.invalidArgument "copy_mem ranges must have equal length")
  return source

/-- The largest number of bytes that a request for memory can be granted. -/
def addressable : Nat := 1 <<< 47

/-- What a request for memory leads to. -/
inductive Grant where
  | nothing
  | memory (bytes : Bytes)
  | exhausted

/-- Asks for room for `count` elements of `size` bytes each. -/
def allocate (count size : Nat) : Grant :=
  if count = 0 ∨ size = 0 then .nothing
  else if addressable < count * size then .exhausted
  else .memory (Bytes.zeros (count * size))

end KeyWrapping.Memory
