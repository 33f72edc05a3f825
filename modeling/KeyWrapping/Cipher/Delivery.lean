import KeyWrapping.Cipher.Basic
import KeyWrapping.Delivery

/-!
# Processing blocks in a caller's buffer

The processed blocks go to the front of a buffer that the caller lends, and what one call of a backend gives is there
before the next call is made. A cipher without a key notices before the first block. To process data in place is to lend
the data themselves as the buffer.
-/

namespace KeyWrapping

namespace Algorithm

/-- Hands blocks over call by call and writes down what each call gives. -/
def handOverInto {n : Nat} (f : Block n → Block n) : List Nat → (data buffer : Bytes) → Delivery
  | [], _, buffer => ⟨.ok 0, buffer⟩
  | size :: sizes, data, buffer =>
    let processed := Bytes.mapBlocks f (data.take (size * n))
    match ensure (processed.length == size * n) blocksMissing with
    | .error e => ⟨.error e, buffer.overwrite processed⟩
    | .ok () =>
      let rest := handOverInto f sizes (data.drop (size * n)) (buffer.drop processed.length)
      ⟨rest.outcome.map (processed.length + ·), processed ++ rest.buffer⟩

/-- The first `count` blocks of the data, each put through `f`, in the caller's buffer. -/
def processInto (a : Algorithm) (f : Block a.blockSize → Block a.blockSize) (count : Nat) (data buffer : Bytes) :
    Delivery :=
  match a.callLimit with
  | none => .ofResult (.ok (Bytes.mapBlocks f (data.take (count * a.blockSize)))) id buffer
  | some limit => handOverInto f (callSizes limit count) data buffer

end Algorithm

namespace Cipher

variable {a : Algorithm}

/-- The first `count` blocks of the data, processed, in the caller's buffer. -/
def processInto (c : Cipher a) (direction : Direction) (count : Nat) (data buffer : Bytes) : Delivery :=
  match c.permutation with
  | .error e => ⟨.error e, buffer⟩
  | .ok p => a.processInto (p.run direction) count data buffer

/-- The whole blocks of the caller's data, processed in place. -/
def processInPlace (c : Cipher a) (direction : Direction) (data : Bytes) : Delivery :=
  c.processInto direction (data.length / a.blockSize) data data

end Cipher

end KeyWrapping
