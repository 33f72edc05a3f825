import KeyWrapping.Cipher.Basic
import KeyWrapping.Word

/-!
# The wrapping register

Wrapping runs a 128-bit cipher over a register: one semiblock that carries the integrity value, and at least two
semiblocks of data. Six passes go through the data from left to right. Each step encrypts the integrity value joined
with a semiblock of data, keeps the low half as the new data, and counts the step into the high half, which goes on to
the next step (`Register.wrapPass`). Unwrapping undoes the passes from the last to the first, and each pass from right
to left (`Register.unwrapPass`).
-/

namespace KeyWrapping

/-- Half a block of a 128-bit cipher, as a number with its first byte on top. -/
abbrev Semiblock := UInt64

namespace Semiblock

/-- The semiblock that eight bytes stand for. -/
def ofBlock (b : Block 8) : Semiblock := UInt64.ofBitVec (Word.loadBE 64 b.toList)

/-- The bytes of a semiblock. -/
def toBytes (s : Semiblock) : Bytes := Word.storeBE s.toBitVec

@[simp] theorem length_toBytes (s : Semiblock) : s.toBytes.length = 8 := by
  simp [toBytes]

/-- The whole semiblocks of a byte string. -/
def ofBytes (bytes : Bytes) : List Semiblock := (bytes.blocks 8).map ofBlock

/-- The block that two semiblocks make. -/
def join (high low : Semiblock) : Block 16 := Block.ofList (high.toBytes ++ low.toBytes) (by simp)

/-- The two semiblocks of a block. -/
def split (b : Block 16) : Semiblock × Semiblock :=
  (UInt64.ofBitVec (Word.loadBEAt 64 0 b.toList), UInt64.ofBitVec (Word.loadBEAt 64 1 b.toList))

end Semiblock

/-- What wrapping works on. -/
structure Register where
  /-- The semiblock in front of the data. -/
  integrity : Semiblock
  data : List Semiblock
  deriving DecidableEq, Repr

namespace Register

open Semiblock

/-- The register that a byte string stands for, its first semiblock in front. -/
def ofBytes (bytes : Bytes) : Register :=
  match Semiblock.ofBytes bytes with
  | [] => ⟨0, []⟩
  | a :: data => ⟨a, data⟩

/-- The bytes of the data. -/
def dataBytes (r : Register) : Bytes := r.data.flatMap toBytes

/-- The bytes of a register. -/
def toBytes (r : Register) : Bytes := r.integrity.toBytes ++ r.dataBytes

variable (p : Permutation 16)

/-- One pass from left to right over the data; `t` is the number of the pass's first step. -/
def wrapPass (t : Nat) (a : Semiblock) : List Semiblock → Semiblock × List Semiblock
  | [] => (a, [])
  | r :: data =>
    let (high, low) := split (p.encrypt (join a r))
    let (a', data') := wrapPass (t + 1) (high ^^^ UInt64.ofNat t) data
    (a', low :: data')

/-- The pass that undoes `wrapPass`, from right to left over the data. -/
def unwrapPass (t : Nat) (a : Semiblock) : List Semiblock → Semiblock × List Semiblock
  | [] => (a, [])
  | r :: data =>
    let (a', data') := unwrapPass (t + 1) a data
    let (high, low) := split (p.decrypt (join (a' ^^^ UInt64.ofNat t) r))
    (high, low :: data')

/-- The number of the first step of a pass, for data of `n` semiblocks. -/
def firstStep (n pass : Nat) : Nat := n * pass + 1

/-- The register after pass number `pass`, counted from zero. -/
def wrapStep (r : Register) (pass : Nat) : Register :=
  let (a, data) := wrapPass p (firstStep r.data.length pass) r.integrity r.data
  ⟨a, data⟩

/-- The register before pass number `pass`, counted from zero. -/
def unwrapStep (r : Register) (pass : Nat) : Register :=
  let (a, data) := unwrapPass p (firstStep r.data.length pass) r.integrity r.data
  ⟨a, data⟩

/-- The register after all six passes. -/
def wrap (r : Register) : Register := (List.range 6).foldl (wrapStep p) r

/-- The register before all six passes. -/
def unwrap (r : Register) : Register := (List.range 6).reverse.foldl (unwrapStep p) r

end Register

end KeyWrapping
