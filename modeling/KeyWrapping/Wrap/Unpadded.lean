import KeyWrapping.Delivery
import KeyWrapping.Mask
import KeyWrapping.Wrap.Register

/-!
# Key wrapping without padding

A key of at least two semiblocks is wrapped behind a fixed integrity value, and is one semiblock longer then.
Unwrapping gives the key back only if the integrity value comes out right; if it does not, as much of the caller's
buffer as the key would have filled is wiped.

The checks come in a fixed order: the size of the cipher's blocks, the length of the input, the room for the result, and
last whether the cipher has a key.
-/

namespace KeyWrapping

/-- Goes on with an algorithm whose blocks have 128 bits, and fails with any other. -/
def Algorithm.ensure128 {α : Type} (a : Algorithm) (go : a.blockSize = 16 → Except Error α) : Except Error α :=
  if h : a.blockSize = 16 then go h
  else .error (.invalidArgument "NIST key wrap algorithm requires a 128-bit cipher")

/-- The largest number that fits 32 bits. -/
def max32 : Nat := 0xFFFFFFFF

namespace Unpadded

variable {a : Algorithm}

/-- The integrity value. -/
def integrity : Semiblock := 0xA6A6A6A6A6A6A6A6

/-- The length of the wrapping of a key of `n` bytes, as far as 64 bits can tell. -/
def wrappedLength (n : UInt64) : UInt64 := n + 8

/-- The length of the key in a wrapping of `n` bytes, and zero if that is too short. -/
def unwrappedLength (n : UInt64) : UInt64 := if n < 8 then 0 else n - 8

/-- The wrapping of a key, for a caller with room for `space` bytes. -/
def wrapWithin (c : Cipher a) (key : Bytes) (space : Nat) : Except Error Bytes :=
  a.ensure128 fun h => do
    ensure (16 ≤ key.length && key.length % 8 == 0 && key.length / 8 ≤ max32)
      (.invalidDataLength "NIST key wrap" key.length)
    ensureSpace "NIST key wrap" (key.length + 8) space
    let p ← c.permutation128 h
    return (Register.wrap p ⟨integrity, Semiblock.ofBytes key⟩).toBytes

/-- The key in a wrapping, for a caller with room for `space` bytes. -/
def unwrapWithin (c : Cipher a) (wrapped : Bytes) (space : Nat) : Except Error Bytes :=
  a.ensure128 fun h => do
    ensure (24 ≤ wrapped.length && wrapped.length % 8 == 0) (.invalidDataLength "NIST key unwrap" wrapped.length)
    ensureSpace "NIST key wrap" (wrapped.length - 8) space
    let p ← c.permutation128 h
    let r := Register.unwrap p (.ofBytes wrapped)
    ensure (Mask.isEqual r.integrity.toBitVec integrity.toBitVec).toBool (.invalidTag "NIST key unwrap failed")
    return r.dataBytes

/-! ## Into the caller's buffer -/

/-- Wraps a key into the caller's buffer. -/
def wrapInto (c : Cipher a) (key buffer : Bytes) : Delivery :=
  .ofResult (wrapWithin c key buffer.length) id buffer

/-- Unwraps a key into the caller's buffer. -/
def unwrapInto (c : Cipher a) (wrapped buffer : Bytes) : Delivery :=
  .ofResult (unwrapWithin c wrapped buffer.length) (Bytes.wipeFront (wrapped.length - 8)) buffer

/-! ## Into a buffer of the right size -/

/-- The wrapping of a key. -/
def wrap (c : Cipher a) (key : Bytes) : Except Error Bytes :=
  (wrapInto c key (.zeros (wrappedLength key.length.toUInt64).toNat)).whole

/-- The key in a wrapping. -/
def unwrap (c : Cipher a) (wrapped : Bytes) : Except Error Bytes :=
  (unwrapInto c wrapped (.zeros (unwrappedLength wrapped.length.toUInt64).toNat)).whole

end Unpadded

end KeyWrapping
