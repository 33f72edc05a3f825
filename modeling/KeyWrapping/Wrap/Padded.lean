import KeyWrapping.Wrap.Unpadded

/-!
# Key wrapping with padding

A key of any length from one byte on is padded with zeros to whole semiblocks. The integrity value holds a constant
and the length of the key (`Padded.integrity`). A single semiblock of data is wrapped by encrypting one block; more go
through the register.

Unwrapping looks at the constant, the length and the padding together and only then tells whether all are right
(`Padded.isAuthentic`); if not, the caller's whole buffer is wiped. The length of the key is known only then, so this is
also when the room for it is checked.
-/

namespace KeyWrapping.Padded

variable {a : Algorithm}

/-- The constant in the upper half of the integrity value. -/
def constant : Semiblock := 0xA65959A6

/-- The integrity value of a key of `n` bytes. -/
def integrity (n : Nat) : Semiblock := constant <<< 32 ||| UInt64.ofNat n

/-- How many bytes complete `n` bytes to whole semiblocks. -/
def paddingLength (n : Nat) : Nat := (8 - n % 8) % 8

/-- The length of the wrapping of a key of `n` bytes, as far as 64 bits can tell. -/
def wrappedLength (n : UInt64) : UInt64 := n + (8 - n % 8) % 8 + 8

/-- The register of a key: its integrity value and its padded bytes. -/
def register (key : Bytes) : Register :=
  ⟨integrity key.length, Semiblock.ofBytes (key ++ .zeros (paddingLength key.length))⟩

/-- Wraps a register, in one block if it fits. -/
def wrapRegister (p : Permutation 16) (r : Register) : Bytes :=
  match r.data with
  | [s] => (p.encrypt (Semiblock.join r.integrity s)).toList
  | _ => (r.wrap p).toBytes

/-- Unwraps a register, in one block if it is one. -/
def unwrapRegister (p : Permutation 16) (r : Register) : Register :=
  match r.data with
  | [s] =>
    let (integrity, s) := Semiblock.split (p.decrypt (Semiblock.join r.integrity s))
    ⟨integrity, [s]⟩
  | _ => r.unwrap p

/-- The wrapping of a key, for a caller with room for `space` bytes. -/
def wrapWithin (c : Cipher a) (key : Bytes) (space : Nat) : Except Error Bytes :=
  a.ensure128 fun h => do
    ensure (0 < key.length && key.length ≤ max32) (.invalidDataLength "NIST key wrap with padding" key.length)
    ensureSpace "NIST key wrap" (key.length + paddingLength key.length + 8) space
    let p ← c.permutation128 h
    return wrapRegister p (register key)

/-! ## Unwrapping -/

/-- The length that an integrity value states. -/
def statedLength (integrity : BitVec 64) : BitVec 64 := integrity &&& 0xFFFFFFFF#64

/-- The bytes at or behind the stated length, gathered into one that is zero if they all are. -/
def strayPadding (length : BitVec 64) (padded : Bytes) : BitVec 8 :=
  padded.zipIdx.foldl
    (fun gathered (b, i) => gathered ||| ((Mask.isAtLeast (BitVec.ofNat 64 i) length).narrow 8).keepIf b.toBitVec) 0#8

/-- Whether the integrity value has the constant and states a length that needs just this padding, and that is zero. -/
def isAuthentic (integrity : BitVec 64) (padded : Bytes) : Mask 64 :=
  let length := statedLength integrity
  let paddedLength := BitVec.ofNat 64 padded.length
  (((Mask.isEqual (integrity >>> 32) constant.toBitVec).and (Mask.isGreater length (paddedLength - 8))).and
    (Mask.isAtMost length paddedLength)).and (Mask.isZero ((strayPadding length padded).setWidth 64))

/-- The key in a wrapping, for a caller with room for `space` bytes. -/
def unwrapWithin (c : Cipher a) (wrapped : Bytes) (space : Nat) : Except Error Bytes :=
  a.ensure128 fun h => do
    ensure (16 ≤ wrapped.length && wrapped.length % 8 == 0)
      (.invalidDataLength "NIST key unwrap with padding" wrapped.length)
    let p ← c.permutation128 h
    let r := unwrapRegister p (.ofBytes wrapped)
    ensure (isAuthentic r.integrity.toBitVec r.dataBytes).toBool (.invalidTag "NIST key unwrap failed")
    let length := (statedLength r.integrity.toBitVec).toNat
    ensureSpace "NIST key unwrap with padding" length space
    return r.dataBytes.take length

/-! ## Into the caller's buffer -/

/-- Wraps a key into the caller's buffer. -/
def wrapInto (c : Cipher a) (key buffer : Bytes) : Delivery :=
  .ofResult (wrapWithin c key buffer.length) id buffer

/-- Unwraps a key into the caller's buffer. -/
def unwrapInto (c : Cipher a) (wrapped buffer : Bytes) : Delivery :=
  .ofResult (unwrapWithin c wrapped buffer.length) Bytes.wipe buffer

/-! ## Into a buffer of the right size -/

/-- The wrapping of a key. -/
def wrap (c : Cipher a) (key : Bytes) : Except Error Bytes :=
  (wrapInto c key (.zeros (wrappedLength key.length.toUInt64).toNat)).whole

/-- The key in a wrapping. -/
def unwrap (c : Cipher a) (wrapped : Bytes) : Except Error Bytes :=
  (unwrapInto c wrapped (.zeros (Unpadded.unwrappedLength wrapped.length.toUInt64).toNat)).bytes

end KeyWrapping.Padded
