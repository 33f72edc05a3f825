import KeyWrapping.Cipher.Belt
import KeyWrapping.Delivery
import KeyWrapping.Mask
import KeyWrapping.WideBlock

/-!
# Key wrapping with a header

A key of whole blocks is wrapped together with a public header of one block, by the wide block transform of the key
followed by the header. Unwrapping gives the key back only if the header comes out as stated; if it does not, as much of
the caller's buffer as the key would have filled is wiped.

The checks come in a fixed order: the length of the header, the length of the input, the room for the result, and last
whether there is a cipher at all.
-/

namespace KeyWrapping.Headed

/-- The length of a header. -/
def headerLength : Nat := 16

/-- Fails unless the header has the right length. -/
def ensureHeader (header : Bytes) : Except Error Unit :=
  ensure (header.length == headerLength) (.invalidArgument "BelT-KWP header must be 16 bytes")

/-- The wrapping of a key, for a caller with room for `space` bytes; `cipher` is the cipher, or why there is none. -/
def wrapWithin (cipher : Except Error (Cipher Belt.algorithm)) (key header : Bytes) (space : Nat) :
    Except Error Bytes := do
  ensureHeader header
  ensure (16 ≤ key.length && key.length % 16 == 0) (.invalidDataLength "BelT-KWP" key.length)
  ensureSpace "BelT-KWP" (key.length + headerLength) space
  let c ← cipher
  (WideBlock.run c.permutation .encrypt (key ++ header)).result

/-- The key in a wrapping, for a caller with room for `space` bytes; `cipher` is the cipher, or why there is none. -/
def unwrapWithin (cipher : Except Error (Cipher Belt.algorithm)) (wrapped header : Bytes) (space : Nat) :
    Except Error Bytes := do
  ensureHeader header
  ensure (32 ≤ wrapped.length && wrapped.length % 16 == 0) (.invalidDataLength "BelT-KWP" wrapped.length)
  let length := wrapped.length - headerLength
  ensureSpace "BelT-KWP" length space
  let c ← cipher
  let opened ← (WideBlock.run c.permutation .decrypt wrapped).result
  ensure (Bytes.constantTimeEqual (opened.drop length) header) (.invalidTag "BelT-KWP unwrap failed")
  return opened.take length

/-! ## Into the caller's buffer -/

/-- Wraps a key into the caller's buffer. -/
def wrapInto (cipher : Except Error (Cipher Belt.algorithm)) (key header buffer : Bytes) : Delivery :=
  .ofResult (wrapWithin cipher key header buffer.length) id buffer

/-- Unwraps a key into the caller's buffer. -/
def unwrapInto (cipher : Except Error (Cipher Belt.algorithm)) (wrapped header buffer : Bytes) : Delivery :=
  .ofResult (unwrapWithin cipher wrapped header buffer.length) (Bytes.wipeFront (wrapped.length - headerLength)) buffer

/-! ## Into a buffer of the right size -/

/-- The wrapping of a key. -/
def wrap (cipher : Except Error (Cipher Belt.algorithm)) (key header : Bytes) : Except Error Bytes :=
  (wrapInto cipher key header (.zeros (key.length + headerLength))).whole

/-- The key in a wrapping. -/
def unwrap (cipher : Except Error (Cipher Belt.algorithm)) (wrapped header : Bytes) : Except Error Bytes :=
  (unwrapInto cipher wrapped header (.zeros (wrapped.length - headerLength))).whole

end KeyWrapping.Headed
