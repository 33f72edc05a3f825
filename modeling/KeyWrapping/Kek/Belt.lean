import KeyWrapping.Kek.Object
import KeyWrapping.Wrap.Headed

/-!
# BelT key encryption keys

A key encryption key of 32 bytes keys BelT, and wraps keys with a header. An object whose content was moved away notices
that only after it has found the arguments in order.
-/

namespace KeyWrapping

/-- BelT under a key encryption key. -/
structure BeltKek where
  cipher : Cipher Belt.algorithm

namespace BeltKek

/-- The content for a key encryption key, which has to be of the length that BelT has. -/
def create (kek : Bytes) : Except Error BeltKek := do
  ensure (Belt.algorithm.keyLengths.accepts kek.length) (.invalidKeyLength "BelT-KWP" kek.length)
  let cipher ← (Cipher.fresh Belt.algorithm).setKey kek
  return ⟨cipher⟩

/-- Which way keys go. -/
inductive Service where
  | wrap | unwrap
  deriving DecidableEq, Repr

namespace Service

/-- The result of a service; `cipher` is the cipher, or why there is none. -/
def run : Service → (cipher : Except Error (Cipher Belt.algorithm)) → (data header : Bytes) → Except Error Bytes
  | wrap => Headed.wrap
  | unwrap => Headed.unwrap

/-- The result of a service in the caller's buffer. -/
def runInto : Service → (cipher : Except Error (Cipher Belt.algorithm)) → (data header buffer : Bytes) → Delivery
  | wrap => Headed.wrapInto
  | unwrap => Headed.unwrapInto

/-- The length of the result for `n` bytes. -/
def resultLength (n : Nat) : Service → Nat
  | wrap => n + Headed.headerLength
  | unwrap => n - Headed.headerLength

end Service

/-- What an object can be asked. -/
inductive Call where
  | result (service : Service) (data header : Bytes)
  /-- The result of a service in the caller's buffer. -/
  | into (service : Service) (data header buffer : Bytes)
  /-- The result of a service for data of a length that is fixed beforehand. -/
  | fixed (service : Service) (data header : Bytes)

/-- What an object answers. -/
inductive Answer where
  | result (bytes : Except Error Bytes)
  | delivered (delivery : Delivery)

/-- The answer of an object. -/
def answer (object : Object BeltKek) : Call → Answer
  | .result service data header => .result (service.run (object.content.map cipher) data header)
  | .into service data header buffer => .delivered (service.runInto (object.content.map cipher) data header buffer)
  | .fixed service data header =>
    .result
      (service.runInto (object.content.map cipher) data header (.zeros (service.resultLength data.length))).whole

/-- Objects that hold a BelT key encryption key. -/
def kind : ObjectKind := ⟨BeltKek, Call, Answer, create, answer⟩

end BeltKek

end KeyWrapping
