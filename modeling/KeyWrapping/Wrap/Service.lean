import KeyWrapping.Wrap.Padded

/-!
# The four services of the wrapping register

Wrapping and unwrapping, without and with padding, under one name each, so that everything that offers them offers the
same four.
-/

namespace KeyWrapping

/-- What the wrapping register is used for. -/
inductive Service where
  | wrap | unwrap | wrapPadded | unwrapPadded
  deriving DecidableEq, Repr

namespace Service

variable {a : Algorithm}

/-- The result of a service. -/
def run : Service → Cipher a → Bytes → Except Error Bytes
  | wrap => Unpadded.wrap
  | unwrap => Unpadded.unwrap
  | wrapPadded => Padded.wrap
  | unwrapPadded => Padded.unwrap

/-- The result of a service in the caller's buffer. -/
def runInto : Service → Cipher a → (data buffer : Bytes) → Delivery
  | wrap => Unpadded.wrapInto
  | unwrap => Unpadded.unwrapInto
  | wrapPadded => Padded.wrapInto
  | unwrapPadded => Padded.unwrapInto

/-- How long a buffer has to be for the result for `n` bytes, whatever these are. -/
def resultLength (n : Nat) : Service → Nat
  | wrap => n + 8
  | unwrap | unwrapPadded => n - 8
  | wrapPadded => n + Padded.paddingLength n + 8

/-- The result of a service for data of a length that is fixed beforehand, so that the result's length is, too. -/
def runFixed (s : Service) (c : Cipher a) (data : Bytes) : Except Error Bytes :=
  (s.runInto c data (.zeros (s.resultLength data.length))).whole

end Service

end KeyWrapping
