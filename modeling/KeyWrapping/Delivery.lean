import KeyWrapping.Bytes
import KeyWrapping.Error

/-!
# Delivering a result into a caller's buffer

A caller lends a buffer and is told how many bytes of it hold the result, or why there is none. The buffer afterwards is
part of the answer. A result is written to its front; an input that is not authentic costs the caller a part of what the
buffer held, and no other failure touches it.
-/

namespace KeyWrapping

/-- What a caller gets: the number of bytes written or the error, and the buffer afterwards. -/
structure Delivery where
  outcome : Except Error Nat
  buffer : Bytes

namespace Delivery

/-- Delivers a result; `forged` says what becomes of the buffer when the input is not authentic. -/
def ofResult (result : Except Error Bytes) (forged : Bytes → Bytes) (buffer : Bytes) : Delivery :=
  match result with
  | .ok bytes => ⟨.ok bytes.length, buffer.overwrite bytes⟩
  | .error e => ⟨.error e, if e.isForgery then forged buffer else buffer⟩

/-- What was delivered, for a caller who lent the buffer for nothing else. -/
def bytes (d : Delivery) : Except Error Bytes := d.outcome.map fun n => d.buffer.take n

/-- The whole buffer, for a caller who knows that the result fills it. -/
def whole (d : Delivery) : Except Error Bytes := d.outcome.map fun _ => d.buffer

@[simp] theorem ofResult_ok (bytes : Bytes) (forged : Bytes → Bytes) (buffer : Bytes) :
    ofResult (.ok bytes) forged buffer = ⟨.ok bytes.length, buffer.overwrite bytes⟩ := rfl

end Delivery

/-- Fails if a buffer of `provided` bytes is too short for a result of `required` bytes. -/
def ensureSpace (algorithm : String) (required provided : Nat) : Except Error Unit :=
  ensure (required ≤ provided) (.bufferTooSmall algorithm required provided)

end KeyWrapping
