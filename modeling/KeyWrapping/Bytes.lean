/-!
# Byte strings and caller's buffers

A byte string is a list of bytes. A buffer that a caller lends is a byte string too: an operation gives back what the
buffer holds afterwards, so what was written, wiped or left alone can be read off. The main statements are that writing
a result that fits, and wiping, keep the size of the buffer (`length_overwrite`, `length_wipeFront`), and that the bytes
behind the part concerned stay (`drop_overwrite`, `wipeFront_of_le`).
-/

namespace KeyWrapping

/-- A byte string. -/
abbrev Bytes := List UInt8

namespace Bytes

/-- `n` zero bytes. -/
def zeros (n : Nat) : Bytes := List.replicate n 0

/-- The buffer with its front replaced by `data`. -/
def overwrite (buffer data : Bytes) : Bytes := data ++ buffer.drop data.length

/-- The buffer with its first `n` bytes zeroed, or all of them if it is shorter. -/
def wipeFront (n : Nat) (buffer : Bytes) : Bytes := zeros (min n buffer.length) ++ buffer.drop n

/-- The buffer with every byte zeroed. -/
def wipe (buffer : Bytes) : Bytes := zeros buffer.length

/-- Byte by byte exclusive or, as long as the shorter operand. -/
def xor (x y : Bytes) : Bytes := List.zipWith (· ^^^ ·) x y

/-- The text's bytes in UTF-8. -/
def ofText (text : String) : Bytes := text.toUTF8.data.toList

/-! ## Sizes -/

@[simp] theorem length_zeros (n : Nat) : (zeros n).length = n := List.length_replicate

@[simp] theorem length_xor (x y : Bytes) : (xor x y).length = min x.length y.length := List.length_zipWith

/-- Writing a result that fits keeps the size of the buffer. -/
theorem length_overwrite {buffer data : Bytes} (h : data.length ≤ buffer.length) :
    (overwrite buffer data).length = buffer.length := by
  simp [overwrite, h]

@[simp] theorem length_wipeFront (n : Nat) (buffer : Bytes) : (wipeFront n buffer).length = buffer.length := by
  simp [wipeFront]
  omega

/-! ## What is written and what stays -/

@[simp] theorem overwrite_nil (buffer : Bytes) : overwrite buffer [] = buffer := rfl

@[simp] theorem take_overwrite (buffer data : Bytes) : (overwrite buffer data).take data.length = data := by
  simp [overwrite]

@[simp] theorem drop_overwrite (buffer data : Bytes) :
    (overwrite buffer data).drop data.length = buffer.drop data.length := by
  simp [overwrite]

/-- A result as long as the buffer is all that the buffer holds afterwards. -/
theorem overwrite_of_length_eq {buffer data : Bytes} (h : data.length = buffer.length) :
    overwrite buffer data = data := by
  simp [overwrite, h]

theorem wipeFront_of_le {n : Nat} {buffer : Bytes} (h : n ≤ buffer.length) :
    wipeFront n buffer = zeros n ++ buffer.drop n := by
  rw [wipeFront, Nat.min_eq_left h]

theorem take_wipeFront {n : Nat} {buffer : Bytes} (h : n ≤ buffer.length) :
    (wipeFront n buffer).take n = zeros n := by
  simp [wipeFront_of_le h]

end Bytes

end KeyWrapping
