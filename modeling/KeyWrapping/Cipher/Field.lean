/-!
# The field of 256 elements

Bytes are polynomials over the two-element field, taken modulo `x⁸ + x⁴ + x³ + x + 1`. The inverse of an element is its
254th power, which also makes zero its own inverse.
-/

namespace KeyWrapping.Field

/-- Multiplication by `x`. -/
def double (a : UInt8) : UInt8 := (a <<< 1) ^^^ (if a < 0x80 then 0 else 0x1B)

/-- The product of `a` with the lowest `n` bits of `b`. -/
def mulBits : Nat → UInt8 → UInt8 → UInt8
  | 0, _, _ => 0
  | n + 1, a, b => (if b &&& 1 = 1 then a else 0) ^^^ mulBits n (double a) (b >>> 1)

/-- The product of two elements. -/
def mul (a b : UInt8) : UInt8 := mulBits 8 a b

/-- The product of `a`, its square, the square of that, and so on, `n` factors in all. -/
def mulSquares : Nat → UInt8 → UInt8
  | 0, _ => 1
  | n + 1, a => mul a (mulSquares n (mul a a))

/-- The inverse of an element, and zero for zero. -/
def inverse (a : UInt8) : UInt8 := mulSquares 7 (mul a a)

/-- A byte turned left by `r` bits, for `r` from 1 to 7. -/
def rotl8 (r a : UInt8) : UInt8 := a <<< r ||| a >>> (8 - r)

end KeyWrapping.Field
