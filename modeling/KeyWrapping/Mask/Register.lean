import KeyWrapping.Mask

/-!
# Masks computed in registers

A machine does not compute with short words: a word of fewer than 32 bits is widened to 32 before anything is done to
it, and the result is cut back. Each operation on masks is given here as it is done that way. What was widened has zeros
in front, so a difference may borrow from bits that the word does not have, and a complement sets them; cutting back
takes them away again. Rows of words are gone through place by place, and what is gathered on the way is cut back at
every place.
-/

namespace KeyWrapping.Mask.Register

variable {w : Nat}

/-- The width of the registers that words of `w` bits are computed in. -/
def width (w : Nat) : Nat := max w 32

/-- A word in a register. -/
def widen (v : BitVec w) : BitVec (width w) := v.setWidth (width w)

/-- The word that is left of a register. -/
def cut (r : BitVec (width w)) : BitVec w := r.setWidth w

/-! ## Making masks -/

/-- Yes: the complement of a zero of 32 bits with a sign. -/
def yes : Mask w := ⟨(~~~0#32).signExtend w⟩

/-- Every bit a copy of the word's top bit. -/
def ofTopBit (v : BitVec w) : Mask w := ⟨cut (widen 0#w - (widen v >>> (w - 1)))⟩

/-- Whether a word is zero. -/
def isZero (v : BitVec w) : Mask w := ofTopBit (cut (~~~widen v &&& (widen v - 1#(width w))))

/-! ## Combining masks -/

/-- The opposite choice. -/
def not (m : Mask w) : Mask w := ⟨cut (~~~widen m.value)⟩

/-- Both. -/
def and (m₁ m₂ : Mask w) : Mask w := ⟨cut (widen m₁.value &&& widen m₂.value)⟩

/-- At least one. -/
def or (m₁ m₂ : Mask w) : Mask w := ⟨cut (widen m₁.value ||| widen m₂.value)⟩

/-- Exactly one. -/
def xor (m₁ m₂ : Mask w) : Mask w := ⟨cut (widen m₁.value ^^^ widen m₂.value)⟩

/-! ## Comparing words -/

/-- Whether a word has any bit set. -/
def isNonzero (v : BitVec w) : Mask w := not (isZero v)

/-- Whether two words are equal. -/
def isEqual (x y : BitVec w) : Mask w := isZero (cut (widen x ^^^ widen y))

/-- Whether `x < y`: the top bit of the borrow that `x - y` leaves. -/
def isLess (x y : BitVec w) : Mask w :=
  ofTopBit (cut (widen x ^^^ ((widen x ^^^ widen y) ||| ((widen x - widen y) ^^^ widen x))))

/-- Whether `x > y`. -/
def isGreater (x y : BitVec w) : Mask w := isLess y x

/-- Whether `x ≤ y`. -/
def isAtMost (x y : BitVec w) : Mask w := not (isGreater x y)

/-- Whether `x ≥ y`. -/
def isAtLeast (x y : BitVec w) : Mask w := not (isLess x y)

/-- Whether `lo ≤ v ≤ hi`. -/
def isWithin (v lo hi : BitVec w) : Mask w := and (isAtLeast v lo) (isAtMost v hi)

/-- Whether a word occurs in a list. -/
def isAnyOf (v : BitVec w) (accepted : List (BitVec w)) : Mask w :=
  accepted.foldl (fun m a => or m (isEqual v a)) no

/-! ## Choosing -/

/-- `x` if the mask says yes, else `y`. -/
def select (m : Mask w) (x y : BitVec w) : BitVec w :=
  cut (widen y ^^^ (widen m.value &&& (widen x ^^^ widen y)))

/-- `x` if the mask says yes, else zero. -/
def keepIf (m : Mask w) (x : BitVec w) : BitVec w := cut (widen m.value &&& widen x)

/-- `x` if the mask says no, else zero. -/
def keepUnless (m : Mask w) (x : BitVec w) : BitVec w := cut (~~~widen m.value &&& widen x)

/-- The choice as a Boolean. -/
def toBool (m : Mask w) : Bool := widen m.value != 0#(width w)

/-! ## Comparing rows of words -/

section Rows

variable {n : Nat}

/-- The words at the places below `n` gathered with "or", from the first place to the last. -/
def gather (word : (i : Nat) → i < n → BitVec w) : BitVec w :=
  n.fold (fun i h gathered => cut (widen gathered ||| widen (word i h))) 0#w

/-- Whether two rows are equal: the differences are gathered before they are looked at. -/
def rowsEqual (xs ys : Vector (BitVec w) n) : Mask w := isZero (gather fun i _ => cut (widen xs[i] ^^^ widen ys[i]))

/-- Whether two rows differ somewhere. -/
def rowsDiffer (xs ys : Vector (BitVec w) n) : Mask w := not (rowsEqual xs ys)

/-- Whether every word of a row is zero. -/
def allZero (xs : Vector (BitVec w) n) : Mask w := isZero (gather fun i _ => xs[i])

end Rows

/-- A byte string as a row of words of 8 bits. -/
def rowOf (bytes : Bytes) : Vector (BitVec 8) bytes.length := ⟨(bytes.map UInt8.toBitVec).toArray, by simp⟩

/-- Whether two byte strings are equal; only their sizes are compared before all bytes have been looked at. -/
def bytesEqual (x y : Bytes) : Bool :=
  if h : x.length = y.length then toBool (rowsEqual (rowOf x) ((rowOf y).cast h.symm)) else false

end KeyWrapping.Mask.Register
