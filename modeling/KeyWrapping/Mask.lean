import KeyWrapping.Bytes

/-!
# Masks

A mask is a word that is meant to be all zeros or all ones. Comparisons answer with a mask instead of a Boolean, so that
their answers can be combined, and can choose between words, without branching on what is compared: `Mask.isLess` reads
the borrow of a subtraction off its top bit, and `Mask.isZero` the top bit of `¬v ∧ (v - 1)`.
-/

namespace KeyWrapping

/-- A word used as a choice: all ones for yes, all zeros for no. -/
structure Mask (w : Nat) where
  value : BitVec w
  deriving DecidableEq, Repr

namespace Mask

variable {w : Nat}

/-! ## Making masks -/

/-- Yes. -/
def yes : Mask w := ⟨BitVec.allOnes w⟩

/-- No. -/
def no : Mask w := ⟨0#w⟩

/-- Every bit a copy of the word's top bit. -/
def ofTopBit (v : BitVec w) : Mask w := ⟨0#w - (v >>> (w - 1))⟩

/-- Whether a word is zero. -/
def isZero (v : BitVec w) : Mask w := ofTopBit (~~~v &&& (v - 1#w))

/-! ## Combining masks -/

/-- The opposite choice. -/
def not (m : Mask w) : Mask w := ⟨~~~m.value⟩

/-- Both. -/
def and (m₁ m₂ : Mask w) : Mask w := ⟨m₁.value &&& m₂.value⟩

/-- At least one. -/
def or (m₁ m₂ : Mask w) : Mask w := ⟨m₁.value ||| m₂.value⟩

/-- Exactly one. -/
def xor (m₁ m₂ : Mask w) : Mask w := ⟨m₁.value ^^^ m₂.value⟩

/-- The same choice for a narrower word. -/
def narrow (v : Nat) (m : Mask w) : Mask v := ⟨m.value.setWidth v⟩

/-! ## Comparing words -/

/-- Whether a word has any bit set. -/
def isNonzero (v : BitVec w) : Mask w := (isZero v).not

/-- Whether two words are equal. -/
def isEqual (x y : BitVec w) : Mask w := isZero (x ^^^ y)

/-- Whether `x < y`: the top bit of the borrow that `x - y` leaves. -/
def isLess (x y : BitVec w) : Mask w := ofTopBit (x ^^^ ((x ^^^ y) ||| ((x - y) ^^^ x)))

/-- Whether `x > y`. -/
def isGreater (x y : BitVec w) : Mask w := isLess y x

/-- Whether `x ≤ y`. -/
def isAtMost (x y : BitVec w) : Mask w := (isGreater x y).not

/-- Whether `x ≥ y`. -/
def isAtLeast (x y : BitVec w) : Mask w := (isLess x y).not

/-- Whether `lo ≤ v ≤ hi`. -/
def isWithin (v lo hi : BitVec w) : Mask w := (isAtLeast v lo).and (isAtMost v hi)

/-- Whether a word occurs in a list. -/
def isAnyOf (v : BitVec w) (accepted : List (BitVec w)) : Mask w :=
  accepted.foldl (fun m a => m.or (isEqual v a)) no

/-! ## Choosing -/

/-- `x` if the mask says yes, else `y`. -/
def select (m : Mask w) (x y : BitVec w) : BitVec w := y ^^^ (m.value &&& (x ^^^ y))

/-- `x` if the mask says yes, else zero. -/
def keepIf (m : Mask w) (x : BitVec w) : BitVec w := m.value &&& x

/-- `x` if the mask says no, else zero. -/
def keepUnless (m : Mask w) (x : BitVec w) : BitVec w := ~~~m.value &&& x

/-- The choice as a Boolean, for when it may be revealed. -/
def toBool (m : Mask w) : Bool := m.value != 0#w

/-! ## Comparing rows of words -/

/-- Whether two rows agree wherever both have a word: the differences are gathered before they are looked at. -/
def rowsEqual (xs ys : List (BitVec w)) : Mask w :=
  isZero ((List.zipWith (· ^^^ ·) xs ys).foldl (· ||| ·) 0#w)

/-- Whether two rows differ somewhere. -/
def rowsDiffer (xs ys : List (BitVec w)) : Mask w := (rowsEqual xs ys).not

/-- Whether every word of a row is zero. -/
def allZero (xs : List (BitVec w)) : Mask w := isZero (xs.foldl (· ||| ·) 0#w)

end Mask

namespace Bytes

/-- Whether two byte strings are equal; only their sizes are compared before all bytes have been looked at. -/
def constantTimeEqual (x y : Bytes) : Bool :=
  x.length == y.length && (Mask.rowsEqual (x.map UInt8.toBitVec) (y.map UInt8.toBitVec)).toBool

end Bytes

end KeyWrapping
