/-!
# Lengths of keys

The lengths that an algorithm accepts lie between two bounds and are multiples of a step.
-/

namespace KeyWrapping

/-- The lengths of keys that an algorithm accepts, in bytes. -/
structure KeyLengths where
  least : Nat
  most : Nat
  /-- Every length is a multiple of this. -/
  step : Nat
  deriving DecidableEq, Repr

namespace KeyLengths

/-- One length only. -/
def exactly (length : Nat) : KeyLengths := ⟨length, length, 1⟩

/-- Whether a length is accepted. -/
def accepts (lengths : KeyLengths) (length : Nat) : Bool :=
  lengths.least ≤ length && length ≤ lengths.most && length % lengths.step == 0

@[simp] theorem accepts_exactly (l n : Nat) : (exactly l).accepts n = (n == l) := by
  simp only [accepts, exactly, Nat.mod_one]
  grind

end KeyLengths

end KeyWrapping
