import KeyWrapping.Mask.Register
import KeyWrapping.Word

/-!
# Words in memory, computed in registers

Words as they are put together from memory and taken apart into memory, one byte after the other. As with masks,
nothing is computed in fewer than 32 bits: a byte and a word are widened before they are shifted and combined, and what
comes out is cut back to a word or to a byte.
-/

namespace KeyWrapping.Word.Register

open Mask.Register (width widen cut)

variable {w : Nat}

/-- A byte in a register. -/
def widenByte (w : Nat) (b : UInt8) : BitVec (width w) := b.toBitVec.setWidth (width w)

/-- The byte that is left of a register. -/
def cutByte (r : BitVec (width w)) : UInt8 := UInt8.ofBitVec (r.setWidth 8)

/-- The bytes of word number `i` of a row stand within memory that holds so many words. -/
theorem place_lt {n i k length : Nat} (h : (i + 1) * n ≤ length) (hk : k < n) : i * n + k < length := by
  rw [Nat.succ_mul] at h
  omega

/-! ## Loading -/

/-- The word with index `i` in memory, most significant byte first. -/
def loadBE (w i : Nat) (memory : Bytes) (h : (i + 1) * (w / 8) ≤ memory.length) : BitVec w :=
  (w / 8).fold (fun k hk word =>
    cut (widen word <<< 8 ||| widenByte w (memory.get ⟨i * (w / 8) + k, place_lt h hk⟩))) 0#w

/-- The word with index `i` in memory, least significant byte first. -/
def loadLE (w i : Nat) (memory : Bytes) (h : (i + 1) * (w / 8) ≤ memory.length) : BitVec w :=
  (w / 8).fold (fun k hk word =>
    let byte : BitVec w := cut (widenByte w (memory.get ⟨i * (w / 8) + k, place_lt h hk⟩))
    cut (widen word ||| widen (cut (widen byte <<< (8 * k))))) 0#w

/-- The first `count` words in memory, least significant byte first, put in the place of the first `count` of a row. -/
def loadRowLE {count : Nat} (memory : Bytes) (h : count * (w / 8) ≤ memory.length) (row : List (BitVec w)) :
    List (BitVec w) :=
  count.fold (fun i hi row =>
    row.set i (loadLE w i memory (Nat.le_trans (Nat.mul_le_mul_right _ (Nat.succ_le_of_lt hi)) h))) row

/-! ## Storing -/

/-- Byte `i` of a word, counted from the most significant one. -/
def byte (i : Nat) (word : BitVec w) : UInt8 := cutByte (widen word >>> (8 * (w / 8 - 1 - i)))

/-- Stores a word from an address on, most significant byte first. -/
def storeBE (word : BitVec w) (address : Nat) (memory : Bytes) : Bytes :=
  (w / 8).fold (fun k _ memory => memory.set (address + (w / 8 - 1 - k)) (cutByte (widen word >>> (8 * k)))) memory

/-- Stores a word from an address on, least significant byte first. -/
def storeLE (word : BitVec w) (address : Nat) (memory : Bytes) : Bytes :=
  (w / 8).fold (fun k _ memory => memory.set (address + k) (cutByte (widen word >>> (8 * k)))) memory

/-- Stores the first `count` words of a row side by side, least significant byte first. -/
def storeRowLE {count : Nat} (row : List (BitVec w)) (h : count ≤ row.length) (memory : Bytes) : Bytes :=
  count.fold (fun i hi memory => storeLE (row.get ⟨i, Nat.lt_of_lt_of_le hi h⟩) (i * (w / 8)) memory) memory

/-! ## Turning -/

/-- The word turned left by `r` bits. -/
def rotl (r : Nat) (word : BitVec w) : BitVec w := cut (widen word <<< r ||| widen word >>> (w - r))

/-- The word turned right by `r` bits. -/
def rotr (r : Nat) (word : BitVec w) : BitVec w := cut (widen word >>> r ||| widen word <<< (w - r))

end KeyWrapping.Word.Register
