import KeyWrapping.Bytes

/-!
# Blocks

A block of `n` bytes is a vector, so its size is part of its type. A byte string is cut into its whole blocks
(`Bytes.blocks`) and blocks are laid side by side again (`Bytes.ofBlocks`); the two are inverse on byte strings that
hold whole blocks only (`Bytes.blocks_ofBlocks`, `Bytes.ofBlocks_blocks`). Exclusive or makes the blocks of a size a
group in which each block is its own inverse.
-/

namespace KeyWrapping

/-- A block of `n` bytes. -/
abbrev Block (n : Nat) := Vector UInt8 n

variable {n : Nat}

namespace Block

/-- The bytes of a list of the right size as a block. -/
def ofList (bytes : Bytes) (h : bytes.length = n) : Block n := ⟨bytes.toArray, by simpa using h⟩

/-- The block of zero bytes. -/
def zero : Block n := Vector.replicate n 0

instance : XorOp (Block n) := ⟨Vector.zipWith (· ^^^ ·)⟩

/-- The exclusive or of a list of blocks. -/
def sum (blocks : List (Block n)) : Block n := blocks.foldl (· ^^^ ·) zero

@[simp] theorem toList_ofList (bytes : Bytes) (h : bytes.length = n) : (ofList bytes h).toList = bytes := rfl

theorem getElem_xor (a b : Block n) (i : Nat) (h : i < n) : (a ^^^ b)[i] = a[i] ^^^ b[i] :=
  Vector.getElem_zipWith h

theorem xor_comm (a b : Block n) : a ^^^ b = b ^^^ a := by
  ext i h
  simp only [getElem_xor, UInt8.xor_comm]

theorem xor_assoc (a b c : Block n) : (a ^^^ b) ^^^ c = a ^^^ (b ^^^ c) := by
  ext i h
  simp only [getElem_xor, UInt8.xor_assoc]

@[simp] theorem xor_self (a : Block n) : a ^^^ a = zero := by
  ext i h
  simp only [getElem_xor, UInt8.xor_self, zero, Vector.getElem_replicate]

@[simp] theorem xor_zero (a : Block n) : a ^^^ zero = a := by
  ext i h
  simp only [getElem_xor, zero, Vector.getElem_replicate, UInt8.xor_zero]

end Block

namespace Bytes

/-- The whole blocks at the front of a byte string, in order; blocks of no bytes are never cut off. -/
def blocks (n : Nat) (bytes : Bytes) : List (Block n) :=
  if h : 0 < n ∧ (bytes.take n).length = n then
    Block.ofList (bytes.take n) h.2 :: blocks n (bytes.drop n)
  else []
termination_by bytes.length
decreasing_by simp at h ⊢; omega

/-- Blocks laid side by side. -/
def ofBlocks (blocks : List (Block n)) : Bytes := blocks.flatMap Vector.toList

@[simp] theorem ofBlocks_nil : ofBlocks ([] : List (Block n)) = [] := rfl

@[simp] theorem ofBlocks_cons (b : Block n) (bs : List (Block n)) : ofBlocks (b :: bs) = b.toList ++ ofBlocks bs :=
  List.flatMap_cons

@[simp] theorem ofBlocks_append (as bs : List (Block n)) : ofBlocks (as ++ bs) = ofBlocks as ++ ofBlocks bs :=
  List.flatMap_append

theorem length_ofBlocks (bs : List (Block n)) : (ofBlocks bs).length = bs.length * n := by
  induction bs with
  | nil => simp
  | cons b bs ih => simp [ih, Nat.add_mul, Nat.add_comm]

theorem blocks_of_lt {bytes : Bytes} (h : bytes.length < n) : blocks n bytes = [] := by
  rw [blocks, dif_neg (by simp; omega)]

/-- Cutting gives back the blocks that were laid side by side, and goes on with what follows them. -/
theorem blocks_ofBlocks_append_eq (hn : 0 < n) (bs : List (Block n)) (rest : Bytes) :
    blocks n (ofBlocks bs ++ rest) = bs ++ blocks n rest := by
  induction bs with
  | nil => rfl
  | cons b bs ih =>
    have hb : b.toList.length = n := by simp
    rw [blocks, dif_pos ⟨hn, by simp⟩]
    congr 1
    · simp [← Vector.toList_inj, hb]
    · simpa [List.drop_append, hb] using ih

/-- Cutting gives back the blocks that were laid side by side, whatever shorter rest follows them. -/
theorem blocks_ofBlocks_append (hn : 0 < n) (bs : List (Block n)) {rest : Bytes} (h : rest.length < n) :
    blocks n (ofBlocks bs ++ rest) = bs := by
  rw [blocks_ofBlocks_append_eq hn, blocks_of_lt h, List.append_nil]

theorem blocks_ofBlocks (hn : 0 < n) (bs : List (Block n)) : blocks n (ofBlocks bs) = bs := by
  have h : ([] : Bytes).length < n := hn
  simpa using blocks_ofBlocks_append hn bs h

/-- The whole blocks and the shorter rest make up the byte string. -/
theorem ofBlocks_blocks_append (n : Nat) (bytes : Bytes) :
    ofBlocks (blocks n bytes) ++ bytes.drop ((blocks n bytes).length * n) = bytes := by
  fun_induction blocks n bytes with
  | case1 bytes h ih =>
    simp only [ofBlocks_cons, Block.toList_ofList, List.length_cons, Nat.add_mul, Nat.one_mul, List.append_assoc]
    rw [Nat.add_comm, ← List.drop_drop, ih, List.take_append_drop]
  | case2 bytes h => simp

theorem length_blocks (hn : 0 < n) (bytes : Bytes) : (blocks n bytes).length = bytes.length / n := by
  fun_induction blocks n bytes with
  | case1 bytes h ih =>
    have hle : n ≤ bytes.length := by have := h.2; rw [List.length_take] at this; omega
    rw [List.length_cons, ih, List.length_drop, Nat.div_eq_sub_div h.1 hle]
  | case2 bytes h =>
    have hlt : bytes.length < n := by rw [List.length_take] at h; omega
    rw [List.length_nil, Nat.div_eq_of_lt hlt]

/-- A byte string of whole blocks is its blocks laid side by side. -/
theorem ofBlocks_blocks (hn : 0 < n) {bytes : Bytes} (h : n ∣ bytes.length) : ofBlocks (blocks n bytes) = bytes := by
  have key := ofBlocks_blocks_append n bytes
  rwa [length_blocks hn, Nat.div_mul_cancel h, List.drop_length, List.append_nil] at key

end Bytes

end KeyWrapping
