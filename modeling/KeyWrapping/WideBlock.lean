import KeyWrapping.Cipher.Basic
import KeyWrapping.Word

/-!
# The wide block transform

A transform of two or more whole blocks of a 128-bit cipher that makes every byte of the result depend on every byte
of the input. The blocks stand in a row. A round of encryption moves the row one place to the left, where the
exclusive or of all blocks but the last moves in at the end, and adds the encryption of that block and the number of
the round to the block before it. Rounds are numbered from one, and there are twice as many as blocks. Decryption
undoes the rounds from the last to the first; it encrypts, too.

That the cipher has no key is noticed in the first round, after the blocks have moved.
-/

namespace KeyWrapping.WideBlock

/-- A row of blocks. -/
abbrev Row := List (Block 16)

/-- The row after a transform in place, and why it stopped early if it did. -/
structure InPlace where
  failure : Option Error
  buffer : Bytes

/-- The number of a round as a block, least significant byte first. -/
def counter (round : Nat) : Block 16 :=
  Block.ofList (Word.storeLE (BitVec.ofNat 64 round) ++ .zeros 8) (by simp)

/-- What a round adds: the encryption of the block that moved, and the number of the round. -/
def roundMask (p : Permutation 16) (moved : Block 16) (round : Nat) : Block 16 := p.encrypt moved ^^^ counter round

/-! ## Encryption -/

/-- The block that moves in: the exclusive or of all blocks but the last. -/
def incoming (row : Row) : Block 16 := Block.sum row.dropLast

/-- The row moved one place to the left. -/
def moveLeft (row : Row) : Row := row.tail ++ [incoming row]

/-- A round of encryption. -/
def encryptRound (p : Permutation 16) (row : Row) (round : Nat) : Row :=
  (moveLeft row).modify (row.length - 2) (· ^^^ roundMask p (incoming row) round)

/-! ## Decryption -/

/-- The row moved one place to the right, where its last block moves in at the front. -/
def moveRight (row : Row) : Row := row.getLastD .zero :: row.dropLast

/-- The first block with all blocks between it and the last added to it. -/
def settleFirst : Row → Row
  | [] => []
  | first :: rest => (first ^^^ Block.sum rest.dropLast) :: rest

/-- The round of decryption that undoes a round of encryption. -/
def decryptRound (p : Permutation 16) (row : Row) (round : Nat) : Row :=
  settleFirst ((moveRight row).modify (row.length - 1) (· ^^^ roundMask p (row.getLastD .zero) round))

/-! ## In place -/

/-- The numbers of the rounds for a row of `n` blocks. -/
def rounds (n : Nat) : List Nat := List.range' 1 (2 * n)

/-- The row after all rounds in one direction. -/
def transform (p : Permutation 16) (row : Row) : Direction → Row
  | .encrypt => (rounds row.length).foldl (encryptRound p) row
  | .decrypt => (rounds row.length).reverse.foldl (decryptRound p) row

/-- The row as the first round leaves it when the cipher turns out to have no key. -/
def unkeyed (row : Row) : Direction → Row
  | .encrypt => moveLeft row
  | .decrypt => moveRight row

/-- Transforms a buffer in place; `p` is what the cipher does, or why it does nothing. -/
def run (p : Except Error (Permutation 16)) (direction : Direction) (buffer : Bytes) : InPlace :=
  if buffer.length < 32 ∨ buffer.length % 16 ≠ 0 then ⟨some (.invalidDataLength "belt-wblock" buffer.length), buffer⟩
  else
    let row := buffer.blocks 16
    match p with
    | .ok p => ⟨none, .ofBlocks (transform p row direction)⟩
    | .error e => ⟨some e, .ofBlocks (unkeyed row direction)⟩

/-- The transformed buffer, or why there is none. -/
def InPlace.result (r : InPlace) : Except Error Bytes :=
  match r.failure with
  | none => .ok r.buffer
  | some e => .error e

end KeyWrapping.WideBlock
