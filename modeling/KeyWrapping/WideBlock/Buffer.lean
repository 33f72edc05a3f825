import KeyWrapping.Cipher.Belt
import KeyWrapping.WideBlock

/-!
# The wide block transform in one buffer

The transform as the memory of a caller sees it. The blocks stand side by side in one buffer and are found by their
offsets; offsets, sizes and the numbers of rounds are words of 64 bits, which wrap around. Bytes move within the buffer,
blocks are added where they stand, and the number of a round is added to eight of the sixteen bytes of its mask.

The counters of a loop are the words that it goes through (`Size.offsets`, `Size.rounds`, `countdown`). That the loops
end rests on the size being one of whole blocks: otherwise an offset could wrap around just before it reaches the end.
-/

namespace KeyWrapping.WideBlock.Buffer

/-! ## Memory -/

/-- The `n` bytes of the memory from an offset on. -/
def read (memory : Bytes) (offset : UInt64) (n : Nat) : Bytes := (memory.drop offset.toNat).take n

/-- The memory with bytes put there from an offset on. -/
def write (memory : Bytes) (offset : UInt64) (bytes : Bytes) : Bytes :=
  memory.take offset.toNat ++ Bytes.overwrite (memory.drop offset.toNat) bytes

/-- The memory with bytes added to those from an offset on. -/
def add (memory : Bytes) (offset : UInt64) (bytes : Bytes) : Bytes :=
  write memory offset ((read memory offset bytes.length).xor bytes)

/-! ## Sizes and counters -/

/-- The size of a buffer of two or more whole blocks. -/
structure Size where
  bytes : UInt64
  two : 32 ≤ bytes
  whole : bytes % 16 = 0

namespace Size

/-- The size of so many bytes, if they make two or more whole blocks. -/
def of? (bytes : UInt64) : Option Size :=
  if h : 32 ≤ bytes ∧ bytes % 16 = 0 then some ⟨bytes, h.1, h.2⟩ else none

variable (size : Size)

/-- The number of blocks. -/
def blocks : UInt64 := size.bytes / 16

theorem toNat_bytes_mod : size.bytes.toNat % 16 = 0 := by
  have h := congrArg UInt64.toNat size.whole
  rwa [UInt64.toNat_mod] at h

theorem toNat_blocks : size.blocks.toNat = size.bytes.toNat / 16 := by
  rw [blocks, UInt64.toNat_div]
  rfl

/-- There are so few blocks that twice their number is far from wrapping around. -/
theorem toNat_twice_blocks : (2 * size.blocks).toNat = 2 * (size.bytes.toNat / 16) := by
  have h2 : (2 : UInt64).toNat = 2 := rfl
  have hlt := size.bytes.toNat_lt
  rw [UInt64.toNat_mul, h2, toNat_blocks]
  omega

/-- The offsets from `i` on at which a block begins that is not the last. -/
def offsets (i : UInt64) : List UInt64 :=
  if _h : i + 16 < size.bytes then i :: offsets (i + 16) else []
termination_by size.bytes.toNat - (i + 16).toNat
decreasing_by
  have h16 : (16 : UInt64).toNat = 16 := rfl
  have hmod := size.toNat_bytes_mod
  have hlt := size.bytes.toNat_lt
  rw [UInt64.lt_iff_toNat_lt] at _h
  rw [UInt64.toNat_add (i + 16), h16]
  omega

/-- The numbers of rounds from `round` on, up to twice the number of blocks. -/
def rounds (round : UInt64) : List UInt64 :=
  if _h : round ≤ 2 * size.blocks then round :: rounds (round + 1) else []
termination_by 2 * (size.bytes.toNat / 16) + 1 - round.toNat
decreasing_by
  have h1 : (1 : UInt64).toNat = 1 := rfl
  have hlt := size.bytes.toNat_lt
  rw [UInt64.le_iff_toNat_le, toNat_twice_blocks] at _h
  rw [UInt64.toNat_add, h1]
  omega

end Size

/-- The numbers of rounds from `round` down to the first. -/
def countdown (round : UInt64) : List UInt64 :=
  if _h : 1 ≤ round then round :: countdown (round - 1) else []
termination_by round.toNat
decreasing_by
  have h1 : (1 : UInt64).toNat = 1 := rfl
  rw [UInt64.toNat_sub_of_le _ _ _h]
  rw [UInt64.le_iff_toNat_le] at _h
  omega

/-! ## Rounds -/

variable (c : Cipher Belt.algorithm) (size : Size)

/-- What a round adds: the encryption of the block that moved, with the number of the round added to its front. -/
def roundMask (moved : Bytes) (round : UInt64) : Except Error Bytes := do
  let mask ← c.processBlocks .encrypt 1 moved
  return add mask 0 (Word.storeLE round.toBitVec)

/-- A round of encryption; the blocks have moved already when the cipher is asked. -/
def encryptRound (memory : Bytes) (round : UInt64) : InPlace :=
  let moved := (size.offsets 16).foldl (fun moved i => add moved 0 (read memory i 16)) (read memory 0 16)
  let memory := write memory 0 (read memory 16 (size.bytes - 16).toNat)
  let memory := write memory (size.bytes - 16) moved
  match roundMask c moved round with
  | .ok mask => ⟨none, add memory (size.bytes - 32) mask⟩
  | .error e => ⟨some e, memory⟩

/-- A round of decryption; the blocks have moved already when the cipher is asked. -/
def decryptRound (memory : Bytes) (round : UInt64) : InPlace :=
  let moved := read memory (size.bytes - 16) 16
  let memory := write memory 16 (read memory 0 (size.bytes - 16).toNat)
  let memory := write memory 0 moved
  match roundMask c moved round with
  | .ok mask =>
    let memory := add memory (size.bytes - 16) mask
    ⟨none, (size.offsets 16).foldl (fun memory i => add memory 0 (read memory i 16)) memory⟩
  | .error e => ⟨some e, memory⟩

/-- Rounds in order, up to the first that fails. -/
def runRounds (step : Bytes → UInt64 → InPlace) : List UInt64 → Bytes → InPlace
  | [], memory => ⟨none, memory⟩
  | round :: rounds, memory =>
    match step memory round with
    | ⟨none, memory⟩ => runRounds step rounds memory
    | ⟨some e, memory⟩ => ⟨some e, memory⟩

/-- Transforms a buffer in place. -/
def run (direction : Direction) (memory : Bytes) : InPlace :=
  match Size.of? (UInt64.ofNat memory.length) with
  | none => ⟨some (.invalidDataLength "belt-wblock" memory.length), memory⟩
  | some size =>
    match direction with
    | .encrypt => runRounds (encryptRound c size) (size.rounds 1) memory
    | .decrypt => runRounds (decryptRound c size) (countdown (2 * size.blocks)) memory

end KeyWrapping.WideBlock.Buffer
