import KeyWrapping.Proofs.WideBlockBuffers

/-!
# The wide block transform is a recurrence on blocks

Encryption is described by a recurrence on a list of two or more blocks. In step `r`, all blocks but the last are added
up to `s`, and the list `b₁, …, bₙ` becomes `b₂, …, bₙ₋₁, bₙ + E s + ⟨r⟩, s`, where `⟨r⟩` is the number `r` as a block
(`Recurrence.step`). There are twice as many steps as blocks.

A round of the transform is a step as long as the number of the round fits into half a block
(`Recurrence.encryptRound_eq_step`), and it does in every buffer that a memory of 64-bit addresses can hold.
-/

namespace KeyWrapping.WideBlock

/-! ## The recurrence -/

namespace Recurrence

/-- A number as a block: an integer of sixteen bytes, least significant byte first. -/
def number (n : Nat) : Block 16 := Block.ofList (Word.storeLE (BitVec.ofNat 128 n)) (by simp)

/-- Step `r` under the encryption `E`. -/
def step (E : Block 16 → Block 16) (blocks : Row) (r : Nat) : Row :=
  let s := Block.sum blocks.dropLast
  blocks.tail.dropLast ++ [blocks.getLastD .zero ^^^ E s ^^^ number r, s]

/-- All steps in order. -/
def run (E : Block 16 → Block 16) (blocks : Row) : Row := (List.range' 1 (2 * blocks.length)).foldl (step E) blocks

/-- A step in terms of the first block, those between and the last one; of two blocks, none is between. -/
theorem step_eq (E : Block 16 → Block 16) (first last : Block 16) (mid : Row) (r : Nat) :
    step E (first :: (mid ++ [last])) r =
      mid ++ [last ^^^ E (first ^^^ Block.sum mid) ^^^ number r, first ^^^ Block.sum mid] := by
  have hs : Block.sum (first :: (mid ++ [last])).dropLast = first ^^^ Block.sum mid := by
    rw [← List.cons_append, List.dropLast_concat, Block.sum_cons]
  have hlast : (first :: (mid ++ [last])).getLastD .zero = last := by rw [← List.cons_append, List.getLastD_concat]
  rw [step, hs, hlast, List.tail_cons, List.dropLast_concat]

/-! ## Rounds as steps -/

/-- The number of a round that fits into half a block leaves the other half zero. -/
theorem counter_eq_number {r : Nat} (h : r < 2 ^ 64) : counter r = number r := by
  have hwide : BitVec.ofNat 128 r = 0#64 ++ BitVec.ofNat 64 r := by
    apply BitVec.eq_of_toNat_eq
    rw [BitVec.toNat_append, BitVec.toNat_ofNat, BitVec.toNat_ofNat, BitVec.toNat_ofNat, Nat.mod_eq_of_lt h]
    simp
    omega
  have hbytes : Word.storeLE (BitVec.ofNat 128 r) = Word.storeLE (BitVec.ofNat 64 r) ++ Bytes.zeros 8 := by
    rw [← List.reverse_inj, ← Word.storeBE_eq_reverse_storeLE (by decide), hwide,
      Word.storeBE_append (by decide) (by decide), List.reverse_append, ← Word.storeBE_eq_reverse_storeLE (by decide)]
    rfl
  rw [← Vector.toList_inj, counter, number, Block.toList_ofList, Block.toList_ofList, hbytes]

theorem encryptRound_eq_step (p : Permutation 16) {row : Row} (h2 : 2 ≤ row.length) {r : Nat} (hr : r < 2 ^ 64) :
    encryptRound p row r = step p.encrypt row r := by
  obtain ⟨first, mid, last, rfl⟩ := exists_first_last h2
  rw [encryptRound_eq, step_eq, roundMask, counter_eq_number hr, Block.xor_assoc]

/-- The rounds whose numbers fit are steps as a run. -/
theorem foldl_encryptRound (p : Permutation 16) {rounds : List Nat} (hr : ∀ r ∈ rounds, r < 2 ^ 64) {row : Row}
    (h2 : 2 ≤ row.length) : rounds.foldl (encryptRound p) row = rounds.foldl (step p.encrypt) row := by
  induction rounds generalizing row with
  | nil => rfl
  | cons r rounds ih =>
    obtain ⟨hfirst, hrest⟩ := List.forall_mem_cons.mp hr
    have hlength := length_encryptRound p r row
    rw [List.foldl_cons, List.foldl_cons, ih hrest (by omega), encryptRound_eq_step p h2 hfirst]

theorem transform_eq_run (p : Permutation 16) {row : Row} (h2 : 2 ≤ row.length) (h64 : 2 * row.length < 2 ^ 64) :
    transform p row .encrypt = run p.encrypt row := by
  apply foldl_encryptRound p _ h2
  intro r hr
  rw [rounds, List.mem_range'_1] at hr
  omega

end Recurrence

/-! ## Encryption as the recurrence -/

/-- **Encryption computes the recurrence**: under a cipher with a key, for every number of blocks from two on that a
memory of 64-bit addresses can hold, and in the one buffer where the blocks stand side by side. There the size and the
offsets and numbers that the loops go through are the numbers that they stand for. -/
theorem encryption_is_recurrence {c : Cipher Belt.algorithm} (hk : c.isKeyed = true) :
    ∃ E : Block 16 → Block 16, (∀ b : Block 16, c.processBlocks .encrypt 1 b.toList = .ok (E b).toList) ∧
      ∀ blocks : Row, 2 ≤ blocks.length → 16 * blocks.length < 2 ^ 64 →
        Buffer.run c .encrypt (.ofBlocks blocks) = ⟨none, .ofBlocks (Recurrence.run E blocks)⟩ ∧
        run c.permutation .encrypt (.ofBlocks blocks) = ⟨none, .ofBlocks (Recurrence.run E blocks)⟩ ∧
        ∃ size : Buffer.Size, Buffer.Size.of? (UInt64.ofNat (16 * blocks.length)) = some size ∧ size.Exact ∧
          size.bytes.toNat = 16 * blocks.length ∧
          (size.rounds 1).map UInt64.toNat = List.range' 1 (2 * blocks.length) := by
  obtain ⟨schedule, hs⟩ := Option.isSome_iff_exists.mp hk
  have hp : c.permutation = .ok (Belt.algorithm.permutation schedule) := by rw [Cipher.permutation, hs]
  refine ⟨Belt.encryptBlock schedule, Buffer.processBlocks_one hs, ?_⟩
  intro blocks h2 h64
  have hlength : (Bytes.ofBlocks blocks).length = 16 * blocks.length := by rw [Bytes.length_ofBlocks, Nat.mul_comm]
  have hwhole : IsWhole (.ofBlocks blocks) := by
    rw [IsWhole, hlength]
    omega
  have hrun : run c.permutation .encrypt (.ofBlocks blocks) =
      ⟨none, .ofBlocks (Recurrence.run (Belt.encryptBlock schedule) blocks)⟩ := by
    refine (Buffer.run_of_isWhole c.permutation .encrypt hwhole).trans ?_
    have htransform := Recurrence.transform_eq_run (Belt.permutation schedule) h2 (by omega)
    rw [hp, Bytes.blocks_ofBlocks (by decide)]
    exact congrArg (fun row => (⟨none, .ofBlocks row⟩ : InPlace)) htransform
  obtain ⟨size, hof, hsize⟩ := Buffer.exists_size (hlength ▸ h64) hwhole
  rw [hlength] at hof
  rw [Bytes.blocks_ofBlocks (by decide)] at hsize
  refine ⟨?_, hrun, size, hof, size.exact, hsize, ?_⟩
  · rw [Buffer.run_eq (hlength ▸ h64), hrun]
  · exact Buffer.map_toNat_rounds_row hsize

/-- With the key of 32 zero bytes, two blocks and three go through the recurrence. -/
theorem encryption_is_recurrence_two_and_three :
    let c := Belt.keyed (.zeros 32)
    let two : Row := List.replicate 2 .zero
    let three : Row := List.replicate 3 .zero
    c.isKeyed = true ∧ ∃ E : Block 16 → Block 16,
      (∀ b : Block 16, c.processBlocks .encrypt 1 b.toList = .ok (E b).toList) ∧
      Buffer.run c .encrypt (.ofBlocks two) = ⟨none, .ofBlocks (Recurrence.run E two)⟩ ∧
      Buffer.run c .encrypt (.ofBlocks three) = ⟨none, .ofBlocks (Recurrence.run E three)⟩ := by
  intro c two three
  have hk : c.isKeyed = true := rfl
  obtain ⟨E, hE, h⟩ := encryption_is_recurrence hk
  exact ⟨hk, E, hE, (h two (by decide) (by decide)).1, (h three (by decide) (by decide)).1⟩

end KeyWrapping.WideBlock
