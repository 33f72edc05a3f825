import KeyWrapping.WideBlock

/-!
# The wide block transform runs backwards

A row of two or more blocks has a first and a last block, and a round is a formula in these and the blocks between them
(`encryptRound_eq`, `decryptRound_eq`). Each kind of round takes back the other, whatever the cipher does to blocks, so
the two directions of the transform undo each other on rows (`transform_decrypt_encrypt`, `transform_encrypt_decrypt`)
and on byte strings of whole blocks (`applied_decrypt_encrypt`, `applied_encrypt_decrypt`).
-/

namespace KeyWrapping

theorem Block.xor_xor_cancel {n : Nat} (a b : Block n) : (a ^^^ b) ^^^ b = a := by
  rw [Block.xor_assoc, Block.xor_self, Block.xor_zero]

theorem Block.sum_cons {n : Nat} (b : Block n) (bs : List (Block n)) : Block.sum (b :: bs) = b ^^^ Block.sum bs := by
  have shift (bs : List (Block n)) (a b : Block n) : bs.foldl (· ^^^ ·) (a ^^^ b) = a ^^^ bs.foldl (· ^^^ ·) b := by
    induction bs generalizing b with
    | nil => rfl
    | cons c bs ih => rw [List.foldl_cons, Block.xor_assoc, ih, List.foldl_cons]
  rw [Block.sum, Block.sum, List.foldl_cons, Block.xor_comm, shift]

/-- What is changed at the place behind some elements is the next one. -/
theorem modify_length_append {α : Type} (f : α → α) (xs : List α) (x : α) (ys : List α) :
    (xs ++ x :: ys).modify xs.length f = xs ++ f x :: ys := by
  induction xs with
  | nil => rfl
  | cons z xs ih => rw [List.cons_append, List.length_cons, List.modify_succ_cons, ih, List.cons_append]

namespace WideBlock

/-! ## One round -/

section Round

variable (p : Permutation 16) (round : Nat)

/-- The first block of a row of two or more, those between, and the last one. -/
theorem exists_first_last {row : Row} (h : 2 ≤ row.length) : ∃ first mid last, row = first :: (mid ++ [last]) := by
  obtain - | ⟨first, rest⟩ := row
  · simp at h
  · rcases List.eq_nil_or_concat rest with rfl | ⟨mid, last, rfl⟩
    · simp at h
    · exact ⟨first, mid, last, by rw [List.concat_eq_append]⟩

/-- The last two blocks of a row of two or more, and those before them. -/
theorem exists_last_two {row : Row} (h : 2 ≤ row.length) : ∃ mid last moved, row = mid ++ [last, moved] := by
  obtain ⟨first, mid, moved, rfl⟩ := exists_first_last h
  rcases List.eq_nil_or_concat (first :: mid) with hn | ⟨front, last, hf⟩
  · cases hn
  · refine ⟨front, last, moved, ?_⟩
    rw [← List.cons_append, hf, List.concat_eq_append, List.append_assoc]
    rfl

theorem encryptRound_eq (first last : Block 16) (mid : Row) :
    encryptRound p (first :: (mid ++ [last])) round =
      mid ++ [last ^^^ roundMask p (first ^^^ Block.sum mid) round, first ^^^ Block.sum mid] := by
  have hin : incoming (first :: (mid ++ [last])) = first ^^^ Block.sum mid := by
    rw [incoming, ← List.cons_append, List.dropLast_concat, Block.sum_cons]
  have hlen : (first :: (mid ++ [last])).length - 2 = mid.length := by simp
  rw [encryptRound, moveLeft, hin, hlen, List.tail_cons, List.append_assoc]
  exact modify_length_append _ mid last _

theorem decryptRound_eq (last moved : Block 16) (mid : Row) :
    decryptRound p (mid ++ [last, moved]) round =
      (moved ^^^ Block.sum mid) :: (mid ++ [last ^^^ roundMask p moved round]) := by
  have hsplit : mid ++ [last, moved] = (mid ++ [last]) ++ [moved] := by simp
  have hlast : (mid ++ [last, moved]).getLastD .zero = moved := by rw [hsplit, List.getLastD_concat]
  have hright : moveRight (mid ++ [last, moved]) = (moved :: mid) ++ [last] := by
    rw [moveRight, hlast, hsplit, List.dropLast_concat]
    rfl
  have hlen : (mid ++ [last, moved]).length - 1 = (moved :: mid).length := by simp
  rw [decryptRound, hlast, hright, hlen, modify_length_append, List.cons_append, settleFirst, List.dropLast_concat]

theorem decryptRound_encryptRound {row : Row} (h : 2 ≤ row.length) :
    decryptRound p (encryptRound p row round) round = row := by
  obtain ⟨first, mid, last, rfl⟩ := exists_first_last h
  rw [encryptRound_eq, decryptRound_eq, Block.xor_xor_cancel, Block.xor_xor_cancel]

theorem encryptRound_decryptRound {row : Row} (h : 2 ≤ row.length) :
    encryptRound p (decryptRound p row round) round = row := by
  obtain ⟨mid, last, moved, rfl⟩ := exists_last_two h
  rw [decryptRound_eq, encryptRound_eq, Block.xor_xor_cancel, Block.xor_xor_cancel]

theorem length_encryptRound (row : Row) : (encryptRound p row round).length = row.length - 1 + 1 := by
  simp [encryptRound, moveLeft]

theorem length_settleFirst (row : Row) : (settleFirst row).length = row.length := by
  cases row <;> rfl

theorem length_decryptRound (row : Row) : (decryptRound p row round).length = row.length - 1 + 1 := by
  rw [decryptRound, length_settleFirst, List.length_modify, moveRight, List.length_cons, List.length_dropLast]

end Round

/-! ## All rounds -/

variable (p : Permutation 16)

/-- Rounds keep the number of blocks over a run. -/
theorem length_foldl {step : Row → Nat → Row} (keep : ∀ row round, (step row round).length = row.length - 1 + 1)
    (rounds : List Nat) {row : Row} (h : 1 ≤ row.length) : (rounds.foldl step row).length = row.length := by
  induction rounds generalizing row with
  | nil => rfl
  | cons round rounds ih =>
    have hk := keep row round
    rw [List.foldl_cons, ih (by omega)]
    omega

theorem length_transform {row : Row} (h : 1 ≤ row.length) (direction : Direction) :
    (transform p row direction).length = row.length := by
  cases direction with
  | encrypt => exact length_foldl (fun row round => length_encryptRound p round row) _ h
  | decrypt => exact length_foldl (fun row round => length_decryptRound p round row) _ h

/-- Rounds that are taken back one by one are taken back as a run: no row of the run is too short. -/
theorem foldl_reverse_foldl {forth back : Row → Nat → Row}
    (keep : ∀ row round, (forth row round).length = row.length - 1 + 1)
    (undo : ∀ round row, 2 ≤ row.length → back (forth row round) round = row) (rounds : List Nat) {row : Row}
    (h : 2 ≤ row.length) : rounds.reverse.foldl back (rounds.foldl forth row) = row := by
  refine (foldl_reverse_undoes (R := fun t row => t = row ∧ 2 ≤ row.length) forth back ?_ rounds (s := row) ⟨rfl, ?_⟩).1
  · rintro t row round ⟨rfl, hlen⟩
    rw [keep] at hlen
    exact ⟨undo round row (by omega), by omega⟩
  · rwa [length_foldl keep rounds (Nat.le_of_succ_le h)]

theorem transform_decrypt_encrypt {row : Row} (h : 2 ≤ row.length) :
    transform p (transform p row .encrypt) .decrypt = row := by
  have hl := length_transform p (Nat.le_of_succ_le h) .encrypt
  rw [transform.eq_2, hl]
  exact foldl_reverse_foldl (fun row round => length_encryptRound p round row)
    (fun round _ h => decryptRound_encryptRound p round h) _ h

theorem transform_encrypt_decrypt {row : Row} (h : 2 ≤ row.length) :
    transform p (transform p row .decrypt) .encrypt = row := by
  have hl := length_transform p (Nat.le_of_succ_le h) .decrypt
  rw [transform.eq_1, hl, ← List.reverse_reverse (rounds row.length)]
  exact foldl_reverse_foldl (fun row round => length_decryptRound p round row)
    (fun round _ h => encryptRound_decryptRound p round h) _ h

/-! ## Byte strings of whole blocks -/

/-- The bytes after all rounds in one direction. -/
def applied (direction : Direction) (bytes : Bytes) : Bytes := .ofBlocks (transform p (bytes.blocks 16) direction)

theorem blocks_applied (direction : Direction) (bytes : Bytes) :
    (applied p direction bytes).blocks 16 = transform p (bytes.blocks 16) direction :=
  Bytes.blocks_ofBlocks (by decide) _

section Whole

variable {bytes : Bytes} (h32 : 32 ≤ bytes.length) (h16 : bytes.length % 16 = 0)
include h32

theorem two_le_length_blocks : 2 ≤ (bytes.blocks 16).length := by
  rw [Bytes.length_blocks (by decide)]
  exact (Nat.le_div_iff_mul_le (by decide)).mpr h32

include h16

theorem length_applied (direction : Direction) : (applied p direction bytes).length = bytes.length := by
  rw [applied, Bytes.length_ofBlocks, length_transform p (Nat.le_of_succ_le (two_le_length_blocks h32)),
    Bytes.length_blocks (by decide), Nat.div_mul_cancel (Nat.dvd_of_mod_eq_zero h16)]

theorem result_run_ok (direction : Direction) :
    (run (.ok p) direction bytes).result = .ok (applied p direction bytes) := by
  rw [run, if_neg (by omega)]
  rfl

theorem applied_decrypt_encrypt : applied p .decrypt (applied p .encrypt bytes) = bytes := by
  rw [applied, blocks_applied, transform_decrypt_encrypt p (two_le_length_blocks h32),
    Bytes.ofBlocks_blocks (by decide) (Nat.dvd_of_mod_eq_zero h16)]

theorem applied_encrypt_decrypt : applied p .encrypt (applied p .decrypt bytes) = bytes := by
  rw [applied, blocks_applied, transform_encrypt_decrypt p (two_le_length_blocks h32),
    Bytes.ofBlocks_blocks (by decide) (Nat.dvd_of_mod_eq_zero h16)]

end Whole

end WideBlock

end KeyWrapping
