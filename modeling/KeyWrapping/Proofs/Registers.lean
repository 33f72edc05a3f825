import KeyWrapping.Proofs.Words
import KeyWrapping.Wrap.Register

/-!
# The wrapping register runs backwards

Semiblocks and bytes stand for each other (`Semiblock.ofBytes_flatMap_toBytes`, `Semiblock.flatMap_toBytes_ofBytes`),
and so do a block and its two halves (`Semiblock.split_join`, `Semiblock.join_split`). Under a cipher whose two
directions undo each other, a pass is taken back by the pass from right to left (`Register.unwrapPass_wrapPass`), so all
six passes are: `Register.unwrap_wrap` and `Register.wrap_unwrap`.
-/

namespace KeyWrapping

/-! ## Semiblocks and their bytes -/

namespace Semiblock

/-- The eight bytes of a semiblock as a block. -/
def toBlock (s : Semiblock) : Block 8 := Block.ofList s.toBytes (by simp)

@[simp] theorem toList_toBlock (s : Semiblock) : s.toBlock.toList = s.toBytes := rfl

theorem toBytes_ofBlock (b : Block 8) : (ofBlock b).toBytes = b.toList :=
  Word.storeBE_loadBE (by decide) (by simp)

@[simp] theorem toBlock_ofBlock (b : Block 8) : (ofBlock b).toBlock = b := by
  rw [← Vector.toList_inj, toList_toBlock, toBytes_ofBlock]

theorem loadBE_toBytes (s : Semiblock) : UInt64.ofBitVec (Word.loadBE 64 s.toBytes) = s := by
  rw [toBytes, Word.loadBE_storeBE (by decide)]

@[simp] theorem ofBlock_toBlock (s : Semiblock) : ofBlock s.toBlock = s := loadBE_toBytes s

theorem flatMap_toBytes (data : List Semiblock) : data.flatMap toBytes = Bytes.ofBlocks (data.map toBlock) := by
  rw [Bytes.ofBlocks, List.flatMap_map]
  rfl

@[simp] theorem length_flatMap_toBytes (data : List Semiblock) : (data.flatMap toBytes).length = 8 * data.length := by
  rw [flatMap_toBytes, Bytes.length_ofBlocks, List.length_map, Nat.mul_comm]

theorem ofBytes_flatMap_toBytes (data : List Semiblock) : ofBytes (data.flatMap toBytes) = data := by
  rw [ofBytes, flatMap_toBytes, Bytes.blocks_ofBlocks (by decide), List.map_map]
  simp [Function.comp_def]

theorem flatMap_toBytes_ofBytes {bytes : Bytes} (h : 8 ∣ bytes.length) : (ofBytes bytes).flatMap toBytes = bytes := by
  rw [flatMap_toBytes, ofBytes, List.map_map]
  simp only [Function.comp_def, toBlock_ofBlock, List.map_id']
  exact Bytes.ofBlocks_blocks (by decide) h

theorem length_ofBytes (bytes : Bytes) : (ofBytes bytes).length = bytes.length / 8 := by
  rw [ofBytes, List.length_map, Bytes.length_blocks (by decide)]

theorem xor_xor_cancel (a b : Semiblock) : (a ^^^ b) ^^^ b = a := by
  rw [UInt64.xor_assoc, UInt64.xor_self, UInt64.xor_zero]

theorem toList_join (high low : Semiblock) : (join high low).toList = high.toBytes ++ low.toBytes := rfl

@[simp] theorem split_join (high low : Semiblock) : split (join high low) = (high, low) := by
  have h0 : Word.slice 64 0 (high.toBytes ++ low.toBytes) = high.toBytes :=
    Word.slice_zero_append (length_toBytes high) _
  have h1 : Word.slice 64 1 (high.toBytes ++ low.toBytes) = low.toBytes := by
    rw [Word.slice_succ_append (length_toBytes high), ← List.append_nil low.toBytes]
    exact Word.slice_zero_append (length_toBytes low) _
  rw [split, toList_join, Word.loadBEAt, Word.loadBEAt, h0, h1, loadBE_toBytes, loadBE_toBytes]

@[simp] theorem join_split (b : Block 16) : join (split b).1 (split b).2 = b := by
  have store {i : Nat} (hi : i < 2) :
      toBytes (UInt64.ofBitVec (Word.loadBEAt 64 i b.toList)) = Word.slice 64 i b.toList :=
    Word.storeBE_loadBE (by decide) (Word.length_slice (by simp; omega))
  have hs := Word.flatMap_slice 64 2 b.toList
  rw [List.take_of_length_le (by simp)] at hs
  rw [← Vector.toList_inj, toList_join, split, store (by decide), store (by decide)]
  simpa [List.range_succ] using hs

end Semiblock

namespace Register

open Semiblock

/-! ## Registers and their bytes -/

@[simp] theorem length_dataBytes (r : Register) : r.dataBytes.length = 8 * r.data.length := length_flatMap_toBytes _

@[simp] theorem length_toBytes (r : Register) : r.toBytes.length = 8 * r.data.length + 8 := by
  simp [toBytes, Nat.add_comm]

theorem toBytes_eq_flatMap (r : Register) : r.toBytes = (r.integrity :: r.data).flatMap Semiblock.toBytes := rfl

@[simp] theorem ofBytes_toBytes (r : Register) : ofBytes r.toBytes = r := by
  rw [ofBytes, toBytes_eq_flatMap, ofBytes_flatMap_toBytes]

theorem toBytes_ofBytes {bytes : Bytes} (h : 8 ∣ bytes.length) (h0 : bytes ≠ []) :
    (ofBytes bytes).toBytes = bytes := by
  have key := flatMap_toBytes_ofBytes h
  unfold ofBytes
  cases hs : Semiblock.ofBytes bytes with
  | nil =>
    rw [hs] at key
    exact absurd key.symm h0
  | cons a data => rwa [hs] at key

/-- A byte string of `n` semiblocks and one more makes a register with `n` semiblocks of data. -/
theorem length_data_ofBytes (bytes : Bytes) : (ofBytes bytes).data.length = bytes.length / 8 - 1 := by
  have key := length_ofBytes bytes
  unfold ofBytes
  cases hs : Semiblock.ofBytes bytes with
  | nil => rw [hs, List.length_nil] at key; rw [List.length_nil, ← key]
  | cons a data => rw [hs, List.length_cons] at key; rw [← key, Nat.add_sub_cancel]

/-! ## One pass -/

variable {p : Permutation 16}

@[simp] theorem length_wrapPass (t : Nat) (a : Semiblock) (data : List Semiblock) :
    (wrapPass p t a data).2.length = data.length := by
  induction data generalizing t a with
  | nil => rfl
  | cons r data ih => simp [wrapPass, ih]

@[simp] theorem length_unwrapPass (t : Nat) (a : Semiblock) (data : List Semiblock) :
    (unwrapPass p t a data).2.length = data.length := by
  induction data generalizing t a with
  | nil => rfl
  | cons r data ih => simp [unwrapPass, ih]

/-- The pass from right to left takes back the pass from left to right. -/
theorem unwrapPass_wrapPass (hp : p.Inverse) (t : Nat) (a : Semiblock) (data : List Semiblock) :
    unwrapPass p t (wrapPass p t a data).1 (wrapPass p t a data).2 = (a, data) := by
  induction data generalizing t a with
  | nil => rfl
  | cons r data ih =>
    -- the step at the head is the last one that the way back comes to
    simp only [wrapPass, unwrapPass, ih, xor_xor_cancel, join_split, hp.decrypt_encrypt, split_join]

theorem wrapPass_unwrapPass (hp : p.Inverse) (t : Nat) (a : Semiblock) (data : List Semiblock) :
    wrapPass p t (unwrapPass p t a data).1 (unwrapPass p t a data).2 = (a, data) := by
  induction data generalizing t a with
  | nil => rfl
  | cons r data ih =>
    simp only [wrapPass, unwrapPass, join_split, hp.encrypt_decrypt, split_join, xor_xor_cancel, ih]

/-! ## All passes -/

@[simp] theorem length_data_wrapStep (r : Register) (pass : Nat) :
    (wrapStep p r pass).data.length = r.data.length := length_wrapPass ..

@[simp] theorem length_data_unwrapStep (r : Register) (pass : Nat) :
    (unwrapStep p r pass).data.length = r.data.length := length_unwrapPass ..

theorem unwrapStep_wrapStep (hp : p.Inverse) (r : Register) (pass : Nat) :
    unwrapStep p (wrapStep p r pass) pass = r := by
  simp only [unwrapStep, length_data_wrapStep]
  simp only [wrapStep, unwrapPass_wrapPass hp]

theorem wrapStep_unwrapStep (hp : p.Inverse) (r : Register) (pass : Nat) :
    wrapStep p (unwrapStep p r pass) pass = r := by
  simp only [wrapStep, length_data_unwrapStep]
  simp only [unwrapStep, wrapPass_unwrapPass hp]

theorem unwrap_wrap (hp : p.Inverse) (r : Register) : unwrap p (wrap p r) = r := by
  apply foldl_reverse_undoes (R := Eq) (wrapStep p) (unwrapStep p)
  · intro t s i h
    rw [h, unwrapStep_wrapStep hp]
  · rfl

theorem wrap_unwrap (hp : p.Inverse) (r : Register) : wrap p (unwrap p r) = r := by
  rw [wrap, ← List.reverse_reverse (List.range 6)]
  apply foldl_reverse_undoes (R := Eq) (unwrapStep p) (wrapStep p)
  · intro t s i h
    rw [h, wrapStep_unwrapStep hp]
  · rfl

/-- Steps that keep the number of semiblocks keep it over a run. -/
theorem length_data_foldl {step : Register → Nat → Register}
    (keep : ∀ r pass, (step r pass).data.length = r.data.length) (passes : List Nat) (r : Register) :
    (passes.foldl step r).data.length = r.data.length := by
  induction passes generalizing r with
  | nil => rfl
  | cons pass passes ih => rw [List.foldl_cons, ih, keep]

@[simp] theorem length_data_wrap (r : Register) : (wrap p r).data.length = r.data.length :=
  length_data_foldl length_data_wrapStep _ _

@[simp] theorem length_data_unwrap (r : Register) : (unwrap p r).data.length = r.data.length :=
  length_data_foldl length_data_unwrapStep _ _

end Register

end KeyWrapping
