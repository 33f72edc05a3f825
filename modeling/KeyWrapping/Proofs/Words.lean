import KeyWrapping.Word

/-!
# Loading and storing words are inverse

Bit `i` of a word loaded with the least significant byte first is bit `i % 8` of byte `i / 8` (`getLsbD_loadLE`), and
storing takes the same bits apart again (`getLsbD_storeLE`). So the two are inverse on words of whole bytes
(`loadLE_storeLE`, `storeLE_loadLE`). The other order of bytes is the same read backwards (`loadBE_eq_loadLE_reverse`,
`storeBE_eq_reverse_storeLE`), which gives `loadBE_storeBE` and `storeBE_loadBE`. Storing goes through exclusive or and
through words put side by side (`storeBE_xor`, `storeBE_append`).

The words of a row are found at their places (`slice_zero_append`, `slice_succ_append`) and make up the row
(`flatMap_slice`).
-/

namespace KeyWrapping

/-- What holds of the bytes with all numbers below 256 holds of every byte. -/
theorem forall_byte {P : UInt8 → Prop} (h : ∀ n < 256, P (UInt8.ofNat n)) (b : UInt8) : P b := by
  have hb := h b.toNat b.toNat_lt
  rwa [UInt8.ofNat_toNat] at hb

namespace Word

variable {w : Nat}

/-! ## Least significant byte first -/

theorem loadLE_cons (w : Nat) (b : UInt8) (bytes : Bytes) :
    loadLE w (b :: bytes) = loadLE w bytes <<< 8 ||| b.toBitVec.setWidth w := rfl

/-- A loaded word takes its bits from the bytes in order. -/
theorem getLsbD_loadLE (w : Nat) (bytes : Bytes) (i : Nat) :
    (loadLE w bytes).getLsbD i = (decide (i < w) && (bytes.getD (i / 8) 0).toBitVec.getLsbD (i % 8)) := by
  induction bytes generalizing i with
  | nil => simp [loadLE]
  | cons b bytes ih =>
    rw [loadLE_cons, BitVec.getLsbD_or, BitVec.getLsbD_shiftLeft, BitVec.getLsbD_setWidth, ih]
    by_cases h8 : i < 8
    · simp [h8, Nat.div_eq_of_lt h8, Nat.mod_eq_of_lt h8]
    · have hd : i / 8 = (i - 8) / 8 + 1 := by omega
      have hm : (i - 8) % 8 = i % 8 := by omega
      have hb : b.toBitVec.getLsbD i = false := BitVec.getLsbD_of_ge _ _ (by omega)
      rw [hd, hm, hb, List.getD_cons_succ]
      by_cases hw : i < w
      · simp [hw, h8, show i - 8 < w by omega]
      · simp [hw]

/-- Byte `i` of a stored word holds eight bits of it. -/
theorem getLsbD_storeLE (v : BitVec w) {i : Nat} (h : i < (storeLE v).length) (j : Nat) :
    (storeLE v)[i].toBitVec.getLsbD j = (decide (j < 8) && v.getLsbD (8 * i + j)) := by
  simp [storeLE]

theorem loadLE_storeLE (hw : 8 ∣ w) (v : BitVec w) : loadLE w (storeLE v) = v := by
  apply BitVec.eq_of_getLsbD_eq
  intro i hi
  have hb : i / 8 < (storeLE v).length := by rw [length_storeLE]; omega
  rw [getLsbD_loadLE, List.getD_eq_getElem?_getD, List.getElem?_eq_getElem hb, Option.getD_some, getLsbD_storeLE]
  simp [hi, Nat.mod_lt, Nat.div_add_mod]

theorem storeLE_loadLE {bytes : Bytes} (hw : 8 ∣ w) (h : bytes.length = w / 8) :
    storeLE (loadLE w bytes) = bytes := by
  apply List.ext_getElem (by rw [length_storeLE, h])
  intro i hi hi'
  apply UInt8.toBitVec_inj.mp
  apply BitVec.eq_of_getLsbD_eq
  intro j hj
  have hlt : 8 * i + j < w := by omega
  have hd : (8 * i + j) / 8 = i := by omega
  have hm : (8 * i + j) % 8 = j := by omega
  rw [getLsbD_storeLE, getLsbD_loadLE, hd, hm, List.getD_eq_getElem?_getD, List.getElem?_eq_getElem hi',
    Option.getD_some]
  simp [hj, hlt]

/-! ## Most significant byte first -/

/-- Reading from the most significant byte is reading the bytes backwards. -/
theorem loadBE_eq_loadLE_reverse (w : Nat) (bytes : Bytes) : loadBE w bytes = loadLE w bytes.reverse := by
  rw [loadBE, loadLE, List.foldr_reverse]

/-- Writing from the most significant byte is writing the bytes backwards. -/
theorem storeBE_eq_reverse_storeLE (hw : 8 ∣ w) (v : BitVec w) : storeBE v = (storeLE v).reverse := by
  apply List.ext_getElem (by simp)
  intro i hi hi'
  rw [List.getElem_reverse]
  have hlt : i < w / 8 := by rwa [length_storeBE] at hi
  have hs : w - 8 * (i + 1) = 8 * ((storeLE v).length - 1 - i) := by rw [length_storeLE]; omega
  simp only [storeBE, byte, List.getElem_map, List.getElem_range, hs]
  simp [storeLE]

theorem loadBE_storeBE (hw : 8 ∣ w) (v : BitVec w) : loadBE w (storeBE v) = v := by
  rw [loadBE_eq_loadLE_reverse, storeBE_eq_reverse_storeLE hw, List.reverse_reverse, loadLE_storeLE hw]

theorem storeBE_loadBE {bytes : Bytes} (hw : 8 ∣ w) (h : bytes.length = w / 8) :
    storeBE (loadBE w bytes) = bytes := by
  rw [storeBE_eq_reverse_storeLE hw, loadBE_eq_loadLE_reverse, storeLE_loadLE hw (by simpa using h),
    List.reverse_reverse]

/-! ## Words put together -/

theorem getElem_storeBE (x : BitVec w) {i : Nat} (h : i < (storeBE x).length) : (storeBE x)[i] = byte i x := by
  simp [storeBE]

/-- A bit of byte `i` is a bit of the word, as far down as the byte is. -/
theorem getLsbD_byte (i : Nat) (x : BitVec w) (j : Nat) :
    (byte i x).toBitVec.getLsbD j = (decide (j < 8) && x.getLsbD (w - 8 * (i + 1) + j)) := by
  simp [byte]

theorem storeBE_xor (x y : BitVec w) : storeBE (x ^^^ y) = (storeBE x).xor (storeBE y) := by
  apply List.ext_getElem (by simp)
  intro i hi hi'
  rw [getElem_storeBE]
  simp only [Bytes.xor, List.getElem_zipWith, getElem_storeBE]
  apply UInt8.toBitVec_inj.mp
  apply BitVec.eq_of_getLsbD_eq
  intro j hj
  rw [UInt8.toBitVec_xor, BitVec.getLsbD_xor]
  simp only [getLsbD_byte, hj, decide_true, Bool.true_and, BitVec.getLsbD_xor]

/-- Two words side by side have their bytes side by side. -/
theorem storeBE_append {v : Nat} (hv : 8 ∣ v) (hw : 8 ∣ w) (x : BitVec v) (y : BitVec w) :
    storeBE (x ++ y) = storeBE x ++ storeBE y := by
  have hdiv : (v + w) / 8 = v / 8 + w / 8 := by omega
  apply List.ext_getElem (by simp [hdiv])
  intro i hi hi'
  have hi8 : i < v / 8 + w / 8 := by simpa [hdiv] using hi
  rw [getElem_storeBE]
  apply UInt8.toBitVec_inj.mp
  apply BitVec.eq_of_getLsbD_eq
  intro j hj
  rw [getLsbD_byte, BitVec.getLsbD_append]
  by_cases h : i < v / 8
  · have hfront : ¬ v + w - 8 * (i + 1) + j < w := by omega
    have hsub : v + w - 8 * (i + 1) + j - w = v - 8 * (i + 1) + j := by omega
    rw [List.getElem_append_left (by simpa using h), getElem_storeBE, getLsbD_byte, if_neg hfront, hsub]
  · have hback : v + w - 8 * (i + 1) + j < w := by omega
    have hsub : v + w - 8 * (i + 1) + j = w - 8 * (i - v / 8 + 1) + j := by omega
    rw [List.getElem_append_right (by simpa using h), getElem_storeBE, getLsbD_byte, if_pos hback, length_storeBE, hsub]

/-! ## Rows of words -/

theorem length_slice {i : Nat} {bytes : Bytes} (h : (i + 1) * (w / 8) ≤ bytes.length) :
    (slice w i bytes).length = w / 8 := by
  rw [Nat.succ_mul] at h
  simp [slice]
  omega

theorem slice_zero_append {front : Bytes} (h : front.length = w / 8) (rest : Bytes) :
    slice w 0 (front ++ rest) = front := by
  simp [slice, ← h]

theorem slice_succ_append {front : Bytes} (h : front.length = w / 8) (i : Nat) (rest : Bytes) :
    slice w (i + 1) (front ++ rest) = slice w i rest := by
  have hd : List.drop ((i + 1) * (w / 8)) (front ++ rest) = List.drop (i * (w / 8)) rest := by
    rw [Nat.succ_mul, Nat.add_comm, ← List.drop_drop, ← h, List.drop_left]
  rw [slice, slice, hd]

/-- The words of a row, laid side by side, are the row. -/
theorem flatMap_slice (w n : Nat) (bytes : Bytes) :
    (List.range n).flatMap (slice w · bytes) = bytes.take (n * (w / 8)) := by
  induction n with
  | zero => simp
  | succ n ih =>
    rw [List.range_succ, List.flatMap_append, ih, List.flatMap_singleton, Nat.succ_mul, List.take_add, slice]

end Word

end KeyWrapping
