import KeyWrapping.Proofs.MaskFormulas

/-!
# Comparing rows of words

Rows are compared place by place, and what is found on the way is gathered with "or" in one word. A bit that was
gathered stays (`Register.getLsbD_gather`), so at the end nothing was gathered if and only if there was nothing at any
place (`Register.gather_eq_zero_iff`). The masks made of it decide whether rows are equal, whether they differ and
whether they are zero (`Mask.Decides`), at every width and every length, and for byte strings they decide equality
(`comparisons_exact`).
-/

namespace KeyWrapping.Mask

variable {w n : Nat}

/-! ## Masks that decide -/

/-- The mask is all ones if the statement holds and all zeros if not. -/
structure Decides (m : Mask w) (P : Prop) : Prop where
  ones_iff : m.value = BitVec.allOnes w ↔ P
  zeros_iff : m.value = 0#w ↔ ¬ P

/-- Where there are bits at all, the mask for a Boolean decides what the Boolean decides. -/
theorem decides_ofBool (hw : 0 < w) {b : Bool} {P : Prop} (h : b = true ↔ P) : (ofBool b : Mask w).Decides P := by
  have hne : BitVec.allOnes w ≠ 0#w := by
    simpa using Nat.ne_of_gt hw
  cases b with
  | false =>
    have hP : ¬ P := by simpa using h
    exact ⟨by simpa [ofBool, no, hP] using hne.symm, by simp [ofBool, no, hP]⟩
  | true =>
    have hP : P := by simpa using h
    exact ⟨by simp [ofBool, yes, hP], by simpa [ofBool, yes, hP] using hne⟩

theorem allZero_eq (xs : List (BitVec w)) : allZero xs = ofBool (xs.all (· == 0#w)) := by
  have h := foldl_or_eq_zero_iff id xs 0#w
  simp only [id_eq, true_and] at h
  unfold allZero
  rw [isZero_eq]
  congr 1
  rw [Bool.eq_iff_iff, beq_iff_eq, h]
  simp

/-! ## Gathering place by place -/

namespace Register

theorem gather_zero (word : (i : Nat) → i < 0 → BitVec w) : gather word = 0#w := rfl

/-- The last place comes last. -/
theorem gather_succ (word : (i : Nat) → i < n + 1 → BitVec w) :
    gather word = gather (fun i h => word i (Nat.lt_succ_of_lt h)) ||| word n (Nat.lt_succ_self n) := by
  unfold gather
  rw [Nat.fold_succ, cut_or, cut_widen, cut_widen]

/-- A bit that is set at some place is set in the end, whatever is found at the other places. -/
theorem getLsbD_gather (word : (i : Nat) → i < n → BitVec w) (j : Nat) :
    (gather word).getLsbD j = true ↔ ∃ i, ∃ h : i < n, (word i h).getLsbD j = true := by
  induction n with
  | zero => simp [gather_zero]
  | succ n ih =>
    rw [gather_succ, BitVec.getLsbD_or, Bool.or_eq_true, ih]
    constructor
    · rintro (⟨i, h, hbit⟩ | hbit)
      · exact ⟨i, Nat.lt_succ_of_lt h, hbit⟩
      · exact ⟨n, Nat.lt_succ_self n, hbit⟩
    · rintro ⟨i, h, hbit⟩
      rcases Nat.lt_succ_iff_lt_or_eq.mp h with hlt | rfl
      · exact Or.inl ⟨i, hlt, hbit⟩
      · exact Or.inr hbit

theorem gather_eq_zero_iff (word : (i : Nat) → i < n → BitVec w) :
    gather word = 0#w ↔ ∀ i (h : i < n), word i h = 0#w := by
  constructor
  · intro hzero i h
    apply BitVec.eq_of_getLsbD_eq
    intro j _
    have hbit := getLsbD_gather word j
    rw [hzero] at hbit
    simp only [BitVec.getLsbD_zero, Bool.false_eq_true, false_iff, not_exists, Bool.not_eq_true] at hbit ⊢
    exact hbit i h
  · intro hword
    apply BitVec.eq_of_getLsbD_eq
    intro j _
    rw [BitVec.getLsbD_zero, ← Bool.not_eq_true, getLsbD_gather]
    rintro ⟨i, h, hbit⟩
    simp [hword] at hbit

/-! ## Rows -/

theorem rowsEqual_eq_ofBool (xs ys : Vector (BitVec w) n) : rowsEqual xs ys = ofBool (xs == ys) := by
  unfold rowsEqual
  rw [isZero_eq, Mask.isZero_eq]
  congr 1
  rw [Bool.eq_iff_iff, beq_iff_eq, beq_iff_eq, gather_eq_zero_iff, Vector.ext_iff]
  simp [cut_xor]

theorem rowsEqual_eq (xs ys : Vector (BitVec w) n) : rowsEqual xs ys = Mask.rowsEqual xs.toList ys.toList := by
  rw [rowsEqual_eq_ofBool, Mask.rowsEqual_eq (by simp)]
  simp

theorem rowsDiffer_eq (xs ys : Vector (BitVec w) n) : rowsDiffer xs ys = Mask.rowsDiffer xs.toList ys.toList := by
  unfold rowsDiffer Mask.rowsDiffer
  rw [not_eq, rowsEqual_eq]

theorem allZero_eq_ofBool (xs : Vector (BitVec w) n) : allZero xs = ofBool (xs.toList.all (· == 0#w)) := by
  unfold allZero
  rw [isZero_eq, Mask.isZero_eq]
  congr 1
  rw [Bool.eq_iff_iff, beq_iff_eq, gather_eq_zero_iff]
  simp

theorem allZero_eq (xs : Vector (BitVec w) n) : allZero xs = Mask.allZero xs.toList := by
  rw [allZero_eq_ofBool, Mask.allZero_eq]

/-! ## Byte strings -/

theorem bytesEqual_eq (x y : Bytes) : bytesEqual x y = x.constantTimeEqual y := by
  unfold bytesEqual Bytes.constantTimeEqual
  split
  · next h => simp [toBool_eq, rowsEqual_eq, rowOf, h]
  · next h => simp [h]

end Register

/-! ## What comparing decides -/

/-- What comparing two rows of one length tells of them. -/
structure RowsCompared (xs ys : Vector (BitVec w) n) : Prop where
  equal : (Register.rowsEqual xs ys).Decides (∀ i (h : i < n), xs[i] = ys[i])
  differ : (Register.rowsDiffer xs ys).Decides (∃ i, ∃ h : i < n, xs[i] ≠ ys[i])
  complement : (Register.rowsDiffer xs ys).value = ~~~(Register.rowsEqual xs ys).value
  zero : (Register.allZero xs).Decides (∀ i (h : i < n), xs[i] = 0#w)
  zero_of_empty : n = 0 → (Register.allZero xs).value = BitVec.allOnes w
  /-- One bit in which they differ is enough, at any place and in any bit. -/
  of_bit : ∀ {i j} (h : i < n), xs[i].getLsbD j ≠ ys[i].getLsbD j → (Register.rowsEqual xs ys).value = 0#w
  /-- It makes no difference to go through the rows place by place and to compute in registers. -/
  equal_eq : Register.rowsEqual xs ys = rowsEqual xs.toList ys.toList
  differ_eq : Register.rowsDiffer xs ys = rowsDiffer xs.toList ys.toList
  zero_eq : Register.allZero xs = allZero xs.toList

/-- What comparing two byte strings tells of them. -/
structure BytesCompared (x y : Bytes) : Prop where
  equal_iff : x.constantTimeEqual y = true ↔
    x.length = y.length ∧ ∀ i (hx : i < x.length) (hy : i < y.length), x[i] = y[i]
  /-- One bit in which they differ is enough. -/
  of_bit : ∀ {i j} (hx : i < x.length) (hy : i < y.length),
    x[i].toBitVec.getLsbD j ≠ y[i].toBitVec.getLsbD j → x.constantTimeEqual y = false
  register_eq : Register.bytesEqual x y = x.constantTimeEqual y

theorem rowsCompared (hw : 0 < w) (xs ys : Vector (BitVec w) n) : RowsCompared xs ys := by
  have hequal : (Register.rowsEqual xs ys).Decides (∀ i (h : i < n), xs[i] = ys[i]) := by
    rw [Register.rowsEqual_eq_ofBool]
    exact decides_ofBool hw (by rw [beq_iff_eq, Vector.ext_iff])
  have hdiffer : Register.rowsDiffer xs ys = ofBool (xs != ys) := by
    unfold Register.rowsDiffer
    rw [Register.not_eq, Register.rowsEqual_eq_ofBool, not_ofBool, bne]
  have hzero : (Register.allZero xs).Decides (∀ i (h : i < n), xs[i] = 0#w) := by
    rw [Register.allZero_eq_ofBool]
    exact decides_ofBool hw (by simp)
  constructor
  case equal => exact hequal
  case differ =>
    rw [hdiffer]
    exact decides_ofBool hw (by simp [Vector.ext_iff])
  case complement => rw [Register.rowsDiffer, Register.not_eq, not]
  case zero => exact hzero
  case zero_of_empty =>
    rintro rfl
    exact hzero.ones_iff.mpr (by simp)
  case of_bit =>
    intro i j h hbit
    rw [hequal.zeros_iff]
    intro hall
    exact hbit (by rw [hall i h])
  case equal_eq => exact Register.rowsEqual_eq xs ys
  case differ_eq => exact Register.rowsDiffer_eq xs ys
  case zero_eq => exact Register.allZero_eq xs

theorem bytesCompared (x y : Bytes) : BytesCompared x y := by
  constructor
  case equal_iff => rw [Bytes.constantTimeEqual_eq_true_iff, List.ext_getElem_iff]
  case of_bit =>
    intro i j hx hy hbit
    rw [← Bool.not_eq_true, Bytes.constantTimeEqual_eq_true_iff]
    rintro rfl
    exact hbit rfl
  case register_eq => exact Register.bytesEqual_eq x y

/-- **Comparing without branching is exact**: at every width and every length the masks of two rows say whether the
rows are equal, differ, or are zero, and byte strings of any sizes compare as equal if and only if they are, which makes
it an equivalence. -/
theorem comparisons_exact (hw : 0 < w) :
    (∀ {n : Nat} (xs ys : Vector (BitVec w) n), RowsCompared xs ys) ∧ (∀ x y : Bytes, BytesCompared x y) ∧
      Equivalence fun x y : Bytes => x.constantTimeEqual y = true := by
  refine ⟨rowsCompared hw, bytesCompared, ?_⟩
  simp only [Bytes.constantTimeEqual_eq_true_iff]
  exact ⟨fun _ => rfl, Eq.symm, Eq.trans⟩

/-- Words of 16 bits that differ in the top bit of the first of three, and byte strings one of which is the front of the
other. -/
theorem comparisons_exact_top_bit : 0 < 16 ∧
    (Register.rowsEqual #v[0x8001#16, 0#16, 0xFFFF#16] #v[0x0001#16, 0#16, 0xFFFF#16]).value = 0#16 ∧
      (Register.rowsDiffer #v[0x8001#16, 0#16, 0xFFFF#16] #v[0x0001#16, 0#16, 0xFFFF#16]).value = 0xFFFF#16 ∧
        (Register.allZero (#v[] : Vector (BitVec 16) 0)).value = 0xFFFF#16 ∧
          Bytes.constantTimeEqual [1, 2, 3] [1, 2, 3, 0] = false := by
  have hw : 0 < 16 := by decide
  obtain ⟨hrows, hbytes, -⟩ := comparisons_exact hw
  have h := hrows #v[0x8001#16, 0#16, 0xFFFF#16] #v[0x0001#16, 0#16, 0xFFFF#16]
  have hzero := h.of_bit (i := 0) (j := 15) (by decide) (by decide)
  refine ⟨hw, hzero, ?_, (hrows #v[] #v[]).zero_of_empty rfl, ?_⟩
  · rw [h.complement, hzero]
    rfl
  · rw [← Bool.not_eq_true, (hbytes _ _).equal_iff]
    rintro ⟨hlength, -⟩
    cases hlength

end KeyWrapping.Mask
