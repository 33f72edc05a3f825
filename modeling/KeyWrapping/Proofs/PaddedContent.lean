import KeyWrapping.Proofs.Masks
import KeyWrapping.Proofs.Registers
import KeyWrapping.Wrap.Padded

/-!
# What a padded wrapping may contain

The integrity value of a register states a constant and a length. The content is well formed (`Padded.WellFormed`) if
the constant is right, the length needs just the padding that is there, and the padding is zero. Registers that are made
of a key are well formed, and no others are (`Padded.wellFormed_iff_exists_register`): the encoding is canonical. The
masks that unwrapping combines say exactly whether the content is well formed (`Padded.isAuthentic_eq_true_iff`).
-/

namespace KeyWrapping.Padded

/-! ## The integrity value -/

/-- The constant that a register states: the upper half of its integrity value. -/
def statedConstant (r : Register) : Nat := r.integrity.toNat / 2 ^ 32

/-- The length that a register states: the lower half of its integrity value. -/
def stated (r : Register) : Nat := r.integrity.toNat % 2 ^ 32

theorem stated_lt (r : Register) : stated r < 2 ^ 32 := Nat.mod_lt _ (by decide)

/-- The integrity value of a key holds the constant and the length side by side. -/
theorem toNat_integrity {n : Nat} (h : n ≤ max32) : (integrity n).toNat = constant.toNat * 2 ^ 32 + n := by
  rw [max32] at h
  have hn : (UInt64.ofNat n).toNat = n := by
    rw [UInt64.toNat_ofNat']
    omega
  have hc : (constant <<< 32).toNat = constant.toNat <<< 32 := by decide
  rw [integrity, UInt64.toNat_or, hn, hc, ← Nat.shiftLeft_add_eq_or_of_lt (by omega), Nat.shiftLeft_eq]

theorem eq_integrity_iff {r : Register} {n : Nat} (h : n ≤ max32) :
    r.integrity = integrity n ↔ statedConstant r = constant.toNat ∧ stated r = n := by
  rw [← UInt64.toNat_inj, toNat_integrity h, statedConstant, stated]
  rw [max32] at h
  omega

theorem toNat_statedLength (r : Register) : (statedLength r.integrity.toBitVec).toNat = stated r := by
  rw [statedLength, BitVec.toNat_and, stated, ← Nat.and_two_pow_sub_one_eq_mod]
  rfl

/-! ## Well-formed content -/

/-- The content that the wrapping of a key has. -/
structure WellFormed (r : Register) : Prop where
  /-- The constant is right. -/
  constant : statedConstant r = constant.toNat
  /-- The length leaves less than a semiblock for padding. -/
  lower : r.dataBytes.length - 8 < stated r
  /-- The length is not greater than that of the data. -/
  upper : stated r ≤ r.dataBytes.length
  /-- What is behind the key is zero. -/
  padding : ∀ b ∈ r.dataBytes.drop (stated r), b = 0

theorem length_padded (n : Nat) : n + paddingLength n = 8 * ((n + 7) / 8) := by
  rw [paddingLength]
  omega

/-- The data of a key's register is the key and its padding. -/
theorem dataBytes_register (key : Bytes) :
    (register key).dataBytes = key ++ .zeros (paddingLength key.length) := by
  apply Semiblock.flatMap_toBytes_ofBytes
  rw [List.length_append, Bytes.length_zeros, length_padded]
  exact Nat.dvd_mul_right 8 _

theorem stated_register {key : Bytes} (h : key.length ≤ max32) : stated (register key) = key.length :=
  ((eq_integrity_iff (r := register key) h).mp rfl).2

/-- The key comes back from the data of its register, cut off where the integrity value says. -/
theorem take_stated_register {key : Bytes} (h : key.length ≤ max32) :
    (register key).dataBytes.take (stated (register key)) = key := by
  rw [dataBytes_register, stated_register h, List.take_left]

theorem wellFormed_register {key : Bytes} (h0 : 0 < key.length) (h : key.length ≤ max32) :
    WellFormed (register key) := by
  have hl : (register key).dataBytes.length = key.length + paddingLength key.length := by
    rw [dataBytes_register, List.length_append, Bytes.length_zeros]
  refine ⟨((eq_integrity_iff (r := register key) h).mp rfl).1, ?_, ?_, ?_⟩
  · rw [hl, stated_register h, paddingLength]
    omega
  · rw [hl, stated_register h]
    omega
  · rw [dataBytes_register, stated_register h, List.drop_left]
    intro b hb
    exact List.eq_of_mem_replicate hb

/-- A well-formed register is that of the key which it states. -/
theorem register_take_stated {r : Register} (h : WellFormed r) : register (r.dataBytes.take (stated r)) = r := by
  have hlt := stated_lt r
  have hl : (r.dataBytes.take (stated r)).length = stated r := List.length_take_of_le h.upper
  have hdrop : r.dataBytes.drop (stated r) = Bytes.zeros (paddingLength (stated r)) := by
    apply List.eq_replicate_iff.mpr
    refine ⟨?_, h.padding⟩
    have := h.lower
    have := h.upper
    rw [List.length_drop, paddingLength]
    rw [Register.length_dataBytes] at *
    omega
  have hi : integrity (stated r) = r.integrity :=
    ((eq_integrity_iff (by rw [max32]; omega)).mpr ⟨h.constant, rfl⟩).symm
  rw [register, hl, ← hdrop, List.take_append_drop, hi, Register.dataBytes, Semiblock.ofBytes_flatMap_toBytes]

/-- **The encoding is canonical**: the well-formed registers are those of the keys that can be wrapped. -/
theorem wellFormed_iff_exists_register {r : Register} :
    WellFormed r ↔ ∃ key, 0 < key.length ∧ key.length ≤ max32 ∧ register key = r := by
  constructor
  · intro h
    have hl : (r.dataBytes.take (stated r)).length = stated r := List.length_take_of_le h.upper
    refine ⟨_, ?_, ?_, register_take_stated h⟩
    · rw [hl]
      exact Nat.zero_lt_of_lt h.lower
    · rw [hl, max32]
      exact Nat.le_of_lt_succ (stated_lt r)
  · rintro ⟨key, h0, h, rfl⟩
    exact wellFormed_register h0 h

/-! ## What unwrapping looks at -/

/-- No padding strays from zero if and only if every byte behind the stated length is zero. -/
theorem strayPadding_eq_zero_iff {length : BitVec 64} {padded : Bytes} (h64 : padded.length < 2 ^ 64) :
    strayPadding length padded = 0#8 ↔ ∀ b ∈ padded.drop length.toNat, b = 0 := by
  -- a byte is gathered from its place on, if the length does not reach that far
  have kept {b : UInt8} {i : Nat} (hi : i < 2 ^ 64) :
      ((Mask.isAtLeast (BitVec.ofNat 64 i) length).narrow 8).keepIf b.toBitVec = 0#8 ↔ (length.toNat ≤ i → b = 0) := by
    have hle : length ≤ BitVec.ofNat 64 i ↔ length.toNat ≤ i := by
      rw [BitVec.le_def, BitVec.toNat_ofNat, Nat.mod_eq_of_lt hi]
    rw [Mask.isAtLeast_eq, Mask.narrow_ofBool (by decide), Mask.keepIf_ofBool, ← UInt8.toBitVec_inj]
    by_cases h : length.toNat ≤ i <;> simp [hle, h]
  refine (Mask.foldl_or_eq_zero_iff
    (fun x : UInt8 × Nat => ((Mask.isAtLeast (BitVec.ofNat 64 x.2) length).narrow 8).keepIf x.1.toBitVec) _ _).trans ?_
  constructor
  · rintro ⟨-, h⟩ b hb
    obtain ⟨j, hj, rfl⟩ := List.mem_drop_iff_getElem.mp hb
    have hm : (padded[length.toNat + j], length.toNat + j) ∈ padded.zipIdx := by
      rw [List.mem_zipIdx_iff_getElem?, List.getElem?_eq_getElem (by omega)]
    exact (kept (by omega)).mp (h _ hm) (Nat.le_add_right _ _)
  · intro h
    refine ⟨rfl, ?_⟩
    rintro ⟨b, i⟩ hm
    obtain ⟨hi, hb⟩ : ∃ hi : i < padded.length, padded[i] = b :=
      List.getElem?_eq_some_iff.mp (List.mem_zipIdx_iff_getElem?.mp hm)
    subst hb
    refine (kept (by omega)).mpr fun hle => h _ ?_
    exact List.mem_drop_iff_getElem.mpr ⟨i - length.toNat, by omega, by simp [Nat.add_sub_cancel' hle]⟩

/-- Unwrapping takes the content for authentic if and only if it is well formed. -/
theorem isAuthentic_eq_true_iff {r : Register} (h8 : r.data ≠ []) (h64 : r.dataBytes.length < 2 ^ 64) :
    (isAuthentic r.integrity.toBitVec r.dataBytes).toBool = true ↔ WellFormed r := by
  have hpos : 0 < r.data.length := List.length_pos_iff.mpr h8
  have hl : 8 ≤ r.dataBytes.length := by rw [Register.length_dataBytes]; omega
  have hlen : (BitVec.ofNat 64 r.dataBytes.length).toNat = r.dataBytes.length := by
    rw [BitVec.toNat_ofNat, Nat.mod_eq_of_lt h64]
  have hsub : (BitVec.ofNat 64 r.dataBytes.length - 8).toNat = r.dataBytes.length - 8 := by
    rw [BitVec.toNat_sub_of_le (by rw [BitVec.le_def, hlen]; exact hl), hlen]
    rfl
  have hconst : r.integrity.toBitVec >>> 32 = constant.toBitVec ↔ statedConstant r = constant.toNat := by
    rw [BitVec.toNat_eq, BitVec.toNat_ushiftRight, Nat.shiftRight_eq_div_pow]
    rfl
  have hwide (v : BitVec 8) : v.setWidth 64 = 0#64 ↔ v = 0#8 := by
    rw [BitVec.toNat_eq, BitVec.toNat_eq, BitVec.toNat_setWidth]
    simp
    omega
  simp only [isAuthentic, Mask.isEqual_eq, Mask.isGreater_eq, Mask.isAtMost_eq, Mask.isZero_eq, Mask.and_ofBool,
    Mask.toBool_ofBool (show 0 < 64 by decide), Bool.and_eq_true, beq_iff_eq, decide_eq_true_iff, BitVec.lt_def,
    BitVec.le_def, hlen, hsub, hconst, hwide, strayPadding_eq_zero_iff h64, toNat_statedLength]
  constructor
  · rintro ⟨⟨⟨h1, h2⟩, h3⟩, h4⟩
    exact ⟨h1, h2, h3, h4⟩
  · rintro ⟨h1, h2, h3, h4⟩
    exact ⟨⟨⟨h1, h2⟩, h3⟩, h4⟩

end KeyWrapping.Padded
