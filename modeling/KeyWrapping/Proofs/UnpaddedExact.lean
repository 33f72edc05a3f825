import KeyWrapping.Proofs.BeltCipher
import KeyWrapping.Proofs.Exactness
import KeyWrapping.Proofs.Masks
import KeyWrapping.Proofs.Registers

/-!
# Wrapping without padding is exact

Under a keyed cipher of 128-bit blocks, wrapping and unwrapping are decided by the length of the input, the room for the
result, and for unwrapping the integrity value that comes out (`wrapWithin_eq`, `unwrapWithin_eq`). Since the passes
through the register are taken back exactly, a key comes out of its wrapping (`unwrap_wrapped`), and what opens is the
wrapping of what comes out (`wrap_opened`): unwrapping accepts the wrappings and nothing else.
-/

namespace KeyWrapping.Unpadded

variable {a : Algorithm} {c : Cipher a} {p : Permutation 16}

/-! ## What decides the result -/

/-- The register that a key is wrapped in. -/
def register (key : Bytes) : Register := ⟨integrity, Semiblock.ofBytes key⟩

/-- Wrapping is decided by the length of the key and the room for the result. -/
theorem wrapWithin_eq (hc : c.Keyed128 p) (key : Bytes) (space : Nat) :
    wrapWithin c key space =
      if 16 ≤ key.length ∧ key.length % 8 = 0 ∧ key.length / 8 ≤ max32 then
        if key.length + 8 ≤ space then .ok (Register.wrap p (register key)).toBytes
        else .error (.bufferTooSmall "NIST key wrap" (key.length + 8) space)
      else .error (.invalidDataLength "NIST key wrap" key.length) := by
  rw [wrapWithin, Algorithm.ensure128_of_eq hc.blockSize]
  simp only [ensureSpace, ensure_bind, hc.permutation, Bool.and_eq_true, decide_eq_true_iff, beq_iff_eq, and_assoc]
  rfl

/-- Unwrapping is decided by the length of the input, the room for the result, and the integrity value. -/
theorem unwrapWithin_eq (hc : c.Keyed128 p) (wrapped : Bytes) (space : Nat) :
    unwrapWithin c wrapped space =
      if 24 ≤ wrapped.length ∧ wrapped.length % 8 = 0 then
        if wrapped.length - 8 ≤ space then
          if (Register.unwrap p (.ofBytes wrapped)).integrity = integrity then
            .ok (Register.unwrap p (.ofBytes wrapped)).dataBytes
          else .error (.invalidTag "NIST key unwrap failed")
        else .error (.bufferTooSmall "NIST key wrap" (wrapped.length - 8) space)
      else .error (.invalidDataLength "NIST key unwrap" wrapped.length) := by
  rw [unwrapWithin, Algorithm.ensure128_of_eq hc.blockSize]
  simp only [ensureSpace, ensure_bind, hc.permutation, ok_bind, Mask.isEqual_eq,
    Mask.toBool_ofBool (show 0 < 64 by decide), Bool.and_eq_true, decide_eq_true_iff, beq_iff_eq, UInt64.toBitVec_inj]
  rfl

theorem toNat_toUInt64 {n : Nat} (h : n < 2 ^ 64) : n.toUInt64.toNat = n := by
  rw [Nat.toUInt64, UInt64.toNat_ofNat', Nat.mod_eq_of_lt h]

theorem toNat_wrappedLength {n : Nat} (h : n + 8 < 2 ^ 64) : (wrappedLength n.toUInt64).toNat = n + 8 := by
  simp [wrappedLength, Nat.toUInt64]
  omega

theorem toNat_unwrappedLength {n : Nat} (h : n < 2 ^ 64) : (unwrappedLength n.toUInt64).toNat = n - 8 := by
  have hn := toNat_toUInt64 h
  have h8 : (8 : UInt64).toNat = 8 := rfl
  rw [unwrappedLength]
  split
  · next hlt =>
    rw [UInt64.lt_iff_toNat_lt, hn, h8] at hlt
    simp
    omega
  · next hge =>
    rw [UInt64.not_lt] at hge
    rw [UInt64.toNat_sub_of_le _ _ hge, hn, h8]

@[simp] theorem length_data_register (key : Bytes) : (register key).data.length = key.length / 8 :=
  Semiblock.length_ofBytes key

/-- The wrapping of a key, or the complaint about its length. -/
theorem wrap_eq (hc : c.Keyed128 p) (key : Bytes) :
    wrap c key =
      if 16 ≤ key.length ∧ key.length % 8 = 0 ∧ key.length / 8 ≤ max32 then
        .ok (Register.wrap p (register key)).toBytes
      else .error (.invalidDataLength "NIST key wrap" key.length) := by
  by_cases hl : 16 ≤ key.length ∧ key.length % 8 = 0 ∧ key.length / 8 ≤ max32
  · have hn : (wrappedLength key.length.toUInt64).toNat = key.length + 8 :=
      toNat_wrappedLength (by have := hl.2.2; rw [max32] at this; omega)
    have hw : wrapWithin c key (key.length + 8) = .ok (Register.wrap p (register key)).toBytes := by
      rw [wrapWithin_eq hc, if_pos hl, if_pos (Nat.le_refl _)]
    rw [if_pos hl, wrap, wrapInto, hn, Delivery.whole_filled (wrapWithin c key), hw]
    intro bytes hb
    rw [← Except.ok.inj (hw.symm.trans hb), Register.length_toBytes, Register.length_data_wrap, length_data_register]
    omega
  · rw [if_neg hl, wrap, wrapInto, wrapWithin_eq hc, if_neg hl]
    rfl

/-- What stands behind the integrity value is a semiblock shorter than the input. -/
theorem length_dataBytes_unwrap (p : Permutation 16) {wrapped : Bytes} (h8 : wrapped.length % 8 = 0) :
    (Register.unwrap p (.ofBytes wrapped)).dataBytes.length = wrapped.length - 8 := by
  rw [Register.length_dataBytes, Register.length_data_unwrap, Register.length_data_ofBytes]
  omega

/-- The key in a wrapping, or the complaint about the input. -/
theorem unwrap_eq (hc : c.Keyed128 p) {wrapped : Bytes} (h64 : wrapped.length < 2 ^ 64) :
    unwrap c wrapped =
      if 24 ≤ wrapped.length ∧ wrapped.length % 8 = 0 then
        if (Register.unwrap p (.ofBytes wrapped)).integrity = integrity then
          .ok (Register.unwrap p (.ofBytes wrapped)).dataBytes
        else .error (.invalidTag "NIST key unwrap failed")
      else .error (.invalidDataLength "NIST key unwrap" wrapped.length) := by
  have hw := unwrapWithin_eq hc wrapped (wrapped.length - 8)
  rw [if_pos (Nat.le_refl _)] at hw
  rw [unwrap, unwrapInto, toNat_unwrappedLength h64, Delivery.whole_filled (unwrapWithin c wrapped), hw]
  intro bytes hb
  rw [hw] at hb
  split at hb
  · next hl =>
    split at hb
    · rw [← Except.ok.inj hb, length_dataBytes_unwrap p hl.2]
    · simp at hb
  · simp at hb

/-! ## Exactness -/

/-- Wrapping without padding under a cipher, as a scheme. -/
def scheme (c : Cipher a) : Scheme where
  wrap := wrap c
  unwrap := unwrap c
  IsKeyLength n := n % 8 = 0 ∧ 16 ≤ n
  IsWrappedLength n := 24 ≤ n ∧ n % 8 = 0
  wrappedLength n := n + 8
  forgery := .invalidTag "NIST key unwrap failed"
  badLength n := .invalidDataLength "NIST key unwrap" n

theorem unwrap_wrapped (hc : c.Keyed128 p) (hp : p.Inverse) {key wrapped : Bytes} (h : wrap c key = .ok wrapped) :
    unwrap c wrapped = .ok key := by
  rw [wrap_eq hc] at h
  split at h
  · next hl =>
    cases h
    have hdata : (register key).dataBytes = key := Semiblock.flatMap_toBytes_ofBytes (Nat.dvd_of_mod_eq_zero hl.2.1)
    have hlen : (Register.wrap p (register key)).toBytes.length = key.length + 8 := by simp; omega
    rw [max32] at hl
    have hi : (register key).integrity = integrity := rfl
    rw [unwrap_eq hc (by omega), hlen, if_pos (by omega), Register.ofBytes_toBytes, Register.unwrap_wrap hp, if_pos hi,
      hdata]
  · cases h

/-- An input whose integrity value comes out right is the wrapping of the data behind it. -/
theorem wrap_opened (hc : c.Keyed128 p) (hp : p.Inverse) {wrapped : Bytes} (h24 : 24 ≤ wrapped.length)
    (h8 : wrapped.length % 8 = 0) (hlen : wrapped.length ≤ 8 * (max32 + 1))
    (hi : (Register.unwrap p (.ofBytes wrapped)).integrity = integrity) :
    wrap c (Register.unwrap p (.ofBytes wrapped)).dataBytes = .ok wrapped := by
  have hr : register (Register.unwrap p (.ofBytes wrapped)).dataBytes = Register.unwrap p (.ofBytes wrapped) := by
    rw [register, Register.dataBytes, Semiblock.ofBytes_flatMap_toBytes, ← hi]
  have hl := length_dataBytes_unwrap p h8
  have hne : wrapped ≠ [] := List.ne_nil_of_length_pos (by omega)
  rw [wrap_eq hc, if_pos (by rw [hl]; omega), hr, Register.wrap_unwrap hp,
    Register.toBytes_ofBytes (Nat.dvd_of_mod_eq_zero h8) hne]

/-- **Unwrapping is exactly the partial inverse of wrapping**, for every input up to the longest wrapping that there is.
-/
theorem scheme_exact (hc : c.Keyed128 p) (hp : p.Inverse) : (scheme c).Exact (fun n => n ≤ 8 * (max32 + 1)) := by
  apply Scheme.exact_of
  · intro key wrapped h
    change wrap c key = .ok wrapped at h
    rw [wrap_eq hc] at h
    split at h
    · next hl =>
      cases h
      simp [scheme]
      omega
    · cases h
  · rintro key ⟨h8, h16⟩ hs
    change key.length + 8 ≤ 8 * (max32 + 1) at hs
    have hw : wrap c key = .ok (Register.wrap p (register key)).toBytes := by
      rw [wrap_eq hc, if_pos ⟨h16, h8, by omega⟩]
    exact ⟨_, hw, unwrap_wrapped hc hp hw⟩
  · rintro wrapped hs ⟨h24, h8⟩
    have h64 : wrapped.length < 2 ^ 64 := by rw [max32] at hs; omega
    have hu := unwrap_eq hc h64
    rw [if_pos ⟨h24, h8⟩] at hu
    by_cases hi : (Register.unwrap p (.ofBytes wrapped)).integrity = integrity
    · rw [if_pos hi] at hu
      have hkey : (wrapped.length - 8) % 8 = 0 ∧ 16 ≤ wrapped.length - 8 := by omega
      rw [← length_dataBytes_unwrap p h8] at hkey
      exact Or.inl ⟨_, hkey, hu, wrap_opened hc hp h24 h8 hs hi⟩
    · rw [if_neg hi] at hu
      exact Or.inr hu
  · intro wrapped hs hl
    have h64 : wrapped.length < 2 ^ 64 := by rw [max32] at hs; omega
    exact (unwrap_eq hc h64).trans (if_neg hl)

/-- Under BelT with the key of 32 zero bytes, a key of 16 bytes comes out of its wrapping of 24 bytes again. -/
theorem scheme_exact_belt :
    (Belt.keyed (.zeros 32)).Keyed128 (Belt.permutation (Belt.expand (.zeros 32))) ∧
      (Belt.permutation (Belt.expand (.zeros 32))).Inverse ∧
      ∃ wrapped, wrap (Belt.keyed (.zeros 32)) (List.replicate 16 0xA6) = .ok wrapped ∧ wrapped.length = 24 ∧
        unwrap (Belt.keyed (.zeros 32)) wrapped = .ok (List.replicate 16 0xA6) :=
  ⟨Belt.keyed128_keyed _, Belt.permutation_inverse _,
    (scheme_exact (Belt.keyed128_keyed _) (Belt.permutation_inverse _)).round_trip (List.replicate 16 0xA6)
      (by constructor <;> decide) (by decide)⟩

end KeyWrapping.Unpadded
