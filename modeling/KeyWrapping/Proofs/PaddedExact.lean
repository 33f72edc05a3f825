import KeyWrapping.Proofs.PaddedContent
import KeyWrapping.Proofs.UnpaddedExact

/-!
# Wrapping with padding is exact

A register is wrapped in one block or by the passes, and unwrapping takes back what wrapping did in either case
(`unwrapRegister_wrapRegister`, `wrapRegister_unwrapRegister`). Under a keyed cipher of 128-bit blocks, wrapping is
decided by the length of the key and the room for the result, and unwrapping by the length of the input, its content,
and the room (`wrapWithin_eq`, `unwrapWithin_eq`). As well-formed contents are those of keys, unwrapping accepts the
wrappings and nothing else (`unwrap_wrapped`, `wrap_of_wellFormed`), and no key has the wrapping of another.
-/

namespace KeyWrapping.Padded

variable {a : Algorithm} {c : Cipher a} {p : Permutation 16}

/-! ## One block or passes -/

theorem wrapRegister_single (p : Permutation 16) (a s : Semiblock) :
    wrapRegister p ⟨a, [s]⟩ = (p.encrypt (Semiblock.join a s)).toList := rfl

theorem unwrapRegister_single (p : Permutation 16) (a s : Semiblock) :
    unwrapRegister p ⟨a, [s]⟩ =
      ⟨(Semiblock.split (p.decrypt (Semiblock.join a s))).1,
        [(Semiblock.split (p.decrypt (Semiblock.join a s))).2]⟩ := rfl

theorem wrapRegister_of_length_ne_one (p : Permutation 16) {r : Register} (h : r.data.length ≠ 1) :
    wrapRegister p r = (r.wrap p).toBytes := by
  unfold wrapRegister
  split
  · next s hs => exact absurd (by rw [hs]; rfl) h
  · rfl

theorem unwrapRegister_of_length_ne_one (p : Permutation 16) {r : Register} (h : r.data.length ≠ 1) :
    unwrapRegister p r = r.unwrap p := by
  unfold unwrapRegister
  split
  · next s hs => exact absurd (by rw [hs]; rfl) h
  · rfl

theorem exists_eq_single {r : Register} (h : r.data.length = 1) : ∃ a s, r = ⟨a, [s]⟩ := by
  obtain ⟨a, data⟩ := r
  obtain ⟨s, rfl⟩ := List.length_eq_one_iff.mp h
  exact ⟨a, s, rfl⟩

/-- The register that a single block stands for. -/
theorem ofBytes_block (b : Block 16) :
    Register.ofBytes b.toList = ⟨(Semiblock.split b).1, [(Semiblock.split b).2]⟩ := by
  have hb : b.toList = Register.toBytes ⟨(Semiblock.split b).1, [(Semiblock.split b).2]⟩ := by
    rw [← Semiblock.join_split b, Semiblock.toList_join, Semiblock.split_join]
    simp [Register.toBytes, Register.dataBytes]
  rw [hb, Register.ofBytes_toBytes]

@[simp] theorem length_data_unwrapRegister (p : Permutation 16) (r : Register) :
    (unwrapRegister p r).data.length = r.data.length := by
  by_cases h : r.data.length = 1
  · obtain ⟨a, s, rfl⟩ := exists_eq_single h
    rfl
  · rw [unwrapRegister_of_length_ne_one p h, Register.length_data_unwrap]

@[simp] theorem length_wrapRegister (p : Permutation 16) (r : Register) :
    (wrapRegister p r).length = 8 * r.data.length + 8 := by
  by_cases h : r.data.length = 1
  · obtain ⟨a, s, rfl⟩ := exists_eq_single h
    simp [wrapRegister_single]
  · rw [wrapRegister_of_length_ne_one p h, Register.length_toBytes, Register.length_data_wrap]

theorem unwrapRegister_wrapRegister (hp : p.Inverse) (r : Register) :
    unwrapRegister p (.ofBytes (wrapRegister p r)) = r := by
  by_cases h : r.data.length = 1
  · obtain ⟨a, s, rfl⟩ := exists_eq_single h
    rw [wrapRegister_single, ofBytes_block, unwrapRegister_single, Semiblock.join_split, hp.decrypt_encrypt,
      Semiblock.split_join]
  · rw [wrapRegister_of_length_ne_one p h, Register.ofBytes_toBytes,
      unwrapRegister_of_length_ne_one p (by simpa using h), Register.unwrap_wrap hp]

theorem wrapRegister_unwrapRegister (hp : p.Inverse) (r : Register) :
    wrapRegister p (unwrapRegister p r) = r.toBytes := by
  by_cases h : r.data.length = 1
  · obtain ⟨a, s, rfl⟩ := exists_eq_single h
    rw [unwrapRegister_single, wrapRegister_single, Semiblock.join_split, hp.encrypt_decrypt, Semiblock.toList_join]
    simp [Register.toBytes, Register.dataBytes]
  · rw [unwrapRegister_of_length_ne_one p h, wrapRegister_of_length_ne_one p (by simpa using h),
      Register.wrap_unwrap hp]

/-! ## What decides the result -/

/-- Wrapping is decided by the length of the key and the room for the result. -/
theorem wrapWithin_eq (hc : c.Keyed128 p) (key : Bytes) (space : Nat) :
    wrapWithin c key space =
      if 0 < key.length ∧ key.length ≤ max32 then
        if key.length + paddingLength key.length + 8 ≤ space then .ok (wrapRegister p (register key))
        else .error (.bufferTooSmall "NIST key wrap" (key.length + paddingLength key.length + 8) space)
      else .error (.invalidDataLength "NIST key wrap with padding" key.length) := by
  rw [wrapWithin, Algorithm.ensure128_of_eq hc.blockSize]
  simp only [ensureSpace, ensure_bind, hc.permutation, Bool.and_eq_true, decide_eq_true_iff]
  rfl

/-- What an input turns out to contain. -/
def content (p : Permutation 16) (wrapped : Bytes) : Register := unwrapRegister p (.ofBytes wrapped)

/-- Unwrapping is decided by the length of the input, its content, and the room for the result. -/
theorem unwrapWithin_eq (hc : c.Keyed128 p) (wrapped : Bytes) (space : Nat) :
    unwrapWithin c wrapped space =
      if 16 ≤ wrapped.length ∧ wrapped.length % 8 = 0 then
        if (isAuthentic (content p wrapped).integrity.toBitVec (content p wrapped).dataBytes).toBool = true then
          if stated (content p wrapped) ≤ space then
            .ok ((content p wrapped).dataBytes.take (stated (content p wrapped)))
          else .error (.bufferTooSmall "NIST key unwrap with padding" (stated (content p wrapped)) space)
        else .error (.invalidTag "NIST key unwrap failed")
      else .error (.invalidDataLength "NIST key unwrap with padding" wrapped.length) := by
  rw [unwrapWithin, Algorithm.ensure128_of_eq hc.blockSize]
  simp only [ensureSpace, ensure_bind, hc.permutation, ok_bind, toNat_statedLength, Bool.and_eq_true,
    decide_eq_true_iff, beq_iff_eq]
  rfl

theorem toNat_wrappedLength {n : Nat} (h : n ≤ max32) :
    (wrappedLength n.toUInt64).toNat = n + paddingLength n + 8 := by
  rw [max32] at h
  have hn : n.toUInt64.toNat = n := Unpadded.toNat_toUInt64 (by omega)
  have h8 : (8 : UInt64).toNat = 8 := rfl
  have hlt : n.toUInt64 % 8 ≤ 8 := by
    rw [UInt64.le_iff_toNat_le, UInt64.toNat_mod, h8]
    omega
  rw [wrappedLength, UInt64.toNat_add, UInt64.toNat_add, UInt64.toNat_mod, UInt64.toNat_sub_of_le _ _ hlt,
    UInt64.toNat_mod, hn, h8, paddingLength]
  omega

theorem length_data_register (key : Bytes) : (register key).data.length = (key.length + 7) / 8 := by
  have h : 8 * (register key).data.length = key.length + paddingLength key.length := by
    rw [← Register.length_dataBytes, dataBytes_register, List.length_append, Bytes.length_zeros]
  rw [length_padded] at h
  omega

/-- The wrapping of a key, or the complaint about its length. -/
theorem wrap_eq (hc : c.Keyed128 p) (key : Bytes) :
    wrap c key =
      if 0 < key.length ∧ key.length ≤ max32 then .ok (wrapRegister p (register key))
      else .error (.invalidDataLength "NIST key wrap with padding" key.length) := by
  by_cases hl : 0 < key.length ∧ key.length ≤ max32
  · have hw : wrapWithin c key (key.length + paddingLength key.length + 8) = .ok (wrapRegister p (register key)) := by
      rw [wrapWithin_eq hc, if_pos hl, if_pos (Nat.le_refl _)]
    rw [if_pos hl, wrap, wrapInto, toNat_wrappedLength hl.2, Delivery.whole_filled (wrapWithin c key), hw]
    intro bytes hb
    rw [← Except.ok.inj (hw.symm.trans hb), length_wrapRegister, length_data_register, length_padded]
  · rw [if_neg hl, wrap, wrapInto, wrapWithin_eq hc, if_neg hl]
    rfl

section Unwrap

variable {wrapped : Bytes}

theorem length_dataBytes_content (p : Permutation 16) (h8 : wrapped.length % 8 = 0) :
    (content p wrapped).dataBytes.length = wrapped.length - 8 := by
  rw [content, Register.length_dataBytes, length_data_unwrapRegister, Register.length_data_ofBytes]
  omega

theorem data_content_ne_nil (p : Permutation 16) (h16 : 16 ≤ wrapped.length) : (content p wrapped).data ≠ [] := by
  apply List.ne_nil_of_length_pos
  rw [content, length_data_unwrapRegister, Register.length_data_ofBytes]
  omega

theorem unwrap_eq (c : Cipher a) (h64 : wrapped.length < 2 ^ 64) :
    unwrap c wrapped = unwrapWithin c wrapped (wrapped.length - 8) := by
  rw [unwrap, unwrapInto, Delivery.bytes_ofResult, Bytes.length_zeros, Unpadded.toNat_unwrappedLength h64]

/-- An input of a length that no wrapping has is refused for it. -/
theorem unwrap_of_badLength (hc : c.Keyed128 p) (h64 : wrapped.length < 2 ^ 64)
    (h : ¬ (16 ≤ wrapped.length ∧ wrapped.length % 8 = 0)) :
    unwrap c wrapped = .error (.invalidDataLength "NIST key unwrap with padding" wrapped.length) := by
  rw [unwrap_eq c h64, unwrapWithin_eq hc, if_neg h]

variable (hc : c.Keyed128 p) (h64 : wrapped.length < 2 ^ 64) (h16 : 16 ≤ wrapped.length) (h8 : wrapped.length % 8 = 0)
include hc h64 h16 h8

/-- An input with a well-formed content gives the key that the content states. -/
theorem unwrap_of_wellFormed (h : WellFormed (content p wrapped)) :
    unwrap c wrapped = .ok ((content p wrapped).dataBytes.take (stated (content p wrapped))) := by
  have hl := length_dataBytes_content p h8
  have hauth := (isAuthentic_eq_true_iff (data_content_ne_nil p h16) (by omega)).mpr h
  have hs : stated (content p wrapped) ≤ wrapped.length - 8 := hl ▸ h.upper
  rw [unwrap_eq c h64, unwrapWithin_eq hc, if_pos ⟨h16, h8⟩, if_pos hauth, if_pos hs]

/-- An input with any other content is refused as a forgery. -/
theorem unwrap_of_not_wellFormed (h : ¬ WellFormed (content p wrapped)) :
    unwrap c wrapped = .error (.invalidTag "NIST key unwrap failed") := by
  have hl := length_dataBytes_content p h8
  have hauth := mt (isAuthentic_eq_true_iff (data_content_ne_nil p h16) (by omega)).mp h
  rw [unwrap_eq c h64, unwrapWithin_eq hc, if_pos ⟨h16, h8⟩, if_neg hauth]

end Unwrap

/-! ## Exactness -/

/-- Wrapping with padding under a cipher, as a scheme. -/
def scheme (c : Cipher a) : Scheme where
  wrap := wrap c
  unwrap := unwrap c
  IsKeyLength n := 1 ≤ n ∧ n ≤ 2 ^ 32 - 1
  IsWrappedLength n := 16 ≤ n ∧ n % 8 = 0
  wrappedLength n := 8 * ((n + 7) / 8) + 8
  forgery := .invalidTag "NIST key unwrap failed"
  badLength n := .invalidDataLength "NIST key unwrap with padding" n

/-- A key has a wrapping if and only if its length is right, and then this is what its register is wrapped in. -/
theorem wrap_eq_ok_iff (hc : c.Keyed128 p) {key wrapped : Bytes} :
    wrap c key = .ok wrapped ↔
      (1 ≤ key.length ∧ key.length ≤ 2 ^ 32 - 1) ∧ wrapRegister p (register key) = wrapped := by
  rw [wrap_eq hc]
  constructor
  · intro h
    split at h
    · next hl => exact ⟨hl, Except.ok.inj h⟩
    · simp at h
  · rintro ⟨hl, rfl⟩
    exact if_pos hl

theorem length_of_wrap_eq_ok (hc : c.Keyed128 p) {key wrapped : Bytes} (h : wrap c key = .ok wrapped) :
    wrapped.length = 8 * ((key.length + 7) / 8) + 8 := by
  obtain ⟨-, rfl⟩ := (wrap_eq_ok_iff hc).mp h
  rw [length_wrapRegister, length_data_register]

/-- A key that has a wrapping comes out of it. -/
theorem unwrap_wrapped (hc : c.Keyed128 p) (hp : p.Inverse) {key wrapped : Bytes} (h : wrap c key = .ok wrapped) :
    unwrap c wrapped = .ok key := by
  have hlen := length_of_wrap_eq_ok hc h
  obtain ⟨⟨h1, hmax⟩, rfl⟩ := (wrap_eq_ok_iff hc).mp h
  have hr : content p (wrapRegister p (register key)) = register key := unwrapRegister_wrapRegister hp _
  have hw : WellFormed (content p (wrapRegister p (register key))) := by
    rw [hr]
    exact wellFormed_register h1 hmax
  rw [unwrap_of_wellFormed hc (by omega) (by omega) (by omega) hw, hr, take_stated_register hmax]

/-- An input with a well-formed content is the wrapping of the key that the content states. -/
theorem wrap_of_wellFormed (hc : c.Keyed128 p) (hp : p.Inverse) {wrapped : Bytes} (h16 : 16 ≤ wrapped.length)
    (h8 : wrapped.length % 8 = 0) (h : WellFormed (content p wrapped)) :
    wrap c ((content p wrapped).dataBytes.take (stated (content p wrapped))) = .ok wrapped := by
  obtain ⟨key, h0, hmax, hkey⟩ := wellFormed_iff_exists_register.mp h
  rw [← hkey, take_stated_register hmax]
  refine (wrap_eq_ok_iff hc).mpr ⟨⟨h0, hmax⟩, ?_⟩
  rw [hkey, content, wrapRegister_unwrapRegister hp,
    Register.toBytes_ofBytes (Nat.dvd_of_mod_eq_zero h8) (List.ne_nil_of_length_pos (by omega))]

/-- **Unwrapping is exactly the partial inverse of wrapping, and the encoding is canonical**: no input is accepted whose
content has a wrong constant, states no length or one that does not fit the data, or has padding other than zeros, and
appending zeros to a key changes its wrapping. -/
theorem scheme_exact_and_canonical (hc : c.Keyed128 p) (hp : p.Inverse) :
    (scheme c).Exact (fun n => n < 2 ^ 64) ∧
      (∀ wrapped : Bytes, 16 ≤ wrapped.length → wrapped.length < 2 ^ 64 → wrapped.length % 8 = 0 →
        statedConstant (content p wrapped) ≠ constant.toNat ∨ stated (content p wrapped) = 0 ∨
          stated (content p wrapped) ≤ wrapped.length - 8 - 8 ∨ wrapped.length - 8 < stated (content p wrapped) ∨
          (∃ b ∈ (content p wrapped).dataBytes.drop (stated (content p wrapped)), b ≠ 0) →
        unwrap c wrapped = .error (.invalidTag "NIST key unwrap failed")) ∧
      ∀ (key wrapped : Bytes) (n : Nat), 0 < n → wrap c key = .ok wrapped → wrap c (key ++ .zeros n) ≠ .ok wrapped := by
  refine ⟨Scheme.exact_of ?_ ?_ ?_ ?_, ?_, ?_⟩
  · intro key wrapped h
    exact length_of_wrap_eq_ok hc h
  · intro key hk _
    have hw : wrap c key = .ok (wrapRegister p (register key)) := (wrap_eq_ok_iff hc).mpr ⟨hk, rfl⟩
    exact ⟨_, hw, unwrap_wrapped hc hp hw⟩
  · rintro wrapped h64 ⟨h16, h8⟩
    by_cases h : WellFormed (content p wrapped)
    · have hwrap := wrap_of_wellFormed hc hp h16 h8 h
      exact Or.inl ⟨_, ((wrap_eq_ok_iff hc).mp hwrap).1, unwrap_of_wellFormed hc h64 h16 h8 h, hwrap⟩
    · exact Or.inr (unwrap_of_not_wellFormed hc h64 h16 h8 h)
  · intro wrapped h64 hl
    exact unwrap_of_badLength hc h64 hl
  · intro wrapped h16 h64 h8 hbad
    have hl := length_dataBytes_content p h8
    apply unwrap_of_not_wellFormed hc h64 h16 h8
    rintro ⟨hconst, hlow, hup, hpad⟩
    rw [hl] at hlow hup
    rcases hbad with h | h | h | h | ⟨b, hb, h⟩
    · exact h hconst
    · omega
    · omega
    · omega
    · exact h (hpad b hb)
  · intro key wrapped n hn h h'
    -- the wrapping would have to be opened in two ways
    have hu := unwrap_wrapped hc hp h
    rw [unwrap_wrapped hc hp h'] at hu
    have hlen := congrArg List.length (Except.ok.inj hu)
    rw [List.length_append, Bytes.length_zeros] at hlen
    omega

/-- Under BelT with the key of 32 zero bytes, a key of 5 bytes is wrapped in one block and one of 9 bytes by the passes,
and both come out again. -/
theorem scheme_exact_and_canonical_belt :
    (Belt.keyed (.zeros 32)).Keyed128 (Belt.permutation (Belt.expand (.zeros 32))) ∧
      (Belt.permutation (Belt.expand (.zeros 32))).Inverse ∧
      (∃ wrapped, wrap (Belt.keyed (.zeros 32)) (List.replicate 5 0xA6) = .ok wrapped ∧ wrapped.length = 16 ∧
        unwrap (Belt.keyed (.zeros 32)) wrapped = .ok (List.replicate 5 0xA6)) ∧
      ∃ wrapped, wrap (Belt.keyed (.zeros 32)) (List.replicate 9 0xA6) = .ok wrapped ∧ wrapped.length = 24 ∧
        unwrap (Belt.keyed (.zeros 32)) wrapped = .ok (List.replicate 9 0xA6) := by
  have hexact := (scheme_exact_and_canonical (Belt.keyed128_keyed (.zeros 32)) (Belt.permutation_inverse _)).1
  exact ⟨Belt.keyed128_keyed _, Belt.permutation_inverse _,
    hexact.round_trip (List.replicate 5 0xA6) (by constructor <;> decide) (by decide),
    hexact.round_trip (List.replicate 9 0xA6) (by constructor <;> decide) (by decide)⟩

end KeyWrapping.Padded
