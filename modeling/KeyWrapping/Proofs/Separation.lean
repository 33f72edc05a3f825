import KeyWrapping.Proofs.PaddedExact

/-!
# Padding separates the wrappings

The two ways of wrapping share their passes, so each finds in the wrappings of the other the very register that was
wrapped there (`Padded.content_wrapping`, `Unpadded.unwrap_wrapRegister`). What keeps them apart is the integrity value:
the upper half that a padded wrapping states is another one without padding (`statedConstant_ne`,
`integrity_register_ne`). Only a wrapping of a single block has no register of the other kind, and its length gives it
away. So neither unwraps what the other has wrapped (`padding_separates`).
-/

namespace KeyWrapping

/-! ## Integrity values -/

/-- Without padding, the integrity value states a constant that is not the one for padding. -/
theorem statedConstant_ne (key : Bytes) : Padded.statedConstant (Unpadded.register key) ≠ Padded.constant.toNat := by
  have h : Padded.statedConstant (Unpadded.register key) = Unpadded.integrity.toNat / 2 ^ 32 := rfl
  rw [h]
  decide

/-- With padding, the integrity value is never the one without. -/
theorem integrity_register_ne {key : Bytes} (h : key.length ≤ max32) :
    (Padded.register key).integrity ≠ Unpadded.integrity := by
  intro he
  have hconst : Padded.statedConstant (Padded.register key) = Padded.constant.toNat :=
    ((Padded.eq_integrity_iff (r := Padded.register key) h).mp rfl).1
  exact statedConstant_ne [] ((congrArg (fun a : Semiblock => a.toNat / 2 ^ 32) he).symm.trans hconst)

/-! ## What one finds in the wrappings of the other -/

variable {a : Algorithm} {c : Cipher a} {p : Permutation 16}

/-- A padded wrapping of more than one block contains the register that was wrapped without padding. -/
theorem Padded.content_wrapping (hp : p.Inverse) {r : Register} (h : r.data.length ≠ 1) :
    content p (r.wrap p).toBytes = r := by
  rw [content, Register.ofBytes_toBytes, unwrapRegister_of_length_ne_one p (by rwa [Register.length_data_wrap]),
    Register.unwrap_wrap hp]

/-- The passes take back the padded wrapping of more than one block. -/
theorem Unpadded.unwrap_wrapRegister (hp : p.Inverse) {r : Register} (h : r.data.length ≠ 1) :
    Register.unwrap p (.ofBytes (Padded.wrapRegister p r)) = r := by
  rw [Padded.wrapRegister_of_length_ne_one p h, Register.ofBytes_toBytes, Register.unwrap_wrap hp]

/-- What was wrapped without padding is a forgery with padding. -/
theorem Padded.unwrap_wrap_unpadded (hc : c.Keyed128 p) (hp : p.Inverse) {key wrapped : Bytes}
    (h : Unpadded.wrap c key = .ok wrapped) : unwrap c wrapped = .error (.invalidTag "NIST key unwrap failed") := by
  rw [Unpadded.wrap_eq hc] at h
  split at h
  · next hl =>
    obtain ⟨h16, h8, hmax⟩ := hl
    cases h
    have hdata : (Unpadded.register key).data.length = key.length / 8 := Unpadded.length_data_register key
    have hlen : (Register.wrap p (Unpadded.register key)).toBytes.length = key.length + 8 := by
      rw [Register.length_toBytes, Register.length_data_wrap, hdata]
      omega
    rw [max32] at hmax
    apply unwrap_of_not_wellFormed hc (by omega) (by omega) (by omega)
    rw [content_wrapping hp (by omega)]
    intro hwell
    exact statedConstant_ne key hwell.constant
  · cases h

/-- What was wrapped with padding is a forgery without, or too short if it is a single block. -/
theorem Unpadded.unwrap_wrap_padded (hc : c.Keyed128 p) (hp : p.Inverse) {key wrapped : Bytes}
    (h : Padded.wrap c key = .ok wrapped) :
    unwrap c wrapped =
      .error (if 8 < key.length then .invalidTag "NIST key unwrap failed"
        else .invalidDataLength "NIST key unwrap" 16) := by
  have hlen := Padded.length_of_wrap_eq_ok hc h
  obtain ⟨⟨h1, hmax⟩, rfl⟩ := (Padded.wrap_eq_ok_iff hc).mp h
  rw [unwrap_eq hc (by omega)]
  by_cases h8 : 8 < key.length
  · have hdata := Padded.length_data_register key
    rw [if_pos (by omega), if_pos h8, unwrap_wrapRegister hp (by omega), if_neg (integrity_register_ne hmax)]
  · have hblock : (Padded.wrapRegister p (Padded.register key)).length = 16 := by omega
    rw [if_neg h8, hblock, if_neg (by decide)]

/-! ## Separation -/

/-- **Padding separates the wrappings**: under one cipher, every key that can be wrapped without padding has a wrapping
that is refused with padding, every key that can be wrapped with padding has one that is refused without, and nothing is
a wrapping of both kinds. -/
theorem padding_separates (hc : c.Keyed128 p) (hp : p.Inverse) :
    (∀ key : Bytes, 16 ≤ key.length → key.length % 8 = 0 → key.length / 8 ≤ max32 →
      ∃ wrapped, Unpadded.wrap c key = .ok wrapped ∧
        Padded.unwrap c wrapped = .error (.invalidTag "NIST key unwrap failed")) ∧
    (∀ key : Bytes, 1 ≤ key.length → key.length ≤ 2 ^ 32 - 1 →
      ∃ wrapped, Padded.wrap c key = .ok wrapped ∧
        Unpadded.unwrap c wrapped =
          .error (if 8 < key.length then .invalidTag "NIST key unwrap failed"
            else .invalidDataLength "NIST key unwrap" 16)) ∧
    ∀ key key' wrapped : Bytes, Unpadded.wrap c key = .ok wrapped → Padded.wrap c key' ≠ .ok wrapped := by
  refine ⟨?_, ?_, ?_⟩
  · intro key h16 h8 hmax
    have hw := Unpadded.wrap_eq hc key
    rw [if_pos ⟨h16, h8, hmax⟩] at hw
    exact ⟨_, hw, Padded.unwrap_wrap_unpadded hc hp hw⟩
  · intro key h1 hmax
    have hw := (Padded.wrap_eq_ok_iff hc).mpr ⟨⟨h1, hmax⟩, rfl⟩
    exact ⟨_, hw, Unpadded.unwrap_wrap_padded hc hp hw⟩
  · intro key key' wrapped h h'
    -- with padding, the wrapping would be refused and opened
    have hu := Padded.unwrap_wrapped hc hp h'
    rw [Padded.unwrap_wrap_unpadded hc hp h] at hu
    cases hu

/-- Under BelT with the key of 32 zero bytes, two semiblocks that are wrapped without padding are refused with it;
without it, a padded key of 9 bytes is refused as a forgery, and one of 8 bytes for its length. -/
theorem padding_separates_belt :
    (Belt.keyed (.zeros 32)).Keyed128 (Belt.permutation (Belt.expand (.zeros 32))) ∧
      (Belt.permutation (Belt.expand (.zeros 32))).Inverse ∧
      (∃ wrapped, Unpadded.wrap (Belt.keyed (.zeros 32)) (.zeros 16) = .ok wrapped ∧
        Padded.unwrap (Belt.keyed (.zeros 32)) wrapped = .error (.invalidTag "NIST key unwrap failed")) ∧
      (∃ wrapped, Padded.wrap (Belt.keyed (.zeros 32)) (.zeros 9) = .ok wrapped ∧
        Unpadded.unwrap (Belt.keyed (.zeros 32)) wrapped = .error (.invalidTag "NIST key unwrap failed")) ∧
      ∃ wrapped, Padded.wrap (Belt.keyed (.zeros 32)) (.zeros 8) = .ok wrapped ∧
        Unpadded.unwrap (Belt.keyed (.zeros 32)) wrapped = .error (.invalidDataLength "NIST key unwrap" 16) := by
  have hc := Belt.keyed128_keyed (.zeros 32)
  have hp := Belt.permutation_inverse (Belt.expand (.zeros 32))
  obtain ⟨hunpadded, hpadded, -⟩ := padding_separates hc hp
  exact ⟨hc, hp, hunpadded (.zeros 16) (by decide) (by decide) (by decide), hpadded (.zeros 9) (by decide) (by decide),
    hpadded (.zeros 8) (by decide) (by decide)⟩

end KeyWrapping
