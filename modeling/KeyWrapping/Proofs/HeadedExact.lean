import KeyWrapping.Kek.Belt
import KeyWrapping.Proofs.BeltCipher
import KeyWrapping.Proofs.Exactness
import KeyWrapping.Proofs.Masks
import KeyWrapping.Proofs.WideBlocks

/-!
# Wrapping with a header is exact and binds the header

With a keyed cipher, wrapping is decided by the length of the key and the room for the result, and unwrapping by the
length of the input, the room, and the block that the wide block transform leaves at the end (`wrapWithin_eq`,
`unwrapWithin_eq`). The transform runs backwards whatever the cipher does to blocks. So that last block is the header of
the wrapping (`opened_wrapping`), a key comes out under this header and under no other (`unwrap_wrapping`), and what has
another block at the end is the wrapping of nothing (`wrapping_opened`).
-/

namespace KeyWrapping.Headed

variable {c : Cipher Belt.algorithm} {p : Permutation 16} {header : Bytes}

/-! ## What decides the result -/

/-- The bytes of the wrapping of a key. -/
def wrapping (p : Permutation 16) (key header : Bytes) : Bytes := WideBlock.applied p .encrypt (key ++ header)

/-- The bytes of a wrapping with the transform taken back. -/
def opened (p : Permutation 16) (wrapped : Bytes) : Bytes := WideBlock.applied p .decrypt wrapped

theorem length_append_header (hh : header.length = 16) (key : Bytes) : (key ++ header).length = key.length + 16 := by
  rw [List.length_append, hh]

/-- With a keyed cipher, two or more whole blocks are transformed. -/
theorem result_run_eq (hc : c.permutation = .ok p) (direction : Direction) {bytes : Bytes} (h32 : 32 ≤ bytes.length)
    (h0 : bytes.length % 16 = 0) :
    (WideBlock.run c.permutation direction bytes).result = .ok (WideBlock.applied p direction bytes) :=
  (congrArg (fun q => (WideBlock.run q direction bytes).result) hc).trans (WideBlock.result_run_ok p h32 h0 direction)

theorem ensureHeader_eq (hh : header.length = 16) : ensureHeader header = .ok () := by
  simp [ensureHeader, headerLength, hh]

/-- Wrapping is decided by the length of the key and the room for the result. -/
theorem wrapWithin_eq (hc : c.permutation = .ok p) (hh : header.length = 16) (key : Bytes) (space : Nat) :
    wrapWithin (.ok c) key header space =
      if 16 ≤ key.length ∧ key.length % 16 = 0 then
        if key.length + 16 ≤ space then .ok (wrapping p key header)
        else .error (.bufferTooSmall "BelT-KWP" (key.length + 16) space)
      else .error (.invalidDataLength "BelT-KWP" key.length) := by
  rw [wrapWithin, ensureHeader_eq hh]
  simp only [ensureSpace, ok_bind, ensure_bind, Bool.and_eq_true, decide_eq_true_iff, beq_iff_eq]
  by_cases hl : 16 ≤ key.length ∧ key.length % 16 = 0
  · have hlen := length_append_header hh key
    have hr : (WideBlock.run c.permutation .encrypt (key ++ header)).result = .ok (wrapping p key header) :=
      result_run_eq hc _ (by omega) (by omega)
    rw [if_pos hl, if_pos hl, hr]
    rfl
  · rw [if_neg hl, if_neg hl]

/-- Unwrapping is decided by the length of the input, the room for the result, and the block at the end. -/
theorem unwrapWithin_eq (hc : c.permutation = .ok p) (hh : header.length = 16) (wrapped : Bytes) (space : Nat) :
    unwrapWithin (.ok c) wrapped header space =
      if 32 ≤ wrapped.length ∧ wrapped.length % 16 = 0 then
        if wrapped.length - 16 ≤ space then
          if (opened p wrapped).drop (wrapped.length - 16) = header then
            .ok ((opened p wrapped).take (wrapped.length - 16))
          else .error (.invalidTag "BelT-KWP unwrap failed")
        else .error (.bufferTooSmall "BelT-KWP" (wrapped.length - 16) space)
      else .error (.invalidDataLength "BelT-KWP" wrapped.length) := by
  rw [unwrapWithin, ensureHeader_eq hh]
  simp only [ensureSpace, ok_bind, ensure_bind, Bool.and_eq_true, decide_eq_true_iff, beq_iff_eq]
  by_cases hl : 32 ≤ wrapped.length ∧ wrapped.length % 16 = 0
  · rw [if_pos hl, if_pos hl, result_run_eq hc _ hl.1 hl.2]
    simp only [ok_bind, Bytes.constantTimeEqual_eq_true_iff]
    rfl
  · rw [if_neg hl, if_neg hl]

theorem length_wrapping (hh : header.length = 16) {key : Bytes} (h16 : 16 ≤ key.length) (h0 : key.length % 16 = 0) :
    (wrapping p key header).length = key.length + 16 := by
  have hlen := length_append_header hh key
  rw [wrapping, WideBlock.length_applied p (by omega) (by omega), hlen]

/-- What stands before the header is a block shorter than the input. -/
theorem length_take_opened {wrapped : Bytes} (h32 : 32 ≤ wrapped.length) (h0 : wrapped.length % 16 = 0) :
    ((opened p wrapped).take (wrapped.length - 16)).length = wrapped.length - 16 := by
  rw [List.length_take, opened, WideBlock.length_applied p h32 h0, Nat.min_eq_left (Nat.sub_le _ _)]

/-- The wrapping of a key, or the complaint about its length. -/
theorem wrap_eq (hc : c.permutation = .ok p) (hh : header.length = 16) (key : Bytes) :
    wrap (.ok c) key header =
      if 16 ≤ key.length ∧ key.length % 16 = 0 then .ok (wrapping p key header)
      else .error (.invalidDataLength "BelT-KWP" key.length) := by
  have hw := wrapWithin_eq hc hh key (key.length + 16)
  rw [if_pos (Nat.le_refl _)] at hw
  refine (Delivery.whole_filled (wrapWithin (.ok c) key header) id ?_).trans hw
  intro bytes hb
  rw [headerLength, hw] at hb
  split at hb
  · next hl => rw [← Except.ok.inj hb, length_wrapping hh hl.1 hl.2, headerLength]
  · simp at hb

/-- The key in a wrapping, or the complaint about the input. -/
theorem unwrap_eq (hc : c.permutation = .ok p) (hh : header.length = 16) (wrapped : Bytes) :
    unwrap (.ok c) wrapped header =
      if 32 ≤ wrapped.length ∧ wrapped.length % 16 = 0 then
        if (opened p wrapped).drop (wrapped.length - 16) = header then
          .ok ((opened p wrapped).take (wrapped.length - 16))
        else .error (.invalidTag "BelT-KWP unwrap failed")
      else .error (.invalidDataLength "BelT-KWP" wrapped.length) := by
  have hw := unwrapWithin_eq hc hh wrapped (wrapped.length - 16)
  rw [if_pos (Nat.le_refl _)] at hw
  refine (Delivery.whole_filled (unwrapWithin (.ok c) wrapped header) _ ?_).trans hw
  intro bytes hb
  rw [headerLength, hw] at hb
  split at hb
  · next hl =>
    split at hb
    · rw [← Except.ok.inj hb, length_take_opened hl.1 hl.2, headerLength]
    · simp at hb
  · simp at hb

/-! ## The transform taken back -/

section Wrapped

variable {key : Bytes} (hh : header.length = 16) (h16 : 16 ≤ key.length) (h0 : key.length % 16 = 0)
include hh h16 h0

/-- Taking back the transform brings back the key and the header. -/
theorem opened_wrapping : opened p (wrapping p key header) = key ++ header := by
  have hlen := length_append_header hh key
  rw [opened, wrapping, WideBlock.applied_decrypt_encrypt p (by omega) (by omega)]

/-- Of the wrapping under one header, the key comes out under the same header, and nothing under any other. -/
theorem unwrap_wrapping (hc : c.permutation = .ok p) {header' : Bytes} (hh' : header'.length = 16) :
    unwrap (.ok c) (wrapping p key header) header' =
      if header = header' then .ok key else .error (.invalidTag "BelT-KWP unwrap failed") := by
  have hl : (wrapping p key header).length - 16 = key.length := by rw [length_wrapping hh h16 h0, Nat.add_sub_cancel]
  rw [unwrap_eq hc hh', if_pos (by rw [length_wrapping hh h16 h0]; omega), hl, opened_wrapping hh h16 h0,
    List.drop_left, List.take_left]

end Wrapped

/-- An input with the header at the end is the wrapping of what stands before it. -/
theorem wrapping_opened {wrapped : Bytes} (h32 : 32 ≤ wrapped.length) (h0 : wrapped.length % 16 = 0)
    (hend : (opened p wrapped).drop (wrapped.length - 16) = header) :
    wrapping p ((opened p wrapped).take (wrapped.length - 16)) header = wrapped := by
  rw [wrapping, ← hend, List.take_append_drop, opened, WideBlock.applied_encrypt_decrypt p h32 h0]

end KeyWrapping.Headed

/-! ## Exactness -/

namespace KeyWrapping.BeltKek

/-- Wrapping under a key encryption key with a fixed header, as a scheme. -/
def scheme (kek : BeltKek) (header : Bytes) : Scheme where
  wrap key := Service.wrap.run (.ok kek.cipher) key header
  unwrap wrapped := Service.unwrap.run (.ok kek.cipher) wrapped header
  IsKeyLength n := n % 16 = 0 ∧ 16 ≤ n
  IsWrappedLength n := 32 ≤ n ∧ n % 16 = 0
  wrappedLength n := n + 16
  forgery := .invalidTag "BelT-KWP unwrap failed"
  badLength n := .invalidDataLength "BelT-KWP" n

/-- Every key encryption key of 32 bytes is accepted, and gives a keyed cipher. -/
theorem create_eq {kek : Bytes} (h : kek.length = 32) : create kek = .ok ⟨Belt.keyed kek⟩ := by
  have ha : Belt.algorithm.keyLengths.accepts kek.length = true := by simp [Belt.algorithm, h]
  rw [create, ha, ensure_true, ok_bind, Belt.setKey_fresh h]
  rfl

section Scheme

variable {kek : BeltKek} {p : Permutation 16} {header : Bytes}

/-- What has a wrapping, and what it is. -/
theorem wrap_eq_ok_iff (hc : kek.cipher.permutation = .ok p) (hh : header.length = 16) {key wrapped : Bytes} :
    (kek.scheme header).wrap key = .ok wrapped ↔
      (16 ≤ key.length ∧ key.length % 16 = 0) ∧ Headed.wrapping p key header = wrapped := by
  change Headed.wrap (.ok kek.cipher) key header = .ok wrapped ↔ _
  rw [Headed.wrap_eq hc hh]
  split
  · next hl => simp [hl]
  · next hl => simp [hl]

/-- Wrapping with a header is exact, for inputs of every length. -/
theorem exact_of_keyed (hc : kek.cipher.permutation = .ok p) (hh : header.length = 16) :
    (kek.scheme header).Exact (fun _ => True) := by
  apply Scheme.exact_of
  · intro key wrapped h
    obtain ⟨⟨h16, h0⟩, rfl⟩ := (wrap_eq_ok_iff hc hh).mp h
    exact Headed.length_wrapping hh h16 h0
  · rintro key ⟨h0, h16⟩ -
    refine ⟨Headed.wrapping p key header, (wrap_eq_ok_iff hc hh).mpr ⟨⟨h16, h0⟩, rfl⟩, ?_⟩
    exact (Headed.unwrap_wrapping hh h16 h0 hc hh).trans (if_pos rfl)
  · rintro wrapped - ⟨h32, h0⟩
    have hu := Headed.unwrap_eq hc hh wrapped
    rw [if_pos ⟨h32, h0⟩] at hu
    by_cases hend : (Headed.opened p wrapped).drop (wrapped.length - 16) = header
    · rw [if_pos hend] at hu
      have hlen := Headed.length_take_opened (p := p) h32 h0
      have hkey : 16 ≤ wrapped.length - 16 ∧ (wrapped.length - 16) % 16 = 0 := by omega
      rw [← hlen] at hkey
      exact Or.inl ⟨_, hkey.symm, hu, (wrap_eq_ok_iff hc hh).mpr ⟨hkey, Headed.wrapping_opened h32 h0 hend⟩⟩
    · rw [if_neg hend] at hu
      exact Or.inr hu
  · intro wrapped _ hl
    exact (Headed.unwrap_eq hc hh wrapped).trans (if_neg hl)

end Scheme

/-- **Unwrapping with a header is exactly the partial inverse of wrapping, and binds the header**: the wrapping of a key
under one header is refused as a forgery under every other. -/
theorem scheme_exact_and_binding {kek : Bytes} (h : kek.length = 32) :
    ∃ k, create kek = .ok k ∧ ∀ header, header.length = 16 →
      (k.scheme header).Exact (fun _ => True) ∧
        ∀ header' key wrapped, header'.length = 16 → header' ≠ header → (k.scheme header).wrap key = .ok wrapped →
          (k.scheme header').unwrap wrapped = .error (.invalidTag "BelT-KWP unwrap failed") := by
  have hc : (Belt.keyed kek).permutation = .ok (Belt.permutation (Belt.expand kek)) := rfl
  refine ⟨⟨Belt.keyed kek⟩, create_eq h, fun header hh => ⟨exact_of_keyed hc hh, ?_⟩⟩
  intro header' key wrapped hh' hne hw
  obtain ⟨⟨h16, h0⟩, rfl⟩ := (wrap_eq_ok_iff hc hh).mp hw
  exact (Headed.unwrap_wrapping hh h16 h0 hc hh').trans (if_neg (Ne.symm hne))

/-- With the key of 32 zero bytes, a key of 16 bytes comes out of its wrapping with the header of zeros, and the
wrapping is refused with the header of ones. -/
theorem scheme_exact_and_binding_zeros :
    (Bytes.zeros 32).length = 32 ∧ (Bytes.zeros 16).length = 16 ∧ List.replicate 16 1 ≠ Bytes.zeros 16 ∧
      ∃ k wrapped, create (.zeros 32) = .ok k ∧
        (k.scheme (.zeros 16)).wrap (List.replicate 16 0xA6) = .ok wrapped ∧ wrapped.length = 32 ∧
        (k.scheme (.zeros 16)).unwrap wrapped = .ok (List.replicate 16 0xA6) ∧
        (k.scheme (List.replicate 16 1)).unwrap wrapped = .error (.invalidTag "BelT-KWP unwrap failed") := by
  have hne : List.replicate 16 1 ≠ Bytes.zeros 16 := by decide
  obtain ⟨k, hk, hall⟩ := scheme_exact_and_binding (Bytes.length_zeros 32)
  obtain ⟨hexact, hbind⟩ := hall (.zeros 16) (Bytes.length_zeros 16)
  obtain ⟨wrapped, hwrap, hlen, hunwrap⟩ :=
    hexact.round_trip (List.replicate 16 0xA6) (by constructor <;> decide) trivial
  exact ⟨Bytes.length_zeros 32, Bytes.length_zeros 16, hne, k, wrapped, hk, hwrap, hlen, hunwrap,
    hbind _ _ _ rfl hne hwrap⟩

end KeyWrapping.BeltKek
