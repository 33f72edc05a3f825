import KeyWrapping.Proofs.AesCipher
import KeyWrapping.Proofs.PaddedExact

/-!
# A refusal tells nothing about its reason

The content of an input is well formed if and only if a key is wrapped in the input (`wellFormed_content_iff`). So
unwrapping with padding into a caller's buffer does one of three things. A wrapping gives its key, or the complaint that
there is no room for it (`unwrapInto_wrapping`). Any other input of a length that wrappings have is refused as a forgery
and costs the whole buffer (`unwrapInto_forgery`); neither the reason nor the room that the caller has makes a
difference. An input of any other length is refused for its length (`unwrapInto_badLength`).
-/

namespace KeyWrapping.Padded

variable {a a' : Algorithm} {c : Cipher a} {c' : Cipher a'} {p p' : Permutation 16}

section Cases

variable (hc : c.Keyed128 p)
include hc

/-- What a well-formed content stands for is what its input is the wrapping of. -/
theorem wellFormed_content_iff (hp : p.Inverse) {wrapped : Bytes} (h16 : 16 ≤ wrapped.length)
    (h8 : wrapped.length % 8 = 0) : WellFormed (content p wrapped) ↔ ∃ key, wrap c key = .ok wrapped := by
  constructor
  · intro h
    exact ⟨_, wrap_of_wellFormed hc hp h16 h8 h⟩
  · rintro ⟨key, h⟩
    obtain ⟨⟨h1, hmax⟩, rfl⟩ := (wrap_eq_ok_iff hc).mp h
    rw [content, unwrapRegister_wrapRegister hp]
    exact wellFormed_register h1 hmax

/-- What a register that is not well formed is wrapped in is the wrapping of no key. -/
theorem wrap_ne_ok_wrapRegister (hp : p.Inverse) {r : Register} (hr : r.data ≠ []) (h : ¬ WellFormed r) (key : Bytes) :
    wrap c key ≠ .ok (wrapRegister p r) := by
  have hpos : 0 < r.data.length := List.length_pos_iff.mpr hr
  have hlen := length_wrapRegister p r
  have hcontent : content p (wrapRegister p r) = r := unwrapRegister_wrapRegister hp r
  intro hkey
  have hwell := (wellFormed_content_iff hc hp (by omega) (by omega)).mpr ⟨key, hkey⟩
  rw [hcontent] at hwell
  exact h hwell

/-- A wrapping gives its key to a caller with room for it. -/
theorem unwrapInto_wrapping (hp : p.Inverse) {key wrapped : Bytes} (h : wrap c key = .ok wrapped) (buffer : Bytes) :
    unwrapInto c wrapped buffer =
      if key.length ≤ buffer.length then ⟨.ok key.length, buffer.overwrite key⟩
      else ⟨.error (.bufferTooSmall "NIST key unwrap with padding" key.length buffer.length), buffer⟩ := by
  have hlen := length_of_wrap_eq_ok hc h
  obtain ⟨⟨h1, hmax⟩, rfl⟩ := (wrap_eq_ok_iff hc).mp h
  have h8 : (wrapRegister p (register key)).length % 8 = 0 := by omega
  have hl := length_dataBytes_content p h8
  have hauth := (isAuthentic_eq_true_iff (data_content_ne_nil p (by omega)) (by omega)).mpr
    ((wellFormed_content_iff hc hp (by omega) (by omega)).mpr ⟨key, h⟩)
  have hcontent : content p (wrapRegister p (register key)) = register key := unwrapRegister_wrapRegister hp _
  rw [unwrapInto, unwrapWithin_eq hc, if_pos (by omega), if_pos hauth, hcontent, stated_register hmax]
  by_cases hroom : key.length ≤ buffer.length
  · have hkey := take_stated_register hmax
    rw [stated_register hmax] at hkey
    rw [if_pos hroom, if_pos hroom, hkey, Delivery.ofResult_ok]
  · rw [if_neg hroom, if_neg hroom]
    rfl

/-- An input in which no key is wrapped costs the whole buffer. -/
theorem unwrapInto_forgery (hp : p.Inverse) {wrapped : Bytes} (h64 : wrapped.length < 2 ^ 64)
    (h16 : 16 ≤ wrapped.length) (h8 : wrapped.length % 8 = 0) (h : ∀ key, wrap c key ≠ .ok wrapped) (buffer : Bytes) :
    unwrapInto c wrapped buffer = ⟨.error (.invalidTag "NIST key unwrap failed"), buffer.wipe⟩ := by
  have hl := length_dataBytes_content p h8
  have hwell : ¬ WellFormed (content p wrapped) := fun hw => by
    obtain ⟨key, hkey⟩ := (wellFormed_content_iff hc hp h16 h8).mp hw
    exact h key hkey
  have hauth := mt (isAuthentic_eq_true_iff (data_content_ne_nil p h16) (by omega)).mp hwell
  rw [unwrapInto, unwrapWithin_eq hc, if_pos ⟨h16, h8⟩, if_neg hauth]
  rfl

theorem unwrapInto_badLength {wrapped : Bytes} (h : ¬ (16 ≤ wrapped.length ∧ wrapped.length % 8 = 0)) (buffer : Bytes) :
    unwrapInto c wrapped buffer =
      ⟨.error (.invalidDataLength "NIST key unwrap with padding" wrapped.length), buffer⟩ := by
  rw [unwrapInto, unwrapWithin_eq hc, if_neg h]
  rfl

/-- Only a wrapping of a key for which there is no room is answered with a complaint about the room. -/
theorem exists_wrap_of_bufferTooSmall (hp : p.Inverse) {wrapped buffer : Bytes} (h64 : wrapped.length < 2 ^ 64)
    {algorithm : String} {required provided : Nat}
    (h : (unwrapInto c wrapped buffer).outcome = .error (.bufferTooSmall algorithm required provided)) :
    ∃ key, wrap c key = .ok wrapped ∧ key.length = required ∧ buffer.length = provided ∧ provided < required := by
  by_cases hlength : 16 ≤ wrapped.length ∧ wrapped.length % 8 = 0
  · by_cases hwrapped : ∃ key, wrap c key = .ok wrapped
    · obtain ⟨key, hkey⟩ := hwrapped
      rw [unwrapInto_wrapping hc hp hkey] at h
      split at h
      · cases h
      · next hroom =>
        cases h
        exact ⟨key, hkey, rfl, rfl, Nat.lt_of_not_le hroom⟩
    · rw [unwrapInto_forgery hc hp h64 hlength.1 hlength.2 (not_exists.mp hwrapped)] at h
      cases h
  · rw [unwrapInto_badLength hc hlength] at h
    cases h

end Cases

/-- **A refusal tells nothing about its reason**: inputs of one length in which no key is wrapped are answered alike
under all ciphers, whatever buffer the caller lends, and lose it to zeros. The room for a key, and with it the length of
the key, is only spoken of for an input that is the wrapping of a key, and every wrapping gives its key to a caller with
room. -/
theorem refusal_tells_nothing (hc : c.Keyed128 p) (hp : p.Inverse) (hc' : c'.Keyed128 p') (hp' : p'.Inverse) :
    (∀ wrapped wrapped' : Bytes, wrapped.length = wrapped'.length → wrapped.length < 2 ^ 64 → 16 ≤ wrapped.length →
      wrapped.length % 8 = 0 → (∀ key, wrap c key ≠ .ok wrapped) → (∀ key, wrap c' key ≠ .ok wrapped') →
      (∀ buffer : Bytes, unwrapInto c wrapped buffer = unwrapInto c' wrapped' buffer ∧
        unwrapInto c wrapped buffer = ⟨.error (.invalidTag "NIST key unwrap failed"), .zeros buffer.length⟩) ∧
      unwrap c wrapped = unwrap c' wrapped') ∧
    (∀ (wrapped buffer : Bytes) (algorithm : String) (required provided : Nat), wrapped.length < 2 ^ 64 →
      (unwrapInto c wrapped buffer).outcome = .error (.bufferTooSmall algorithm required provided) →
        ∃ key, wrap c key = .ok wrapped ∧ key.length = required ∧ buffer.length = provided ∧ provided < required) ∧
    ∀ key wrapped buffer : Bytes, wrap c key = .ok wrapped → key.length ≤ buffer.length →
      unwrapInto c wrapped buffer = ⟨.ok key.length, buffer.overwrite key⟩ := by
  refine ⟨?_, ?_, ?_⟩
  · intro wrapped wrapped' hlength h64 h16 h8 h h'
    have hrefused := unwrapInto_forgery hc hp h64 h16 h8 h
    have hrefused' := unwrapInto_forgery hc' hp' (hlength ▸ h64) (hlength ▸ h16) (hlength ▸ h8) h'
    refine ⟨fun buffer => ⟨?_, hrefused buffer⟩, ?_⟩
    · rw [hrefused, hrefused']
    · rw [unwrap, unwrap, hrefused, hrefused', hlength]
  · intro wrapped buffer algorithm required provided h64 h
    exact exists_wrap_of_bufferTooSmall hc hp h64 h
  · intro key wrapped buffer h hroom
    rw [unwrapInto_wrapping hc hp h, if_pos hroom]

/-- Under BelT, an input with a wrong constant, and under AES, one with the right constant and padding other than zeros,
are refused alike in a buffer of three bytes. -/
theorem refusal_tells_nothing_constant_padding :
    let p := Belt.permutation (Belt.expand (.zeros 32))
    let p' := Aes.permutation (Aes.expand (.zeros 16))
    let c := Belt.keyed (.zeros 32)
    let c' : Cipher (Aes.algorithm .bits128) := ⟨some (Aes.expand (.zeros 16))⟩
    let wrapped := wrapRegister p ⟨0, [0, 0]⟩
    let wrapped' := wrapRegister p' ⟨integrity 9, [1, 1]⟩
    c.Keyed128 p ∧ p.Inverse ∧ c'.Keyed128 p' ∧ p'.Inverse ∧
      wrapped.length = 24 ∧ wrapped'.length = 24 ∧
      (∀ key, wrap c key ≠ .ok wrapped) ∧ (∀ key, wrap c' key ≠ .ok wrapped') ∧
      unwrapInto c wrapped [1, 2, 3] = unwrapInto c' wrapped' [1, 2, 3] ∧
      unwrapInto c wrapped [1, 2, 3] = ⟨.error (.invalidTag "NIST key unwrap failed"), [0, 0, 0]⟩ := by
  intro p p' c c' wrapped wrapped'
  have hc : c.Keyed128 p := Belt.keyed128_keyed _
  have hp : p.Inverse := Belt.permutation_inverse _
  have hc' : c'.Keyed128 p' := ⟨rfl, rfl⟩
  have hp' : p'.Inverse := Aes.permutation_inverse _
  have hlen : wrapped.length = 24 := length_wrapRegister p ⟨0, [0, 0]⟩
  have hlen' : wrapped'.length = 24 := length_wrapRegister p' ⟨integrity 9, [1, 1]⟩
  have hnone : ∀ key, wrap c key ≠ .ok wrapped :=
    wrap_ne_ok_wrapRegister hc hp (List.cons_ne_nil _ _) fun h => absurd h.constant (by decide)
  have hnone' : ∀ key, wrap c' key ≠ .ok wrapped' :=
    wrap_ne_ok_wrapRegister hc' hp' (List.cons_ne_nil _ _) fun h => absurd (h.padding 1 (by decide)) (by decide)
  obtain ⟨hrefused, -⟩ := (refusal_tells_nothing hc hp hc' hp').1 wrapped wrapped' (hlen.trans hlen'.symm)
    (by rw [hlen]; decide) (by rw [hlen]; decide) (by rw [hlen]) hnone hnone'
  exact ⟨hc, hp, hc', hp', hlen, hlen', hnone, hnone', hrefused [1, 2, 3]⟩

end KeyWrapping.Padded
