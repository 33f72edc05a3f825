import KeyWrapping.Cipher.Belt
import KeyWrapping.Proofs.Exactness
import KeyWrapping.Proofs.Quads

/-!
# BelT runs backwards

The mixing of a round is taken back by the same mixing with the round's keys and its four words in the opposite order
(`Belt.mix_backwards`). The way the words change places turns one order into the other, so a round of decryption takes
back a round of encryption up to such a change (`Belt.decryptRound_undoes`), and the two directions of BelT undo each
other under every schedule (`Belt.permutation_inverse`).
-/

namespace KeyWrapping

namespace Belt

/-! ## One round -/

/-- The four words in the opposite order. -/
def opposite (q : Quad) : Quad := ⟨q.d, q.c, q.b, q.a⟩


@[simp] theorem backward_forward (q : Quad) : backward (forward q) = q := rfl

@[simp] theorem forward_backward (q : Quad) : forward (backward q) = q := rfl

theorem forward_forward (q : Quad) : forward (forward q) = opposite q := rfl

theorem backward_backward (q : Quad) : backward (backward q) = opposite q := rfl

theorem xor_xor_cancel (a b : UInt32) : (a ^^^ b) ^^^ b = a := by
  rw [UInt32.xor_assoc, UInt32.xor_self, UInt32.xor_zero]

theorem add_sub_cancel (a b : UInt32) : a + b - b = a := by grind

theorem sub_add_cancel (a b : UInt32) : a - b + b = a := by grind

/-- Mixing is taken back by mixing with the keys and the words in the opposite order. -/
theorem mix_backwards {key key' : Nat → UInt32} (h : ∀ j ≤ 6, key' j = key (6 - j)) (tweak : UInt32) (q : Quad) :
    mix key' tweak (opposite (mix key tweak q)) = opposite q := by
  have sum (b c e : UInt32) : c - e + (b + e) = b + c := by grind
  have h0 : key' 0 = key 6 := h 0 (by decide)
  have h1 : key' 1 = key 5 := h 1 (by decide)
  have h2 : key' 2 = key 4 := h 2 (by decide)
  have h3 : key' 3 = key 3 := h 3 (by decide)
  have h4 : key' 4 = key 2 := h 4 (by decide)
  have h5 : key' 5 = key 1 := h 5 (by decide)
  have h6 : key' 6 = key 0 := h 6 (by decide)
  simp only [mix, opposite, h0, h1, h2, h3, h4, h5, h6, xor_xor_cancel, sum, add_sub_cancel, sub_add_cancel]

/-! ## All rounds -/

/-- A round of decryption takes back a round of encryption, up to a change of places. -/
theorem decryptRound_undoes (schedule : Schedule) (t q : Quad) (i : Nat)
    (h : t = forward (encryptRound schedule q i)) : decryptRound schedule t i = forward q := by
  rw [h, encryptRound, forward_forward, decryptRound, mix_backwards]
  · rfl
  · intro j _
    rfl

/-- A round of encryption takes back a round of decryption, up to a change of places. -/
theorem encryptRound_undoes (schedule : Schedule) (t q : Quad) (i : Nat)
    (h : t = backward (decryptRound schedule q i)) : encryptRound schedule t i = backward q := by
  rw [h, decryptRound, backward_backward, encryptRound, mix_backwards]
  · rfl
  · intro j hj
    rw [Nat.sub_sub_self hj]

theorem decryptBlock_encryptBlock (schedule : Schedule) (b : Block 16) :
    decryptBlock schedule (encryptBlock schedule b) = b := by
  have h := foldl_reverse_undoes (R := fun t q => t = forward q) (encryptRound schedule) (decryptRound schedule)
    (decryptRound_undoes schedule) (List.range 8) (s := Quad.ofBlock (Word.loadLE 32) b) rfl
  rw [decryptBlock, encryptBlock, Quad.ofBlock_toBlockLE, h, backward_forward, Quad.toBlockLE_ofBlock]

theorem encryptBlock_decryptBlock (schedule : Schedule) (b : Block 16) :
    encryptBlock schedule (decryptBlock schedule b) = b := by
  have h := foldl_reverse_undoes (R := fun t q => t = backward q) (decryptRound schedule) (encryptRound schedule)
    (encryptRound_undoes schedule) (List.range 8).reverse (s := Quad.ofBlock (Word.loadLE 32) b) rfl
  rw [List.reverse_reverse] at h
  rw [encryptBlock, decryptBlock, Quad.ofBlock_toBlockLE, h, forward_backward, Quad.toBlockLE_ofBlock]

theorem permutation_inverse (schedule : Schedule) : (permutation schedule).Inverse where
  decrypt_encrypt := decryptBlock_encryptBlock schedule
  encrypt_decrypt := encryptBlock_decryptBlock schedule

/-! ## The cipher under a key -/

/-- BelT under a key. -/
def keyed (key : Bytes) : Cipher algorithm := ⟨some (expand key)⟩

theorem keyed128_keyed (key : Bytes) : (keyed key).Keyed128 (permutation (expand key)) := ⟨rfl, rfl⟩

/-- Every key of 32 bytes makes BelT a keyed cipher. -/
theorem setKey_fresh {key : Bytes} (h : key.length = 32) : (Cipher.fresh algorithm).setKey key = .ok (keyed key) := by
  have ha : algorithm.keyLengths.accepts key.length = true := by simp [algorithm, h]
  rw [Cipher.setKey, ha, ensure_true, ok_bind]
  rfl

end Belt

end KeyWrapping
