import KeyWrapping.Proofs.BeltCipher
import KeyWrapping.Proofs.WideBlocks
import Mathlib.Algebra.Group.End

/-!
# Runs of the wide block transform

The buffers that the transform takes are those of two or more whole blocks (`Whole`). Under a cipher with a key,
encryption is a permutation of them and decryption is the inverse permutation (`permute`). A run of transforms in place,
one direction after another, is therefore a power of that permutation, and the exponent is how many more encryptions
than decryptions there were (`runAll_eq`). Any other buffer is refused for its length and stays as it is.
-/

namespace KeyWrapping

/-- The other direction. -/
def Direction.opposite : Direction → Direction
  | encrypt => decrypt
  | decrypt => encrypt

namespace WideBlock

/-! ## A permutation of buffers -/

/-- Two or more whole blocks. -/
def IsWhole (bytes : Bytes) : Prop := 32 ≤ bytes.length ∧ bytes.length % 16 = 0

/-- The buffers that the transform takes. -/
abbrev Whole := { bytes : Bytes // IsWhole bytes }

section Permute

variable (p : Permutation 16)

theorem isWhole_applied {bytes : Bytes} (h : IsWhole bytes) (direction : Direction) :
    IsWhole (applied p direction bytes) := by
  rw [IsWhole, length_applied p h.1 h.2]
  exact h

/-- Encryption as a permutation of the buffers that it takes, with decryption as its inverse. -/
def permute : Equiv.Perm Whole where
  toFun b := ⟨applied p .encrypt b, isWhole_applied p b.2 .encrypt⟩
  invFun b := ⟨applied p .decrypt b, isWhole_applied p b.2 .decrypt⟩
  left_inv b := Subtype.ext (applied_decrypt_encrypt p b.2.1 b.2.2)
  right_inv b := Subtype.ext (applied_encrypt_decrypt p b.2.1 b.2.2)

/-- What one transform in a direction does. -/
def permuteIn : Direction → Equiv.Perm Whole
  | .encrypt => permute p
  | .decrypt => (permute p)⁻¹

theorem coe_permuteIn (direction : Direction) (b : Whole) :
    (permuteIn p direction b : Bytes) = applied p direction b := by
  cases direction <;> rfl

theorem permuteIn_opposite (direction : Direction) (b : Whole) :
    permuteIn p direction.opposite (permuteIn p direction b) = b := by
  cases direction with
  | encrypt => exact (permute p).symm_apply_apply b
  | decrypt => exact (permute p).apply_symm_apply b

theorem length_permuteIn (direction : Direction) (b : Whole) :
    (permuteIn p direction b : Bytes).length = (b : Bytes).length := by
  rw [coe_permuteIn, length_applied p b.2.1 b.2.2]

theorem run_eq_permuteIn (direction : Direction) (b : Whole) :
    run (.ok p) direction b = ⟨none, permuteIn p direction b⟩ := by
  have hlength : ¬ ((b : Bytes).length < 32 ∨ (b : Bytes).length % 16 ≠ 0) := by
    have h := b.2
    rw [IsWhole] at h
    omega
  rw [run, if_neg hlength, coe_permuteIn]
  rfl

end Permute

/-- A buffer of any other length is refused, with a key or without one, and stays as it is. -/
theorem run_of_not_isWhole (p : Except Error (Permutation 16)) (direction : Direction) {buffer : Bytes}
    (h : ¬ IsWhole buffer) :
    run p direction buffer = ⟨some (.invalidDataLength "belt-wblock" buffer.length), buffer⟩ := by
  have hlength : buffer.length < 32 ∨ buffer.length % 16 ≠ 0 := by
    rw [IsWhole] at h
    omega
  rw [run, if_pos hlength]

/-! ## Runs of transforms -/

/-- Transforms a buffer in place in one direction after another, up to the first failure. -/
def runAll (p : Except Error (Permutation 16)) : List Direction → Bytes → InPlace
  | [], buffer => ⟨none, buffer⟩
  | direction :: directions, buffer =>
    match run p direction buffer with
    | ⟨none, buffer⟩ => runAll p directions buffer
    | ⟨some e, buffer⟩ => ⟨some e, buffer⟩

/-- How many more encryptions than decryptions there are. -/
def balance (directions : List Direction) : Int := directions.count .encrypt - directions.count .decrypt

/-- One more transform is one more factor. -/
theorem zpow_balance_cons {G : Type} [Group G] (g : G) (direction : Direction) (directions : List Direction) :
    g ^ balance (direction :: directions) =
      g ^ balance directions * (match direction with | .encrypt => g | .decrypt => g⁻¹) := by
  cases direction with
  | encrypt =>
    have h : balance (.encrypt :: directions) = balance directions + 1 := by
      simp [balance]
      omega
    rw [h, zpow_add_one]
  | decrypt =>
    have h : balance (.decrypt :: directions) = balance directions - 1 := by
      simp [balance]
      omega
    rw [h, zpow_sub_one]

/-- A run of transforms is a power of one encryption. -/
theorem runAll_eq (p : Permutation 16) (directions : List Direction) (b : Whole) :
    runAll (.ok p) directions b = ⟨none, (permute p ^ balance directions) b⟩ := by
  induction directions generalizing b with
  | nil => rfl
  | cons direction directions ih =>
    have hrun := run_eq_permuteIn p direction b
    rw [runAll, hrun, zpow_balance_cons, Equiv.Perm.mul_apply]
    cases direction with
    | encrypt => exact ih _
    | decrypt => exact ih _

/-- **Encryption and decryption are inverse permutations**: under every keyed cipher, either of them gives back what the
other was given, at the same length; a run of both depends on the balance of their numbers only; and what is not two or
more whole blocks is refused and stays as it is. -/
theorem transforms_permute {c : Cipher Belt.algorithm} (hk : c.isKeyed = true) :
    (∀ (direction : Direction) (buffer : Bytes), IsWhole buffer →
      ∃ transformed, run c.permutation direction buffer = ⟨none, transformed⟩ ∧ transformed.length = buffer.length ∧
        run c.permutation direction.opposite transformed = ⟨none, buffer⟩) ∧
    (∃ σ : Equiv.Perm Whole, ∀ (directions : List Direction) (b : Whole),
      runAll c.permutation directions b = ⟨none, (σ ^ balance directions) b⟩) ∧
    (∀ (directions directions' : List Direction) (buffer : Bytes), IsWhole buffer →
      balance directions = balance directions' →
        runAll c.permutation directions buffer = runAll c.permutation directions' buffer) ∧
    ∀ (direction : Direction) (buffer : Bytes), ¬ IsWhole buffer →
      run c.permutation direction buffer = ⟨some (.invalidDataLength "belt-wblock" buffer.length), buffer⟩ := by
  obtain ⟨schedule, hs⟩ := Option.isSome_iff_exists.mp hk
  obtain ⟨p, hp⟩ : ∃ p : Permutation 16, c.permutation = .ok p :=
    ⟨Belt.permutation schedule, by rw [Cipher.permutation, hs]; rfl⟩
  have hrun : ∀ direction (b : Whole), run c.permutation direction b = ⟨none, permuteIn p direction b⟩ := by
    rw [hp]
    exact run_eq_permuteIn p
  have hall : ∀ directions (b : Whole),
      runAll c.permutation directions b = ⟨none, (permute p ^ balance directions) b⟩ := by
    rw [hp]
    exact runAll_eq p
  refine ⟨?_, ⟨_, hall⟩, ?_, ?_⟩
  · intro direction buffer h
    let b : Whole := ⟨buffer, h⟩
    refine ⟨permuteIn p direction b, hrun direction b, length_permuteIn p direction b, ?_⟩
    rw [hrun direction.opposite, permuteIn_opposite]
  · intro directions directions' buffer h hbalance
    rw [hall directions ⟨buffer, h⟩, hall directions' ⟨buffer, h⟩, hbalance]
  · intro direction buffer h
    exact run_of_not_isWhole _ direction h

/-- With the key of 32 zero bytes, two blocks come back after one encryption and one decryption, three encryptions and a
decryption come to two encryptions, and 33 bytes are refused. -/
theorem transforms_permute_two_blocks :
    (Belt.keyed (.zeros 32)).isKeyed = true ∧ IsWhole (.zeros 32) ∧
      (∃ transformed, run (Belt.keyed (.zeros 32)).permutation .encrypt (.zeros 32) = ⟨none, transformed⟩ ∧
        transformed.length = 32 ∧ run (Belt.keyed (.zeros 32)).permutation .decrypt transformed = ⟨none, .zeros 32⟩) ∧
      runAll (Belt.keyed (.zeros 32)).permutation [.encrypt, .encrypt, .decrypt, .encrypt] (.zeros 32) =
        runAll (Belt.keyed (.zeros 32)).permutation [.encrypt, .encrypt] (.zeros 32) ∧
      run (Belt.keyed (.zeros 32)).permutation .decrypt (.zeros 33) =
        ⟨some (.invalidDataLength "belt-wblock" 33), .zeros 33⟩ := by
  have hk : (Belt.keyed (.zeros 32)).isKeyed = true := rfl
  have hwhole : IsWhole (.zeros 32) := ⟨by decide, by decide⟩
  obtain ⟨hback, -, hbalance, hrefused⟩ := transforms_permute hk
  exact ⟨hk, hwhole, hback .encrypt _ hwhole, hbalance _ _ _ hwhole rfl,
    hrefused .decrypt (.zeros 33) fun h => by cases h.2⟩

end WideBlock

end KeyWrapping
