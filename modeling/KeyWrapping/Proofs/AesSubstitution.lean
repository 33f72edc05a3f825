import KeyWrapping.Cipher.Aes
import KeyWrapping.Proofs.Quads

/-!
# The substitution of AES and its opposite

The inverse of a byte is a product of fourteen factors, and there are 256 bytes. Their arithmetic is carried over to
numbers (`toNat_mul`), where the kernel can do it at once (`inverse_inverse`). Together with the two affine maps, which
undo each other as well, this makes the two tables inverse (`invSubWord_subWord`, `subWord_invSubWord`).
-/

namespace KeyWrapping

/-! ## The field in numbers -/

namespace Field

/-- `double` on numbers. The operations are written by name, so that the kernel need not look for them. -/
def doubleNat (n : Nat) : Nat := Nat.xor (Nat.mul 2 n) (Nat.mul (Nat.div n 128) 283)

/-- `mulBits` on numbers. -/
def mulNat : Nat → Nat → Nat → Nat
  | 0, _, _ => 0
  | k + 1, a, b => Nat.xor (Nat.mul (Nat.mod b 2) a) (mulNat k (doubleNat a) (Nat.div b 2))

/-- `mulSquares` on numbers. -/
def mulSquaresNat : Nat → Nat → Nat
  | 0, _ => 1
  | k + 1, a => mulNat 8 a (mulSquaresNat k (mulNat 8 a a))

/-- `inverse` on numbers. -/
def inverseNat (a : Nat) : Nat := mulSquaresNat 7 (mulNat 8 a a)

theorem toNat_double (a : UInt8) : (double a).toNat = doubleNat a.toNat :=
  forall_byte (P := fun a => (double a).toNat = doubleNat a.toNat) (by decide +kernel) a

theorem toNat_mulBits (k : Nat) (a b : UInt8) : (mulBits k a b).toNat = mulNat k a.toNat b.toNat := by
  induction k generalizing a b with
  | zero => rfl
  | succ k ih =>
    have hbit : (b &&& 1 = 1) ↔ b.toNat % 2 = 1 := by
      rw [← UInt8.toNat_inj, UInt8.toNat_and]
      exact iff_of_eq (congrArg (· = 1) (Nat.and_one_is_mod _))
    have hfactor : (if b &&& 1 = 1 then a else 0).toNat = b.toNat % 2 * a.toNat := by
      by_cases h : b.toNat % 2 = 1
      · rw [if_pos (hbit.mpr h), h, Nat.one_mul]
      · rw [if_neg (mt hbit.mp h), Nat.mod_two_ne_one.mp h, Nat.zero_mul]
        rfl
    have hrest : (b >>> 1).toNat = b.toNat / 2 := by
      rw [UInt8.toNat_shiftRight]
      exact Nat.shiftRight_succ _ 0
    rw [mulBits, UInt8.toNat_xor, hfactor, ih, toNat_double, hrest]
    rfl

theorem toNat_mul (a b : UInt8) : (mul a b).toNat = mulNat 8 a.toNat b.toNat := toNat_mulBits 8 a b

theorem toNat_mulSquares (k : Nat) (a : UInt8) : (mulSquares k a).toNat = mulSquaresNat k a.toNat := by
  induction k generalizing a with
  | zero => rfl
  | succ k ih => rw [mulSquares, toNat_mul, ih, toNat_mul, mulSquaresNat]

theorem toNat_inverse (a : UInt8) : (inverse a).toNat = inverseNat a.toNat := by
  rw [inverse, toNat_mulSquares, toNat_mul, inverseNat]

theorem inverse_inverse (a : UInt8) : inverse (inverse a) = a := by
  have h : ∀ n < 256, inverseNat (inverseNat n) = n := by decide +kernel
  rw [← UInt8.toNat_inj, toNat_inverse, toNat_inverse, h _ a.toNat_lt]

/-- Doubling is additive. -/
theorem double_xor (a b : UInt8) : double (a ^^^ b) = double a ^^^ double b := by
  have top (a : UInt8) : a < 0x80 ↔ a.toBitVec.msb = false := by
    rw [BitVec.msb_eq_decide, decide_eq_false_iff_not, Nat.not_le]
    exact UInt8.lt_iff_toNat_lt
  have hmsb : (a ^^^ b).toBitVec.msb = (a.toBitVec.msb ^^ b.toBitVec.msb) := BitVec.msb_xor
  have carry (s t : Bool) : (if (s ^^ t) = false then 0 else 0x1B : UInt8) =
      (if s = false then 0 else 0x1B) ^^^ (if t = false then 0 else 0x1B) := by
    cases s <;> cases t <;> rfl
  simp only [double, top, hmsb, UInt8.shiftLeft_xor, carry]
  ac_rfl

end Field

/-! ## The tables -/

namespace Aes

/-- What the substitution does after the inverse is taken. -/
def affine (b : UInt8) : UInt8 :=
  b ^^^ Field.rotl8 1 b ^^^ Field.rotl8 2 b ^^^ Field.rotl8 3 b ^^^ Field.rotl8 4 b ^^^ 0x63

/-- What the opposite substitution does before the inverse is taken. -/
def unaffine (b : UInt8) : UInt8 := Field.rotl8 1 b ^^^ Field.rotl8 3 b ^^^ Field.rotl8 6 b ^^^ 0x05

theorem unaffine_affine : ∀ b, unaffine (affine b) = b := forall_byte (by decide +kernel)

theorem affine_unaffine : ∀ b, affine (unaffine b) = b := forall_byte (by decide +kernel)

theorem get_substitution (b : UInt8) : substitution.get b.toFin = affine (Field.inverse b) := by
  have hget : substitution.get b.toFin = affine (Field.inverse (UInt8.ofNat b.toNat)) :=
    Vector.getElem_ofFn b.toFin.isLt
  rwa [UInt8.ofNat_toNat] at hget

theorem get_inverseSubstitution (b : UInt8) : inverseSubstitution.get b.toFin = Field.inverse (unaffine b) := by
  have hget : inverseSubstitution.get b.toFin = Field.inverse (unaffine (UInt8.ofNat b.toNat)) :=
    Vector.getElem_ofFn b.toFin.isLt
  rwa [UInt8.ofNat_toNat] at hget

theorem invSubWord_subWord (w : UInt32) : invSubWord (subWord w) = w := by
  rw [invSubWord, subWord, Word.mapBytes_mapBytes]
  apply Word.mapBytes_of_forall_eq
  intro b
  rw [get_inverseSubstitution, get_substitution, unaffine_affine, Field.inverse_inverse]

theorem subWord_invSubWord (w : UInt32) : subWord (invSubWord w) = w := by
  rw [invSubWord, subWord, Word.mapBytes_mapBytes]
  apply Word.mapBytes_of_forall_eq
  intro b
  rw [get_substitution, get_inverseSubstitution, Field.inverse_inverse, affine_unaffine]

end Aes

end KeyWrapping
