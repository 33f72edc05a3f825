import KeyWrapping.Mask
import Mathlib.Algebra.Group.Nat.Defs

/-!
# Masks say what Booleans say

`Mask.ofBool` is the mask for a Boolean. Every comparison answers with the mask of the Boolean comparison
(`isZero_eq`, `isEqual_eq`, `isLess_eq`, `isGreater_eq`, `isAtMost_eq`, `isAtLeast_eq`), at every width; the operations
on masks are those on Booleans. That `isLess` finds the borrow of a subtraction is `msb_borrow`.

Gathering words with "or" gives zero if and only if all of them are zero (`foldl_or_eq_zero_iff`), so comparing byte
strings without branching decides their equality (`Bytes.constantTimeEqual_eq_true_iff`).
-/

namespace KeyWrapping

namespace Mask

variable {w : Nat}

/-- The mask for a Boolean. -/
def ofBool (b : Bool) : Mask w := if b then yes else no

/-! ## Reading bits -/

theorem eq_of_width_zero (m n : Mask 0) : m = n := congrArg Mask.mk (Subsingleton.elim m.value n.value)

/-- What is left of a word when all bits but the top one are shifted out. -/
theorem shift_topBit (v : BitVec (w + 1)) : v >>> w = if v.msb then 1#(w + 1) else 0#(w + 1) := by
  apply BitVec.eq_of_toNat_eq
  have hlt : v.toNat < 2 ^ w * 2 := by rw [← Nat.pow_succ]; exact v.isLt
  rw [BitVec.toNat_ushiftRight, Nat.shiftRight_eq_div_pow, BitVec.msb_eq_decide, Nat.add_sub_cancel]
  by_cases h : 2 ^ w ≤ v.toNat
  · rw [Nat.div_eq_of_lt_le (k := 1) (by omega) (by omega)]
    simp [h]
  · rw [Nat.div_eq_of_lt (by omega)]
    simp [h]

theorem ofTopBit_eq (v : BitVec w) : ofTopBit v = ofBool v.msb := by
  cases w with
  | zero => exact eq_of_width_zero _ _
  | succ w =>
    rw [ofTopBit, Nat.add_sub_cancel, shift_topBit]
    cases v.msb with
    | false => simp [ofBool, no]
    | true => simp [ofBool, yes, BitVec.neg_one_eq_allOnes]

/-- A difference wraps around exactly when it borrows. -/
theorem toNat_sub_eq_ite (x y : BitVec w) :
    (x - y).toNat = if x.toNat < y.toNat then 2 ^ w + x.toNat - y.toNat else x.toNat - y.toNat := by
  have hx := x.isLt
  have hy := y.isLt
  rw [BitVec.toNat_sub]
  split
  · rw [Nat.mod_eq_of_lt (by omega)]
    omega
  · rw [show 2 ^ w - y.toNat + x.toNat = x.toNat - y.toNat + 2 ^ w by omega, Nat.add_mod_right,
      Nat.mod_eq_of_lt (by omega)]

/-- The top bit of the borrow that `x - y` leaves says whether `x < y`. -/
theorem msb_borrow (x y : BitVec w) : (x ^^^ ((x ^^^ y) ||| ((x - y) ^^^ x))).msb = decide (x < y) := by
  cases w with
  | zero => simp [BitVec.of_length_zero]
  | succ w =>
    have hp : 2 ^ (w + 1) = 2 ^ w * 2 := Nat.pow_succ ..
    have hx := x.isLt
    have hy := y.isLt
    have hs := toNat_sub_eq_ite x y
    rw [BitVec.msb_xor, BitVec.msb_or, BitVec.msb_xor, BitVec.msb_xor, Bool.eq_iff_iff, decide_eq_true_iff,
      BitVec.lt_def]
    simp only [BitVec.msb_eq_decide, Nat.add_sub_cancel, hs]
    by_cases h : x.toNat < y.toNat <;> by_cases h1 : 2 ^ w ≤ x.toNat <;> by_cases h2 : 2 ^ w ≤ y.toNat <;>
      simp [h, h1, h2] <;> omega

/-! ## Comparing words -/

/-- A word has its top bit clear and gets it set by subtracting one if and only if it is zero. -/
theorem msb_pred (v : BitVec (w + 1)) : (~~~v &&& (v - 1#(w + 1))).msb = (v == 0#(w + 1)) := by
  have hlt : v.toNat < 2 ^ w * 2 := by rw [← Nat.pow_succ]; exact v.isLt
  have hp : 2 ^ (w + 1) = 2 ^ w * 2 := Nat.pow_succ ..
  have hs := toNat_sub_eq_ite v 1#(w + 1)
  have h1 : (1#(w + 1)).toNat = 1 := by simp
  have hz : v = 0#(w + 1) ↔ v.toNat = 0 := by rw [BitVec.toNat_eq, BitVec.toNat_ofNat, Nat.zero_mod]
  rw [h1] at hs
  rw [BitVec.msb_and, BitVec.msb_not, Bool.eq_iff_iff, beq_iff_eq, hz]
  simp only [BitVec.msb_eq_decide, Nat.add_sub_cancel, Bool.and_eq_true, Bool.not_eq_true', decide_eq_true_iff,
    decide_eq_false_iff_not]
  split at hs <;> omega

theorem isZero_eq (v : BitVec w) : isZero v = ofBool (v == 0#w) := by
  cases w with
  | zero => exact eq_of_width_zero _ _
  | succ w => rw [isZero, ofTopBit_eq, msb_pred]

theorem isEqual_eq (x y : BitVec w) : isEqual x y = ofBool (x == y) := by
  rw [isEqual, isZero_eq]
  congr 1
  rw [Bool.eq_iff_iff, beq_iff_eq, beq_iff_eq, BitVec.xor_eq_zero_iff]

theorem isLess_eq (x y : BitVec w) : isLess x y = ofBool (decide (x < y)) := by
  rw [isLess, ofTopBit_eq, msb_borrow]

theorem isGreater_eq (x y : BitVec w) : isGreater x y = ofBool (decide (y < x)) := isLess_eq y x

/-! ## Combining masks -/

theorem not_ofBool (b : Bool) : (ofBool b : Mask w).not = ofBool !b := by
  cases b <;> simp [ofBool, not, yes, no]

theorem and_ofBool (b c : Bool) : (ofBool b : Mask w).and (ofBool c) = ofBool (b && c) := by
  cases b <;> cases c <;> simp [ofBool, and, yes, no]

theorem or_ofBool (b c : Bool) : (ofBool b : Mask w).or (ofBool c) = ofBool (b || c) := by
  cases b <;> cases c <;> simp [ofBool, or, yes, no]

theorem xor_ofBool (b c : Bool) : (ofBool b : Mask w).xor (ofBool c) = ofBool (b ^^ c) := by
  cases b <;> cases c <;> simp [ofBool, xor, yes, no]

theorem narrow_ofBool {v : Nat} (h : v ≤ w) (b : Bool) : (ofBool b : Mask w).narrow v = ofBool b := by
  cases b with
  | false => simp [ofBool, narrow, no]
  | true =>
    simp only [ofBool, narrow, yes, if_true, Mask.mk.injEq]
    apply BitVec.eq_of_getLsbD_eq
    intro i hi
    simp [hi, show i < w by omega]

theorem isAtMost_eq (x y : BitVec w) : isAtMost x y = ofBool (decide (x ≤ y)) := by
  rw [isAtMost, isGreater_eq, not_ofBool]
  congr 1
  rw [← decide_not, decide_eq_decide, BitVec.not_lt]

theorem isAtLeast_eq (x y : BitVec w) : isAtLeast x y = ofBool (decide (y ≤ x)) := by
  rw [isAtLeast, isLess_eq, not_ofBool]
  congr 1
  rw [← decide_not, decide_eq_decide, BitVec.not_lt]

theorem isNonzero_eq (v : BitVec w) : isNonzero v = ofBool (v != 0#w) := by
  rw [isNonzero, isZero_eq, not_ofBool, bne]

theorem isWithin_eq (v lo hi : BitVec w) : isWithin v lo hi = ofBool (decide (lo ≤ v ∧ v ≤ hi)) := by
  rw [isWithin, isAtLeast_eq, isAtMost_eq, and_ofBool, Bool.decide_and]

/-- Whether a word occurs in a list, or was found before. -/
theorem foldl_or_isEqual (v : BitVec w) (accepted : List (BitVec w)) (b : Bool) :
    accepted.foldl (fun m a => m.or (isEqual v a)) (ofBool b) = ofBool (b || accepted.contains v) := by
  induction accepted generalizing b with
  | nil => rw [List.foldl_nil, List.contains_nil, Bool.or_false]
  | cons a accepted ih => rw [List.foldl_cons, isEqual_eq, or_ofBool, ih, List.contains_cons, Bool.or_assoc]

theorem isAnyOf_eq (v : BitVec w) (accepted : List (BitVec w)) : isAnyOf v accepted = ofBool (accepted.contains v) :=
  foldl_or_isEqual v accepted false

/-! ## Choosing -/

theorem select_ofBool (b : Bool) (x y : BitVec w) : (ofBool b).select x y = if b then x else y := by
  cases b with
  | false => simp [ofBool, select, no]
  | true =>
    rw [ofBool, if_pos rfl, select, yes, BitVec.allOnes_and, BitVec.xor_comm x y, ← BitVec.xor_assoc, BitVec.xor_self,
      BitVec.zero_xor, if_pos rfl]

theorem keepUnless_ofBool (b : Bool) (x : BitVec w) : (ofBool b).keepUnless x = if b then 0#w else x := by
  cases b <;> simp [ofBool, keepUnless, yes, no]

theorem keepIf_ofBool (b : Bool) (x : BitVec w) : (ofBool b).keepIf x = if b then x else 0#w := by
  cases b <;> simp [ofBool, keepIf, yes, no]

theorem toBool_ofBool (hw : 0 < w) (b : Bool) : (ofBool b : Mask w).toBool = b := by
  cases b with
  | false => simp [ofBool, toBool, no]
  | true => simpa [ofBool, toBool, yes] using Nat.ne_of_gt hw

/-! ## Gathering words -/

/-- Words gathered with "or" are zero if and only if each of them is. -/
theorem foldl_or_eq_zero_iff {α : Type} (f : α → BitVec w) (xs : List α) (acc : BitVec w) :
    xs.foldl (fun gathered x => gathered ||| f x) acc = 0#w ↔ acc = 0#w ∧ ∀ x ∈ xs, f x = 0#w := by
  induction xs generalizing acc with
  | nil => simp
  | cons x xs ih => rw [List.foldl_cons, ih, BitVec.or_eq_zero_iff, List.forall_mem_cons, and_assoc]

/-- Rows of one length have no differences if and only if they are equal. -/
theorem forall_zipWith_xor_iff {xs ys : List (BitVec w)} (h : xs.length = ys.length) :
    (∀ d ∈ List.zipWith (· ^^^ ·) xs ys, d = 0#w) ↔ xs = ys := by
  induction xs generalizing ys with
  | nil => simp [List.length_eq_zero_iff.mp h.symm]
  | cons x xs ih =>
    cases ys with
    | nil => simp at h
    | cons y ys =>
      rw [List.zipWith_cons_cons, List.forall_mem_cons, ih (by simpa using h), BitVec.xor_eq_zero_iff, List.cons.injEq]

theorem rowsEqual_eq {xs ys : List (BitVec w)} (h : xs.length = ys.length) :
    rowsEqual xs ys = ofBool (xs == ys) := by
  rw [rowsEqual, isZero_eq]
  congr 1
  rw [Bool.eq_iff_iff, beq_iff_eq, beq_iff_eq, ← forall_zipWith_xor_iff h]
  exact (foldl_or_eq_zero_iff id _ _).trans (and_iff_right rfl)

end Mask

/-- Comparing without branching decides equality. -/
theorem Bytes.constantTimeEqual_eq_true_iff {x y : Bytes} : constantTimeEqual x y = true ↔ x = y := by
  rw [constantTimeEqual, Bool.and_eq_true, beq_iff_eq]
  constructor
  · rintro ⟨hlen, hrows⟩
    rw [Mask.rowsEqual_eq (by simpa using hlen), Mask.toBool_ofBool (by decide), beq_iff_eq] at hrows
    exact (List.map_inj_right fun _ _ => UInt8.toBitVec_inj.mp).mp hrows
  · rintro rfl
    refine ⟨rfl, ?_⟩
    rw [Mask.rowsEqual_eq rfl, Mask.toBool_ofBool (by decide), beq_iff_eq]

end KeyWrapping
