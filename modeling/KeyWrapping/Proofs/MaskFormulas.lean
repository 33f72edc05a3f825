import KeyWrapping.Mask.Register
import KeyWrapping.Proofs.Masks

/-!
# Formulas over masks

A formula says in which way a mask was made: from words, by comparing them, and from other masks, by combining them or
by cutting wider ones (`Mask.Formula`). It can be read in three ways: as a Boolean, by the order of natural numbers
(`Formula.holds`), as a mask (`Formula.mask`), and as a mask computed in registers (`Formula.register`). All three agree
at every width (`Formula.mask_eq`, `Formula.register_eq`), by induction over the formula, so a mask is all ones or all
zeros however it was made, and chooses as the Boolean would (`Formula.faithful`).
-/

namespace KeyWrapping.Mask

variable {w : Nat}

/-! ## Registers -/

namespace Register

theorem le_width (w : Nat) : w ≤ width w := Nat.le_max_left w 32

@[simp] theorem cut_widen (v : BitVec w) : cut (widen v) = v := by
  rw [cut, widen, BitVec.setWidth_setWidth_of_le _ (le_width w), BitVec.setWidth_eq]

theorem cut_not (r : BitVec (width w)) : cut (~~~r) = ~~~cut r := BitVec.setWidth_not (le_width w)

theorem cut_and (r s : BitVec (width w)) : cut (r &&& s) = cut r &&& cut s := BitVec.setWidth_and

theorem cut_or (r s : BitVec (width w)) : cut (r ||| s) = cut r ||| cut s := BitVec.setWidth_or

theorem cut_xor (r s : BitVec (width w)) : cut (r ^^^ s) = cut r ^^^ cut s := BitVec.setWidth_xor

/-- A borrow goes upwards only, so it leaves no trace in the bits that are kept. -/
theorem cut_sub (r s : BitVec (width w)) : cut (r - s) = cut r - cut s := by
  have hsum : cut (r - s) + cut s = cut r := by
    have h := BitVec.setWidth_add (r - s) s (le_width w)
    rw [BitVec.sub_add_cancel] at h
    exact h.symm
  rw [← hsum, BitVec.add_sub_cancel]

theorem cut_one : cut 1#(width w) = 1#w := BitVec.setWidth_ofNat_of_le (le_width w) 1

/-- In front of a widened word there are zeros to be shifted in. -/
theorem cut_shift (v : BitVec w) (n : Nat) : cut (widen v >>> n) = v >>> n := by
  rw [widen, ← BitVec.setWidth_ushiftRight (le_width w)]
  exact cut_widen (v >>> n)

theorem yes_eq : (yes : Mask w) = Mask.yes := by
  have hones : (~~~0#32).signExtend w = BitVec.allOnes w := by
    have hsign : (BitVec.allOnes 32).msb = true := rfl
    apply BitVec.eq_of_getLsbD_eq
    intro i hi
    rw [BitVec.not_zero, BitVec.getLsbD_signExtend, hsign, BitVec.getLsbD_allOnes, BitVec.getLsbD_allOnes]
    simp [hi]
  exact congrArg Mask.mk hones

theorem ofTopBit_eq (v : BitVec w) : ofTopBit v = Mask.ofTopBit v := by
  rw [ofTopBit, cut_sub, cut_widen, cut_shift, Mask.ofTopBit]

theorem isZero_eq (v : BitVec w) : isZero v = Mask.isZero v := by
  rw [isZero, ofTopBit_eq, cut_and, cut_not, cut_sub, cut_widen, cut_one, Mask.isZero]

theorem not_eq (m : Mask w) : not m = m.not := by
  rw [not, cut_not, cut_widen, Mask.not]

theorem and_eq (m₁ m₂ : Mask w) : and m₁ m₂ = m₁.and m₂ := by
  rw [and, cut_and, cut_widen, cut_widen, Mask.and]

theorem or_eq (m₁ m₂ : Mask w) : or m₁ m₂ = m₁.or m₂ := by
  rw [or, cut_or, cut_widen, cut_widen, Mask.or]

theorem xor_eq (m₁ m₂ : Mask w) : xor m₁ m₂ = m₁.xor m₂ := by
  rw [xor, cut_xor, cut_widen, cut_widen, Mask.xor]

theorem isNonzero_eq (v : BitVec w) : isNonzero v = Mask.isNonzero v := by
  rw [isNonzero, not_eq, isZero_eq, Mask.isNonzero]

theorem isEqual_eq (x y : BitVec w) : isEqual x y = Mask.isEqual x y := by
  rw [isEqual, isZero_eq, cut_xor, cut_widen, cut_widen, Mask.isEqual]

theorem isLess_eq (x y : BitVec w) : isLess x y = Mask.isLess x y := by
  simp only [isLess, ofTopBit_eq, cut_xor, cut_or, cut_sub, cut_widen, Mask.isLess]

theorem isGreater_eq (x y : BitVec w) : isGreater x y = Mask.isGreater x y := isLess_eq y x

theorem isAtMost_eq (x y : BitVec w) : isAtMost x y = Mask.isAtMost x y := by
  rw [isAtMost, not_eq, isGreater_eq, Mask.isAtMost]

theorem isAtLeast_eq (x y : BitVec w) : isAtLeast x y = Mask.isAtLeast x y := by
  rw [isAtLeast, not_eq, isLess_eq, Mask.isAtLeast]

theorem isWithin_eq (v lo hi : BitVec w) : isWithin v lo hi = Mask.isWithin v lo hi := by
  rw [isWithin, and_eq, isAtLeast_eq, isAtMost_eq, Mask.isWithin]

theorem isAnyOf_eq (v : BitVec w) (accepted : List (BitVec w)) : isAnyOf v accepted = Mask.isAnyOf v accepted := by
  rw [isAnyOf, Mask.isAnyOf]
  simp only [or_eq, isEqual_eq]

theorem select_eq (m : Mask w) (x y : BitVec w) : select m x y = m.select x y := by
  simp only [select, cut_xor, cut_and, cut_widen, Mask.select]

theorem keepIf_eq (m : Mask w) (x : BitVec w) : keepIf m x = m.keepIf x := by
  rw [keepIf, cut_and, cut_widen, cut_widen, Mask.keepIf]

theorem keepUnless_eq (m : Mask w) (x : BitVec w) : keepUnless m x = m.keepUnless x := by
  rw [keepUnless, cut_and, cut_not, cut_widen, cut_widen, Mask.keepUnless]

/-- Widening loses nothing. -/
theorem toBool_eq (m : Mask w) : toBool m = m.toBool := by
  have hzero : widen m.value = 0#(width w) ↔ m.value = 0#w := by
    constructor
    · intro h
      rw [← cut_widen m.value, h]
      exact BitVec.setWidth_zero ..
    · intro h
      rw [h]
      exact BitVec.setWidth_zero ..
  rw [toBool, Mask.toBool, Bool.eq_iff_iff, bne_iff_ne, bne_iff_ne, Ne, Ne, hzero]

end Register

/-! ## Formulas -/

/-- What is asked of one word. -/
inductive Test where
  | zero | nonzero | topBit
  deriving DecidableEq, Repr

/-- How two words are compared. -/
inductive Comparison where
  | equal | less | greater | atMost | atLeast
  deriving DecidableEq, Repr

/-- How two masks are combined; the last two put the result in the place of the first mask. -/
inductive Connective where
  | and | or | xor | andInto | orInto
  deriving DecidableEq, Repr

/-- The ways to make a mask for words of some width. -/
inductive Formula : Nat → Type where
  | constant {w : Nat} (answer : Bool) : Formula w
  | test {w : Nat} (t : Test) (v : BitVec w) : Formula w
  | compare {w : Nat} (c : Comparison) (x y : BitVec w) : Formula w
  | within {w : Nat} (v lo hi : BitVec w) : Formula w
  | anyOf {w : Nat} (v : BitVec w) (accepted : List (BitVec w)) : Formula w
  | not {w : Nat} (f : Formula w) : Formula w
  | combine {w : Nat} (c : Connective) (f g : Formula w) : Formula w
  /-- The mask of a wider word, cut to a narrower one. -/
  | narrow {v w : Nat} (h : v < w) (f : Formula w) : Formula v

/-! ### As Booleans -/

/-- The answer of a test. -/
def Test.holds : Test → BitVec w → Bool
  | zero, v => v.toNat == 0
  | nonzero, v => v.toNat != 0
  | topBit, v => decide (2 ^ (w - 1) ≤ v.toNat)

/-- The answer of a comparison. -/
def Comparison.holds : Comparison → BitVec w → BitVec w → Bool
  | equal, x, y => x.toNat == y.toNat
  | less, x, y => decide (x.toNat < y.toNat)
  | greater, x, y => decide (y.toNat < x.toNat)
  | atMost, x, y => decide (x.toNat ≤ y.toNat)
  | atLeast, x, y => decide (y.toNat ≤ x.toNat)

/-- Two answers combined. -/
def Connective.holds : Connective → Bool → Bool → Bool
  | and, b, c | andInto, b, c => b && c
  | or, b, c | orInto, b, c => b || c
  | xor, b, c => b ^^ c

/-- The answer of a formula. -/
def Formula.holds : {w : Nat} → Formula w → Bool
  | _, constant answer => answer
  | _, test t v => t.holds v
  | _, compare c x y => c.holds x y
  | _, within v lo hi => decide (lo.toNat ≤ v.toNat ∧ v.toNat ≤ hi.toNat)
  | _, anyOf v accepted => decide (v ∈ accepted)
  | _, not f => !f.holds
  | _, combine c f g => c.holds f.holds g.holds
  | _, narrow _ f => f.holds

/-! ### As masks -/

/-- The mask of a test. -/
def Test.mask : Test → BitVec w → Mask w
  | zero => isZero
  | nonzero => isNonzero
  | topBit => ofTopBit

/-- The mask of a comparison. -/
def Comparison.mask : Comparison → BitVec w → BitVec w → Mask w
  | equal => isEqual
  | less => isLess
  | greater => isGreater
  | atMost => isAtMost
  | atLeast => isAtLeast

/-- Two masks combined. -/
def Connective.mask : Connective → Mask w → Mask w → Mask w
  | and | andInto => Mask.and
  | or | orInto => Mask.or
  | xor => Mask.xor

/-- The mask of a formula. -/
def Formula.mask : {w : Nat} → Formula w → Mask w
  | _, constant answer => if answer then yes else no
  | _, test t v => t.mask v
  | _, compare c x y => c.mask x y
  | _, within v lo hi => isWithin v lo hi
  | _, anyOf v accepted => isAnyOf v accepted
  | _, not f => f.mask.not
  | _, combine c f g => c.mask f.mask g.mask
  | v, narrow _ f => f.mask.narrow v

/-! ### As masks computed in registers -/

/-- The mask of a test, computed in registers. -/
def Test.register : Test → BitVec w → Mask w
  | zero => Register.isZero
  | nonzero => Register.isNonzero
  | topBit => Register.ofTopBit

/-- The mask of a comparison, computed in registers. -/
def Comparison.register : Comparison → BitVec w → BitVec w → Mask w
  | equal => Register.isEqual
  | less => Register.isLess
  | greater => Register.isGreater
  | atMost => Register.isAtMost
  | atLeast => Register.isAtLeast

/-- Two masks combined in registers. -/
def Connective.register : Connective → Mask w → Mask w → Mask w
  | and | andInto => Register.and
  | or | orInto => Register.or
  | xor => Register.xor

/-- The mask of a formula, computed in registers. -/
def Formula.register : {w : Nat} → Formula w → Mask w
  | _, constant answer => if answer then Register.yes else no
  | _, test t v => t.register v
  | _, compare c x y => c.register x y
  | _, within v lo hi => Register.isWithin v lo hi
  | _, anyOf v accepted => Register.isAnyOf v accepted
  | _, not f => Register.not f.register
  | _, combine c f g => c.register f.register g.register
  | v, narrow _ f => f.register.narrow v

/-! ## The readings agree -/

theorem Test.mask_eq (t : Test) (v : BitVec w) : t.mask v = ofBool (t.holds v) := by
  have hzero : (v == 0#w) = (v.toNat == 0) := by
    rw [Bool.eq_iff_iff, beq_iff_eq, beq_iff_eq, BitVec.toNat_eq, BitVec.toNat_ofNat, Nat.zero_mod]
  cases t with
  | zero => rw [mask, isZero_eq, hzero, holds]
  | nonzero => rw [mask, isNonzero_eq, bne, hzero, holds, bne]
  | topBit => rw [mask, ofTopBit_eq, BitVec.msb_eq_decide, holds]

theorem Comparison.mask_eq (c : Comparison) (x y : BitVec w) : c.mask x y = ofBool (c.holds x y) := by
  cases c with
  | equal =>
    have hequal : (x == y) = (x.toNat == y.toNat) := by
      rw [Bool.eq_iff_iff, beq_iff_eq, beq_iff_eq, BitVec.toNat_eq]
    rw [mask, isEqual_eq, hequal, holds]
  | less => exact isLess_eq x y
  | greater => exact isGreater_eq x y
  | atMost => exact isAtMost_eq x y
  | atLeast => exact isAtLeast_eq x y

theorem Connective.mask_eq (c : Connective) (a b : Bool) :
    c.mask (ofBool a : Mask w) (ofBool b) = ofBool (c.holds a b) := by
  cases c with
  | and | andInto => exact and_ofBool a b
  | or | orInto => exact or_ofBool a b
  | xor => exact xor_ofBool a b

theorem Test.register_eq (t : Test) (v : BitVec w) : t.register v = t.mask v := by
  cases t with
  | zero => exact Register.isZero_eq v
  | nonzero => exact Register.isNonzero_eq v
  | topBit => exact Register.ofTopBit_eq v

theorem Comparison.register_eq (c : Comparison) (x y : BitVec w) : c.register x y = c.mask x y := by
  cases c with
  | equal => exact Register.isEqual_eq x y
  | less => exact Register.isLess_eq x y
  | greater => exact Register.isGreater_eq x y
  | atMost => exact Register.isAtMost_eq x y
  | atLeast => exact Register.isAtLeast_eq x y

theorem Connective.register_eq (c : Connective) (m₁ m₂ : Mask w) : c.register m₁ m₂ = c.mask m₁ m₂ := by
  cases c with
  | and | andInto => exact Register.and_eq m₁ m₂
  | or | orInto => exact Register.or_eq m₁ m₂
  | xor => exact Register.xor_eq m₁ m₂

namespace Formula

/-- The mask of a formula is the mask of its answer, since every operation makes such masks out of such masks. -/
theorem mask_eq (f : Formula w) : f.mask = ofBool f.holds := by
  induction f with
  | constant answer => rfl
  | test t v => exact t.mask_eq v
  | compare c x y => exact c.mask_eq x y
  | within v lo hi => exact isWithin_eq v lo hi
  | anyOf v accepted => rw [mask, isAnyOf_eq, List.contains_eq_mem, holds]
  | not f ih => rw [mask, ih, not_ofBool, holds]
  | combine c f g ihf ihg => rw [mask, ihf, ihg, c.mask_eq, holds]
  | narrow h f ih => rw [mask, ih, narrow_ofBool (Nat.le_of_lt h), holds]

theorem register_eq (f : Formula w) : f.register = f.mask := by
  induction f with
  | constant answer => rw [register, Register.yes_eq, mask]
  | test t v => exact t.register_eq v
  | compare c x y => exact c.register_eq x y
  | within v lo hi => exact Register.isWithin_eq v lo hi
  | anyOf v accepted => exact Register.isAnyOf_eq v accepted
  | not f ih => rw [register, ih, Register.not_eq, mask]
  | combine c f g ihf ihg => rw [register, ihf, ihg, c.register_eq, mask]
  | narrow h f ih => rw [register, ih, mask]

/-- The mask of a formula says what the formula says. -/
structure Faithful (f : Formula w) : Prop where
  /-- It is all ones or all zeros. -/
  value_eq : f.mask.value = if f.holds then BitVec.allOnes w else 0#w
  toNat_value : f.mask.value.toNat = if f.holds then 2 ^ w - 1 else 0
  toBool_eq : f.mask.toBool = f.holds
  /-- It chooses as the answer of the formula would. -/
  select_eq : ∀ x y, f.mask.select x y = if f.holds then x else y
  keepIf_eq : ∀ x, f.mask.keepIf x = if f.holds then x else 0#w
  keepUnless_eq : ∀ x, f.mask.keepUnless x = if f.holds then 0#w else x
  /-- It makes no difference to compute in registers. -/
  register_eq : f.register = f.mask
  register_toBool : Register.toBool f.register = f.holds
  register_select : ∀ x y, Register.select f.register x y = if f.holds then x else y
  register_keepIf : ∀ x, Register.keepIf f.register x = if f.holds then x else 0#w
  register_keepUnless : ∀ x, Register.keepUnless f.register x = if f.holds then 0#w else x

/-- **Masks are faithful**: at every width, and however comparisons of words were combined and cut to narrower words,
the mask is all ones or all zeros as the same comparisons of natural numbers say, and it chooses accordingly. -/
theorem faithful (hw : 0 < w) (f : Formula w) : f.Faithful := by
  have hvalue : f.mask.value = if f.holds then BitVec.allOnes w else 0#w := by
    rw [mask_eq]
    cases f.holds <;> rfl
  have htoBool : f.mask.toBool = f.holds := by rw [mask_eq, toBool_ofBool hw]
  have hselect : ∀ x y, f.mask.select x y = if f.holds then x else y := fun x y => by rw [mask_eq, select_ofBool]
  have hkeepIf : ∀ x, f.mask.keepIf x = if f.holds then x else 0#w := fun x => by rw [mask_eq, keepIf_ofBool]
  have hkeepUnless : ∀ x, f.mask.keepUnless x = if f.holds then 0#w else x := fun x => by
    rw [mask_eq, keepUnless_ofBool]
  constructor
  case value_eq => exact hvalue
  case toNat_value =>
    rw [hvalue]
    cases f.holds with
    | false => exact BitVec.toNat_zero
    | true => exact BitVec.toNat_allOnes
  case toBool_eq => exact htoBool
  case select_eq => exact hselect
  case keepIf_eq => exact hkeepIf
  case keepUnless_eq => exact hkeepUnless
  case register_eq => exact f.register_eq
  case register_toBool => rw [f.register_eq, Register.toBool_eq, htoBool]
  case register_select =>
    intro x y
    rw [f.register_eq, Register.select_eq, hselect]
  case register_keepIf =>
    intro x
    rw [f.register_eq, Register.keepIf_eq, hkeepIf]
  case register_keepUnless =>
    intro x
    rw [f.register_eq, Register.keepUnless_eq, hkeepUnless]

/-- A comparison of 64-bit words, cut to a byte and combined with another, is all ones and chooses the first byte. -/
theorem faithful_narrowed :
    let f : Formula 8 := .combine .andInto (.narrow (by decide) (.compare .atLeast 0x80000000#64 0x7FFFFFFF#64))
      (.not (.within 0x7F#8 0x80#8 0xFF#8))
    0 < 8 ∧ f.holds = true ∧ f.mask.value = 0xFF#8 ∧ ∀ x y, Register.select f.register x y = x := by
  intro f
  have hw : 0 < 8 := by decide
  have hf : f.holds = true := by decide
  have h := faithful hw f
  refine ⟨hw, hf, ?_, ?_⟩
  · rw [h.value_eq, hf]
    rfl
  · intro x y
    rw [h.register_select, hf]
    rfl

end Formula

end KeyWrapping.Mask
