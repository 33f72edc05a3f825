import KeyWrapping.Kek.Belt
import KeyWrapping.Proofs.Demands
import KeyWrapping.Proofs.HeadedExact
import KeyWrapping.Proofs.PaddedExact

/-!
# The demands of the operations

Each operation is what its demand comes to within the room that there is (`wrapWithin_eq_within`,
`unwrapWithin_eq_within`), and the demand is exact. Unwrapping with padding asks for room last: how much is stated by
the input, which has to be found authentic first. All other operations ask before they look for a key, for a room that
depends on the length of the input only (`Demand.IsFor`).
-/

namespace KeyWrapping

/-! ## Ciphers -/

theorem Cipher.never_permutation {a : Algorithm} {k : ErrorKind} (hk : k ≠ .keyNotSet) (c : Cipher a) :
    Never k c.permutation := by
  unfold permutation
  split
  · exact never_error hk.symm
  · exact never_ok _

theorem Cipher.never_permutation128 {a : Algorithm} {k : ErrorKind} {c : Cipher a} (hp : Never k c.permutation)
    (h : a.blockSize = 16) : Never k (c.permutation128 h) :=
  never_bind hp fun _ _ => never_ok _

/-- An object lacks its cipher only because it was moved from. -/
theorem BeltKek.never_content {k : ErrorKind} (hk : k ≠ .invalidState) (object : Object BeltKek) :
    Never k (object.content.map cipher) := by
  cases object with
  | holding kek => exact never_ok kek.cipher
  | movedFrom => exact never_error hk.symm

/-! ## Wrapping under a cipher of 128-bit blocks -/

namespace Demand

variable {a : Algorithm}

/-- The demand of wrapping: `check` looks at the key alone, and then `n` bytes of room are asked for. -/
def ofWrapping (c : Cipher a) (check : Except Error Unit) (n : Nat) (wrapping : Permutation 16 → Bytes) : Demand :=
  .after128 a fun h =>
    .after check fun _ =>
      ⟨"NIST key wrap", n, do
        let p ← c.permutation128 h
        return wrapping p⟩

variable (c : Cipher a) {check : Except Error Unit} {n : Nat} {wrapping : Permutation 16 → Bytes}

theorem exact_ofWrapping (hcheck : Never .bufferTooSmall check) (h : ∀ u p, check = .ok u → (wrapping p).length = n) :
    (ofWrapping c check n wrapping).Exact := by
  apply exact_after128
  intro h16
  apply exact_after hcheck
  intro u hu
  apply exact_bind (Cipher.never_permutation128 (c.never_permutation (by decide)) h16)
  intro p _
  exact exact_ok (h u p hu)

theorem isFor_ofWrapping {n' : Nat} (hcheck : Never .invalidTag check) (h : ∀ u, check = .ok u → n = n') :
    (ofWrapping c check n wrapping).IsFor n' := by
  apply isFor_after128
  intro h16
  apply isFor_after hcheck
  intro u hu
  exact Or.inl (h u hu)

theorem never_result_ofWrapping {k : ErrorKind} (hk : k ≠ .invalidArgument) (hcheck : Never k check)
    (hp : Never k c.permutation) : Never k (ofWrapping c check n wrapping).result := by
  apply never_result_after128 hk
  intro h16
  apply never_result_after hcheck
  intro _ _
  exact never_bind (Cipher.never_permutation128 hp h16) fun _ _ => never_ok _

/-- A keyed cipher wraps whatever passes the check. -/
theorem fulfilled_ofWrapping {c : Cipher a} (hc : c.isKeyed = true) : (ofWrapping c check n wrapping).Fulfilled := by
  apply fulfilled_after128
  intro h16
  obtain ⟨p, hp⟩ := c.exists_keyed128 h16 hc
  apply fulfilled_after
  intro _ _ _
  exact ⟨wrapping p, by rw [hp.permutation, ok_bind]; rfl⟩

end Demand

/-! ## Without padding -/

namespace Unpadded

variable {a : Algorithm} (c : Cipher a)

def checkKey (key : Bytes) : Except Error Unit :=
  ensure (16 ≤ key.length && key.length % 8 == 0 && key.length / 8 ≤ max32)
    (.invalidDataLength "NIST key wrap" key.length)

def wrapDemand (key : Bytes) : Demand :=
  .ofWrapping c (checkKey key) (key.length + 8) fun p => (Register.wrap p (register key)).toBytes

def unwrapDemand (wrapped : Bytes) : Demand :=
  .after128 a fun h =>
    .after (ensure (24 ≤ wrapped.length && wrapped.length % 8 == 0)
      (.invalidDataLength "NIST key unwrap" wrapped.length))
      fun _ =>
        ⟨"NIST key wrap", wrapped.length - 8, do
          let p ← c.permutation128 h
          let r := Register.unwrap p (.ofBytes wrapped)
          ensure (Mask.isEqual r.integrity.toBitVec integrity.toBitVec).toBool (.invalidTag "NIST key unwrap failed")
          return r.dataBytes⟩

theorem wrapWithin_eq_within (key : Bytes) (space : Nat) :
    wrapWithin c key space = (wrapDemand c key).within space := by
  simp only [wrapDemand, Demand.ofWrapping, Demand.within_after128, Demand.within_after]
  rfl

theorem unwrapWithin_eq_within (wrapped : Bytes) (space : Nat) :
    unwrapWithin c wrapped space = (unwrapDemand c wrapped).within space := by
  simp only [unwrapDemand, Demand.within_after128, Demand.within_after]
  rfl

theorem length_of_checkKey {key : Bytes} {u : Unit} (h : checkKey key = .ok u) :
    key.length % 8 = 0 ∧ 16 ≤ key.length ∧ key.length / 8 ≤ max32 := by
  simp only [checkKey, ensure_eq_ok_iff, Bool.and_eq_true, decide_eq_true_iff, beq_iff_eq] at h
  exact ⟨h.1.2, h.1.1, h.2⟩

theorem exact_wrapDemand (key : Bytes) : (wrapDemand c key).Exact := by
  apply Demand.exact_ofWrapping c (never_ensure (by simp [Error.kind]))
  intro u p hu
  have hl := length_of_checkKey hu
  rw [Register.length_toBytes, Register.length_data_wrap, length_data_register]
  omega

theorem exact_unwrapDemand (wrapped : Bytes) : (unwrapDemand c wrapped).Exact := by
  apply Demand.exact_after128
  intro h16
  apply Demand.exact_after (never_ensure (by simp [Error.kind]))
  intro _ hl
  simp only [ensure_eq_ok_iff, Bool.and_eq_true, decide_eq_true_iff, beq_iff_eq] at hl
  apply Demand.exact_bind (Cipher.never_permutation128 (c.never_permutation (by decide)) h16)
  intro p _
  apply Demand.exact_bind (never_ensure (by simp [Error.kind]))
  intro _ _
  exact Demand.exact_ok (length_dataBytes_unwrap p hl.2)

theorem isFor_wrapDemand (key : Bytes) : (wrapDemand c key).IsFor (key.length + 8) :=
  Demand.isFor_ofWrapping c (never_ensure (by simp [Error.kind])) fun _ _ => rfl

/-- What wrapping asks for is never too large to be foretold. -/
theorem isFor_wrappedLength (key : Bytes) : (wrapDemand c key).IsFor (wrappedLength key.length.toUInt64).toNat := by
  apply Demand.isFor_ofWrapping c (never_ensure (by simp [Error.kind]))
  intro u hu
  have hmax := (length_of_checkKey hu).2.2
  rw [max32] at hmax
  exact (toNat_wrappedLength (by omega)).symm

theorem isFor_unwrapDemand (wrapped : Bytes) : (unwrapDemand c wrapped).IsFor (wrapped.length - 8) := by
  apply Demand.isFor_after128
  intro h16
  exact Demand.isFor_after (never_ensure (by simp [Error.kind])) fun _ _ => Or.inl rfl

end Unpadded

/-! ## With padding -/

namespace Padded

variable {a : Algorithm} (c : Cipher a)

def checkKey (key : Bytes) : Except Error Unit :=
  ensure (0 < key.length && key.length ≤ max32) (.invalidDataLength "NIST key wrap with padding" key.length)

def wrapDemand (key : Bytes) : Demand :=
  .ofWrapping c (checkKey key) (key.length + paddingLength key.length + 8) fun p => wrapRegister p (register key)

/-- The content of a wrapping, which is looked at before the room is. -/
def authenticContent (wrapped : Bytes) (h : a.blockSize = 16) : Except Error Register := do
  ensure (16 ≤ wrapped.length && wrapped.length % 8 == 0)
    (.invalidDataLength "NIST key unwrap with padding" wrapped.length)
  let p ← c.permutation128 h
  let r := content p wrapped
  ensure (isAuthentic r.integrity.toBitVec r.dataBytes).toBool (.invalidTag "NIST key unwrap failed")
  return r

def unwrapDemand (wrapped : Bytes) : Demand :=
  .after128 a fun h =>
    .after (authenticContent c wrapped h) fun r =>
      ⟨"NIST key unwrap with padding", stated r, .ok (r.dataBytes.take (stated r))⟩

theorem wrapWithin_eq_within (key : Bytes) (space : Nat) :
    wrapWithin c key space = (wrapDemand c key).within space := by
  simp only [wrapDemand, Demand.ofWrapping, Demand.within_after128, Demand.within_after]
  rfl

theorem unwrapWithin_eq_within (wrapped : Bytes) (space : Nat) :
    unwrapWithin c wrapped space = (unwrapDemand c wrapped).within space := by
  simp only [unwrapDemand, authenticContent, Demand.within_after128, Demand.within_after, bind_assoc,
    ← toNat_statedLength]
  rfl

theorem exact_wrapDemand (key : Bytes) : (wrapDemand c key).Exact := by
  apply Demand.exact_ofWrapping c (never_ensure (by simp [Error.kind]))
  intro _ p _
  rw [length_wrapRegister, length_data_register, length_padded]

theorem isFor_wrapDemand (key : Bytes) : (wrapDemand c key).IsFor (key.length + paddingLength key.length + 8) :=
  Demand.isFor_ofWrapping c (never_ensure (by simp [Error.kind])) fun _ _ => rfl

theorem isFor_wrappedLength (key : Bytes) : (wrapDemand c key).IsFor (wrappedLength key.length.toUInt64).toNat := by
  apply Demand.isFor_ofWrapping c (never_ensure (by simp [Error.kind]))
  intro u hu
  simp only [ensure_eq_ok_iff, Bool.and_eq_true, decide_eq_true_iff] at hu
  exact (toNat_wrappedLength hu.2).symm

theorem stated_le_of_isAuthentic {r : Register} (h0 : r.data ≠ [])
    (h : (isAuthentic r.integrity.toBitVec r.dataBytes).toBool = true) : stated r ≤ r.dataBytes.length := by
  rcases Nat.lt_or_ge r.dataBytes.length (2 ^ 64) with h64 | h64
  · exact ((isAuthentic_eq_true_iff h0 h64).mp h).upper
  · -- here the comparison may wrap around, but no stated length is that long
    have hlt := stated_lt r
    omega

theorem never_short_authenticContent (wrapped : Bytes) (h : a.blockSize = 16) :
    Never .bufferTooSmall (authenticContent c wrapped h) := by
  apply never_bind (never_ensure (by simp [Error.kind]))
  intro _ _
  apply never_bind (Cipher.never_permutation128 (c.never_permutation (by decide)) h)
  intro p _
  exact never_bind (never_ensure (by simp [Error.kind])) fun _ _ => never_ok _

/-- An authentic content is a semiblock shorter than the wrapping, and states a length that is within. -/
theorem stated_le_of_authenticContent {wrapped : Bytes} {h : a.blockSize = 16} {r : Register}
    (hr : authenticContent c wrapped h = .ok r) :
    stated r ≤ r.dataBytes.length ∧ r.dataBytes.length = wrapped.length - 8 := by
  obtain ⟨_, hl, hr⟩ := exists_of_bind_eq_ok hr
  obtain ⟨p, -, hr⟩ := exists_of_bind_eq_ok hr
  obtain ⟨_, ha, hr⟩ := exists_of_bind_eq_ok hr
  cases hr
  simp only [ensure_eq_ok_iff, Bool.and_eq_true, decide_eq_true_iff, beq_iff_eq] at hl ha
  exact ⟨stated_le_of_isAuthentic (data_content_ne_nil p hl.1) ha, length_dataBytes_content p hl.2⟩

/-- Unwrapping is refused, or asks for the length that an authentic content states. -/
theorem unwrapDemand_cases {P : Demand → Prop} (wrapped : Bytes)
    (hauth : ∀ r : Register, stated r ≤ r.dataBytes.length → r.dataBytes.length = wrapped.length - 8 →
      P ⟨"NIST key unwrap with padding", stated r, .ok (r.dataBytes.take (stated r))⟩)
    (hrefused : ∀ e, e.kind ≠ .bufferTooSmall → P (.refused e)) : P (unwrapDemand c wrapped) := by
  apply Demand.after128_cases
  · intro h
    apply Demand.after_cases
    · intro r hr
      obtain ⟨hle, hlen⟩ := stated_le_of_authenticContent c hr
      exact hauth r hle hlen
    · intro e he
      exact hrefused e (never_short_authenticContent c wrapped h e he)
  · intro message
    exact hrefused _ (by simp [Error.kind])

theorem exact_unwrapDemand (wrapped : Bytes) : (unwrapDemand c wrapped).Exact := by
  apply unwrapDemand_cases
  · intro r hle _
    exact Demand.exact_ok (List.length_take_of_le hle)
  · intro e hk
    exact Demand.exact_refused hk

theorem required_unwrapDemand_le (wrapped : Bytes) : (unwrapDemand c wrapped).required ≤ wrapped.length - 8 := by
  apply unwrapDemand_cases (P := fun d => d.required ≤ wrapped.length - 8)
  · intro r hle hlen
    exact hlen ▸ hle
  · intro e _
    exact Nat.zero_le _

theorem fulfilled_unwrapDemand (wrapped : Bytes) : (unwrapDemand c wrapped).Fulfilled := by
  apply unwrapDemand_cases
  · intro r _ _ _
    exact ⟨_, rfl⟩
  · intro e _
    exact Demand.fulfilled_refused e

end Padded

/-! ## With a header -/

theorem WideBlock.never_result_run {k : ErrorKind} (hk : k ≠ .invalidDataLength) {p : Except Error (Permutation 16)}
    (hp : Never k p) (direction : Direction) (bytes : Bytes) : Never k (run p direction bytes).result := by
  unfold run
  split
  · exact never_error hk.symm
  · cases p with
    | ok p => exact never_ok _
    | error e => exact never_error (hp e rfl)

theorem WideBlock.length_of_result_run_eq_ok {p : Except Error (Permutation 16)} {direction : Direction}
    {bytes bytes' : Bytes} (h : (run p direction bytes).result = .ok bytes') : bytes'.length = bytes.length := by
  unfold run at h
  split at h
  · cases h
  · next hl =>
    cases p with
    | ok p =>
      cases h
      exact length_applied p (by omega) (by omega) direction
    | error e => cases h

namespace Headed

/-- What is looked at before the room is. -/
def checks (header : Bytes) (data : Bytes) (least : Nat) : Except Error Unit := do
  ensureHeader header
  ensure (least ≤ data.length && data.length % 16 == 0) (.invalidDataLength "BelT-KWP" data.length)

def wrapDemand (cipher : Except Error (Cipher Belt.algorithm)) (key header : Bytes) : Demand :=
  .after (checks header key 16) fun _ =>
    ⟨"BelT-KWP", key.length + headerLength, do
      let c ← cipher
      (WideBlock.run c.permutation .encrypt (key ++ header)).result⟩

def unwrapDemand (cipher : Except Error (Cipher Belt.algorithm)) (wrapped header : Bytes) : Demand :=
  .after (checks header wrapped 32) fun _ =>
    ⟨"BelT-KWP", wrapped.length - headerLength, do
      let c ← cipher
      let opened ← (WideBlock.run c.permutation .decrypt wrapped).result
      ensure (Bytes.constantTimeEqual (opened.drop (wrapped.length - headerLength)) header)
        (.invalidTag "BelT-KWP unwrap failed")
      return opened.take (wrapped.length - headerLength)⟩

section Checks

variable (header data : Bytes) (least : Nat)

theorem never_checks {k : ErrorKind} (ha : k ≠ .invalidArgument) (hl : k ≠ .invalidDataLength) :
    Never k (checks header data least) :=
  never_bind (never_ensure ha.symm) fun _ _ => never_ensure hl.symm

variable {header data least}

theorem length_header_of_checks {u : Unit} (h : checks header data least = .ok u) : header.length = 16 := by
  obtain ⟨_, hh, -⟩ := exists_of_bind_eq_ok h
  rw [ensureHeader, ensure_eq_ok_iff, beq_iff_eq] at hh
  exact hh

theorem le_length_of_checks {u : Unit} (h : checks header data least = .ok u) :
    least ≤ data.length ∧ data.length % 16 = 0 := by
  obtain ⟨_, -, hl⟩ := exists_of_bind_eq_ok h
  simpa only [ensure_eq_ok_iff, Bool.and_eq_true, decide_eq_true_iff, beq_iff_eq] using hl

end Checks

variable {cipher : Except Error (Cipher Belt.algorithm)} (data header : Bytes)

theorem wrapWithin_eq_within (space : Nat) :
    wrapWithin cipher data header space = (wrapDemand cipher data header).within space := by
  rw [wrapDemand, Demand.within_after, checks, bind_assoc]
  rfl

theorem unwrapWithin_eq_within (space : Nat) :
    unwrapWithin cipher data header space = (unwrapDemand cipher data header).within space := by
  rw [unwrapDemand, Demand.within_after, checks, bind_assoc]
  rfl

theorem exact_wrapDemand (hc : Never .bufferTooSmall cipher) : (wrapDemand cipher data header).Exact := by
  apply Demand.exact_after (never_checks _ _ _ (by decide) (by decide))
  intro _ hchecks
  apply Demand.exact_bind hc
  intro c _
  refine ⟨?_, WideBlock.never_result_run (by decide) (c.never_permutation (by decide)) _ _⟩
  intro bytes hb
  rw [WideBlock.length_of_result_run_eq_ok hb, List.length_append, length_header_of_checks hchecks]
  rfl

theorem exact_unwrapDemand (hc : Never .bufferTooSmall cipher) : (unwrapDemand cipher data header).Exact := by
  apply Demand.exact_after (never_checks _ _ _ (by decide) (by decide))
  intro _ _
  apply Demand.exact_bind hc
  intro c _
  apply Demand.exact_bind (WideBlock.never_result_run (by decide) (c.never_permutation (by decide)) _ _)
  intro opened hopened
  apply Demand.exact_bind (never_ensure (by simp [Error.kind]))
  intro _ _
  have hlen := WideBlock.length_of_result_run_eq_ok hopened
  exact Demand.exact_ok (List.length_take_of_le (by omega))

theorem isFor_wrapDemand : (wrapDemand cipher data header).IsFor (data.length + 16) :=
  Demand.isFor_after (never_checks _ _ _ (by decide) (by decide)) fun _ _ => Or.inl rfl

theorem isFor_unwrapDemand : (unwrapDemand cipher data header).IsFor (data.length - 16) :=
  Demand.isFor_after (never_checks _ _ _ (by decide) (by decide)) fun _ _ => Or.inl rfl

theorem fulfilled_wrapDemand {c : Cipher Belt.algorithm} (hc : c.isKeyed = true) :
    (wrapDemand (.ok c) data header).Fulfilled := by
  apply Demand.fulfilled_after
  intro _ hchecks _
  obtain ⟨schedule, hs⟩ := Option.isSome_iff_exists.mp hc
  have hp : c.permutation = .ok (Belt.permutation schedule) := by
    rw [Cipher.permutation, hs]
    rfl
  have hh := length_header_of_checks hchecks
  obtain ⟨h16, h0⟩ := le_length_of_checks hchecks
  have hlen := length_append_header hh data
  exact ⟨_, result_run_eq hp .encrypt (by omega) (by omega)⟩

theorem never_result_wrapDemand {k : ErrorKind} (ha : k ≠ .invalidArgument) (hl : k ≠ .invalidDataLength)
    (hc : Never k cipher) (hp : ∀ c, cipher = .ok c → Never k c.permutation) :
    Never k (wrapDemand cipher data header).result := by
  apply Demand.never_result_after (never_checks _ _ _ ha hl)
  intro _ _
  apply never_bind hc
  intro c hcipher
  exact WideBlock.never_result_run hl (hp c hcipher) _ _

end Headed

end KeyWrapping
