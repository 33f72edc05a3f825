import KeyWrapping.Proofs.OperationDemands
import KeyWrapping.Wrap.Service

/-!
# What becomes of the caller's buffer

An operation into a caller's buffer (`Operation`) delivers the result of its demand (`Operation.into_eq`). So a buffer
ends up with the whole result at its front, or with zeros after a forgery, or as it was, and a complaint about its size
names the size that is right (`Operation.Settled`). What the six operations do not share is how much of the buffer a
forgery costs (`Operation.cost`) and whether there is sure to be a result once there is room
(`Operation.OnlyNeedsRoom`).
-/

namespace KeyWrapping

/-- How long the buffer for a result should be, as the caller of a service with `n` bytes of data is told. -/
def Service.foretold : Service → (n : UInt64) → UInt64
  | wrap => Unpadded.wrappedLength
  | unwrap | unwrapPadded => Unpadded.unwrappedLength
  | wrapPadded => Padded.wrappedLength

/-- What can be asked for in a caller's buffer: a service of the wrapping register under a cipher, or a service with a
header of an object, which may have been moved from. -/
inductive Operation where
  | register (service : Service) {a : Algorithm} (c : Cipher a) (data : Bytes)
  | headed (service : BeltKek.Service) (object : Object BeltKek) (data header : Bytes)

namespace Operation

def data : Operation → Bytes
  | register _ _ data => data
  | headed _ _ data _ => data

/-- What the caller gets who lends a buffer. -/
def into : Operation → (buffer : Bytes) → Delivery
  | register service c data, buffer => service.runInto c data buffer
  | headed service object data header, buffer => service.runInto (object.content.map BeltKek.cipher) data header buffer

/-- What the caller gets who lends none. -/
def result : Operation → Except Error Bytes
  | register service c data => service.run c data
  | headed service object data header => service.run (object.content.map BeltKek.cipher) data header

/-- How many bytes of a buffer of `size` bytes a forgery costs, if the operation can come upon one. -/
def cost (size : Nat) : Operation → Option Nat
  | register .wrap _ _ | register .wrapPadded _ _ | headed .wrap _ _ _ => none
  | register .unwrap _ wrapped => some (wrapped.length - 8)
  | register .unwrapPadded _ _ => some size
  | headed .unwrap _ wrapped _ => some (wrapped.length - 16)

/-- Once the operation asks for room, nothing else can be missing. -/
def OnlyNeedsRoom : Operation → Prop
  | register .wrap c _ | register .wrapPadded c _ => c.isKeyed = true
  | register .unwrapPadded _ _ => True
  | headed .wrap object _ _ => ∃ k, object = .holding k ∧ k.cipher.isKeyed = true
  | register .unwrap _ _ | headed .unwrap _ _ _ => False

/-! ## The demands of the operations -/

def demand : Operation → Demand
  | register .wrap c key => Unpadded.wrapDemand c key
  | register .unwrap c wrapped => Unpadded.unwrapDemand c wrapped
  | register .wrapPadded c key => Padded.wrapDemand c key
  | register .unwrapPadded c wrapped => Padded.unwrapDemand c wrapped
  | headed .wrap object key header => Headed.wrapDemand (object.content.map BeltKek.cipher) key header
  | headed .unwrap object wrapped header => Headed.unwrapDemand (object.content.map BeltKek.cipher) wrapped header

def forged : Operation → Bytes → Bytes
  | register .wrap _ _ | register .wrapPadded _ _ | headed .wrap _ _ _ => id
  | register .unwrap _ wrapped => Bytes.wipeFront (wrapped.length - 8)
  | register .unwrapPadded _ _ => Bytes.wipe
  | headed .unwrap _ wrapped _ => Bytes.wipeFront (wrapped.length - 16)

variable (op : Operation)

theorem into_eq (buffer : Bytes) : op.into buffer = .ofResult (op.demand.within buffer.length) op.forged buffer := by
  cases op with
  | register service c data =>
    cases service with
    | wrap => exact congrArg (Delivery.ofResult · id buffer) (Unpadded.wrapWithin_eq_within c data _)
    | unwrap => exact congrArg (Delivery.ofResult · _ buffer) (Unpadded.unwrapWithin_eq_within c data _)
    | wrapPadded => exact congrArg (Delivery.ofResult · id buffer) (Padded.wrapWithin_eq_within c data _)
    | unwrapPadded => exact congrArg (Delivery.ofResult · _ buffer) (Padded.unwrapWithin_eq_within c data _)
  | headed service object data header =>
    cases service with
    | wrap => exact congrArg (Delivery.ofResult · id buffer) (Headed.wrapWithin_eq_within data header _)
    | unwrap => exact congrArg (Delivery.ofResult · _ buffer) (Headed.unwrapWithin_eq_within data header _)

theorem exact_demand : op.demand.Exact := by
  cases op with
  | register service c data =>
    cases service with
    | wrap => exact Unpadded.exact_wrapDemand c data
    | unwrap => exact Unpadded.exact_unwrapDemand c data
    | wrapPadded => exact Padded.exact_wrapDemand c data
    | unwrapPadded => exact Padded.exact_unwrapDemand c data
  | headed service object data header =>
    cases service with
    | wrap => exact Headed.exact_wrapDemand data header (BeltKek.never_content (by decide) object)
    | unwrap => exact Headed.exact_unwrapDemand data header (BeltKek.never_content (by decide) object)

/-- A buffer of just the size that is asked for is filled. -/
theorem whole_into {n : Nat} (h : op.demand.IsFor n) : (op.into (.zeros n)).whole = op.demand.result := by
  rw [into_eq]
  exact op.exact_demand.whole_ofResult h _

theorem bytes_into_of_le {buffer : Bytes} (h : op.demand.required ≤ buffer.length) :
    (op.into buffer).bytes = op.demand.result := by
  rw [into_eq]
  exact Demand.bytes_ofResult h _

variable {op}

theorem fulfilled_demand (h : op.OnlyNeedsRoom) : op.demand.Fulfilled := by
  cases op with
  | register service c data =>
    cases service with
    | wrap => exact Demand.fulfilled_ofWrapping h
    | unwrap => exact h.elim
    | wrapPadded => exact Demand.fulfilled_ofWrapping h
    | unwrapPadded => exact Padded.fulfilled_unwrapDemand c data
  | headed service object data header =>
    cases service with
    | wrap =>
      obtain ⟨k, rfl, hk⟩ := h
      exact Headed.fulfilled_wrapDemand data header hk
    | unwrap => exact h.elim

/-- A forgery costs what it should; in a buffer that is too short for that, it is not noticed. -/
theorem forged_eq {e : Error} (he : op.demand.result = .error e) (hk : e.kind = .invalidTag) {buffer : Bytes}
    (hroom : op.demand.required ≤ buffer.length) :
    ∃ n, op.cost buffer.length = some n ∧ n ≤ buffer.length ∧ op.forged buffer = .zeros n ++ buffer.drop n := by
  cases op with
  | register service c data =>
    cases service with
    | wrap =>
      have hp := c.never_permutation (k := .invalidTag) (by decide)
      exact absurd hk (Demand.never_result_ofWrapping c (by decide) (never_ensure (by simp [Error.kind])) hp e he)
    | wrapPadded =>
      have hp := c.never_permutation (k := .invalidTag) (by decide)
      exact absurd hk (Demand.never_result_ofWrapping c (by decide) (never_ensure (by simp [Error.kind])) hp e he)
    | unwrap =>
      have hn := (Unpadded.isFor_unwrapDemand c data).required_eq he hk
      exact ⟨data.length - 8, rfl, hn ▸ hroom, Bytes.wipeFront_of_le (hn ▸ hroom)⟩
    | unwrapPadded =>
      refine ⟨buffer.length, rfl, Nat.le_refl _, ?_⟩
      rw [List.drop_length, List.append_nil]
      rfl
  | headed service object data header =>
    cases service with
    | wrap =>
      have hc := BeltKek.never_content (k := .invalidTag) (by decide) object
      have hp : ∀ c, object.content.map BeltKek.cipher = .ok c → Never .invalidTag c.permutation :=
        fun c _ => c.never_permutation (by decide)
      exact absurd hk (Headed.never_result_wrapDemand data header (by decide) (by decide) hc hp e he)
    | unwrap =>
      have hn := (Headed.isFor_unwrapDemand data header).required_eq he hk
      exact ⟨data.length - 16, rfl, hn ▸ hroom, Bytes.wipeFront_of_le (hn ▸ hroom)⟩

/-! ## Without a buffer of the caller's -/

/-- How much room is made for the result if the caller lends none. -/
def room : Operation → Nat
  | register service _ data => (service.foretold data.length.toUInt64).toNat
  | headed service _ data _ => service.resultLength data.length

section Room

variable (h64 : op.data.length < 2 ^ 64)
include h64

theorem required_le_room : op.demand.required ≤ op.room := by
  cases op with
  | register service c data =>
    have hlength : (Unpadded.unwrappedLength data.length.toUInt64).toNat = data.length - 8 :=
      Unpadded.toNat_unwrappedLength h64
    cases service with
    | wrap => exact (Unpadded.isFor_wrappedLength c data).required_le
    | unwrap => exact Nat.le_trans (Unpadded.isFor_unwrapDemand c data).required_le (Nat.le_of_eq hlength.symm)
    | wrapPadded => exact (Padded.isFor_wrappedLength c data).required_le
    | unwrapPadded => exact Nat.le_trans (Padded.required_unwrapDemand_le c data) (Nat.le_of_eq hlength.symm)
  | headed service object data header =>
    cases service with
    | wrap => exact (Headed.isFor_wrapDemand data header).required_le
    | unwrap => exact (Headed.isFor_unwrapDemand data header).required_le

/-- Without a buffer of the caller's, too, the result is that of the demand. -/
theorem result_eq : op.result = op.demand.result := by
  cases op with
  | register service c data =>
    have hlength : (Unpadded.unwrappedLength data.length.toUInt64).toNat = data.length - 8 :=
      Unpadded.toNat_unwrappedLength h64
    cases service with
    | wrap => exact whole_into (register .wrap c data) (Unpadded.isFor_wrappedLength c data)
    | unwrap =>
      have hfor : (Unpadded.unwrapDemand c data).IsFor (Unpadded.unwrappedLength data.length.toUInt64).toNat :=
        hlength ▸ Unpadded.isFor_unwrapDemand c data
      exact whole_into (register .unwrap c data) hfor
    | wrapPadded => exact whole_into (register .wrapPadded c data) (Padded.isFor_wrappedLength c data)
    | unwrapPadded =>
      -- the only result that need not fill the room, so it is cut off
      have hroom := required_le_room h64
      rw [← Bytes.length_zeros (room _)] at hroom
      exact bytes_into_of_le (register .unwrapPadded c data) hroom
  | headed service object data header =>
    cases service with
    | wrap => exact whole_into (headed .wrap object data header) (Headed.isFor_wrapDemand data header)
    | unwrap => exact whole_into (headed .unwrap object data header) (Headed.isFor_unwrapDemand data header)

end Room

/-! ## How an operation leaves the buffer -/

/-- How an operation ends for the caller's buffer: with a result, with a forgery noticed, or with another failure. -/
structure Settled (op : Operation) (buffer : Bytes) : Prop where
  /-- What is delivered is the whole result, and so in every buffer with room for it. -/
  delivered : ∀ n, (op.into buffer).outcome = .ok n →
    ∃ bytes, bytes.length = n ∧ n ≤ buffer.length ∧ (op.into buffer).buffer = bytes ++ buffer.drop n ∧
      (∀ other : Bytes, n ≤ other.length → op.into other = ⟨.ok n, bytes ++ other.drop n⟩) ∧
      (op.data.length < 2 ^ 64 → op.result = .ok bytes)
  /-- A result that fits is delivered. -/
  complete : op.data.length < 2 ^ 64 → ∀ bytes, op.result = .ok bytes → bytes.length ≤ buffer.length →
    (op.into buffer).outcome = .ok bytes.length
  /-- A forgery leaves zeros. -/
  forged : ∀ e, (op.into buffer).outcome = .error e → e.kind = .invalidTag →
    ∃ n, op.cost buffer.length = some n ∧ n ≤ buffer.length ∧ (op.into buffer).buffer = .zeros n ++ buffer.drop n
  /-- Any other failure leaves the buffer alone. -/
  failed : ∀ e, (op.into buffer).outcome = .error e → e.kind ≠ .invalidTag → (op.into buffer).buffer = buffer
  /-- A buffer is only called too short if it is, and one of the size that is asked for is not. -/
  short : ∀ algorithm required provided,
    (op.into buffer).outcome = .error (.bufferTooSmall algorithm required provided) →
      provided = buffer.length ∧ buffer.length < required ∧
      ∀ other : Bytes, other.length = required →
        (∀ e, (op.into other).outcome = .error e → e.kind ≠ .bufferTooSmall) ∧
        (op.OnlyNeedsRoom → (op.into other).outcome = .ok required)

/-! ### By what the demand comes to -/

section Outcomes

variable {buffer : Bytes}

theorem into_of_ok {bytes : Bytes} (h : op.demand.within buffer.length = .ok bytes) :
    op.into buffer = ⟨.ok bytes.length, buffer.overwrite bytes⟩ := by
  rw [into_eq, h]
  rfl

theorem into_of_error {e : Error} (h : op.demand.within buffer.length = .error e) :
    op.into buffer = ⟨.error e, if e.isForgery then op.forged buffer else buffer⟩ := by
  rw [into_eq, h]
  rfl

theorem within_of_outcome_eq_ok {n : Nat} (h : (op.into buffer).outcome = .ok n) :
    ∃ bytes, op.demand.within buffer.length = .ok bytes ∧ bytes.length = n := by
  cases hw : op.demand.within buffer.length with
  | ok bytes =>
    rw [into_of_ok hw] at h
    exact ⟨bytes, rfl, Except.ok.inj h⟩
  | error e =>
    rw [into_of_error hw] at h
    cases h

theorem within_of_outcome_eq_error {e : Error} (h : (op.into buffer).outcome = .error e) :
    op.demand.within buffer.length = .error e := by
  cases hw : op.demand.within buffer.length with
  | ok bytes =>
    rw [into_of_ok hw] at h
    cases h
  | error e' =>
    rw [into_of_error hw] at h
    cases h
    rfl

theorem into_of_result {bytes : Bytes} (h : op.demand.result = .ok bytes) (hroom : bytes.length ≤ buffer.length) :
    op.into buffer = ⟨.ok bytes.length, bytes ++ buffer.drop bytes.length⟩ := by
  have hlength := op.exact_demand.length_eq bytes h
  rw [into_of_ok ((Demand.within_of_le (hlength ▸ hroom)).trans h)]
  rfl

theorem not_short_of_length_eq (h : buffer.length = op.demand.required) {e : Error}
    (he : (op.into buffer).outcome = .error e) : e.kind ≠ .bufferTooSmall := by
  apply op.exact_demand.never_short
  rw [← Demand.within_of_le (Nat.le_of_eq h.symm)]
  exact within_of_outcome_eq_error he

end Outcomes

/-- **Callers' buffers never receive anything but a whole result or zeros**, and a complaint about the size of a buffer
names the right size. -/
theorem buffer_settled (op : Operation) (buffer : Bytes) : op.Settled buffer where
  delivered := by
    intro n h
    obtain ⟨bytes, hw, rfl⟩ := within_of_outcome_eq_ok h
    obtain ⟨hroom, hresult⟩ := Demand.of_within_eq_ok hw
    have hlength := op.exact_demand.length_eq bytes hresult
    refine ⟨bytes, rfl, hlength ▸ hroom, congrArg Delivery.buffer (into_of_ok hw), ?_, ?_⟩
    · intro other ho
      exact into_of_result hresult ho
    · intro h64
      exact (result_eq h64).trans hresult
  complete := by
    intro h64 bytes hbytes hroom
    rw [result_eq h64] at hbytes
    rw [into_of_result hbytes hroom]
  forged := by
    intro e h hk
    have hw := within_of_outcome_eq_error h
    obtain ⟨hroom, hresult⟩ := Demand.of_within_eq_error hw (by rw [hk]; decide)
    obtain ⟨n, hcost, hn, hforged⟩ := forged_eq hresult hk hroom
    refine ⟨n, hcost, hn, ?_⟩
    rw [into_of_error hw, if_pos ((Error.isForgery_eq_true_iff e).mpr hk)]
    exact hforged
  failed := by
    intro e h hk
    rw [into_of_error (within_of_outcome_eq_error h), if_neg (mt (Error.isForgery_eq_true_iff e).mp hk)]
  short := by
    intro algorithm required provided h
    obtain ⟨rfl, hprovided, hlt⟩ := op.exact_demand.of_within_eq_bufferTooSmall (within_of_outcome_eq_error h)
    refine ⟨hprovided, hlt, fun other hother => ⟨fun e he => not_short_of_length_eq hother he, ?_⟩⟩
    intro honly
    obtain ⟨bytes, hresult⟩ := fulfilled_demand honly (Nat.zero_lt_of_lt hlt)
    have hlength := op.exact_demand.length_eq bytes hresult
    rw [into_of_result hresult (Nat.le_of_eq (hlength.trans hother.symm)), hlength]

/-- Room is asked for before the missing key is noticed. -/
example : (register .wrap (Cipher.fresh Belt.algorithm) (.zeros 16)).into [1, 2, 3] =
    ⟨.error (.bufferTooSmall "NIST key wrap" 24 3), [1, 2, 3]⟩ := rfl

end Operation

end KeyWrapping
