import KeyWrapping.Kek.Aes
import KeyWrapping.Proofs.CallerBuffers
import KeyWrapping.Proofs.FailedUnwraps

/-!
# All ways to a service lead to the same result

A service can be asked of an object, which hands out the result or writes it to the caller's buffer, of a single call
with the key encryption key, and of a cipher that was found by name and given the key. Each of these ways comes down to
an operation, and an operation comes to one result wherever there is room for it (`Operation.bytes_into`). The ways that
take no buffer of the caller's make room by themselves, and as much as is asked for (`Operation.required_le_room`,
`required_le_resultLength`), so none of them complains about it.
-/

namespace KeyWrapping

/-! ## Operations with room enough -/

namespace Operation

variable (op : Operation)

/-- Where there is as much room as the caller is told to make, the result is what is in front. -/
theorem bytes_into (h64 : op.data.length < 2 ^ 64) {buffer : Bytes} (h : op.room ≤ buffer.length) :
    (op.into buffer).bytes = op.result := by
  rw [result_eq h64]
  exact bytes_into_of_le op (Nat.le_trans (required_le_room h64) h)

theorem never_short_result (h64 : op.data.length < 2 ^ 64) : Never .bufferTooSmall op.result := by
  rw [result_eq h64]
  exact op.exact_demand.never_short

theorem never_short_whole {buffer : Bytes} (h : op.demand.required ≤ buffer.length) :
    Never .bufferTooSmall (op.into buffer).whole := by
  have hw := Demand.within_of_le h
  cases hr : op.demand.result with
  | ok bytes =>
    rw [into_of_ok (hw.trans hr)]
    exact never_ok _
  | error e =>
    rw [into_of_error (hw.trans hr)]
    exact never_error (op.exact_demand.never_short e hr)

end Operation

theorem required_le_resultLength (service : Service) {a : Algorithm} (c : Cipher a) (data : Bytes) :
    (Operation.register service c data).demand.required ≤ service.resultLength data.length := by
  cases service with
  | wrap => exact (Unpadded.isFor_wrapDemand c data).required_le
  | unwrap => exact (Unpadded.isFor_unwrapDemand c data).required_le
  | wrapPadded => exact (Padded.isFor_wrapDemand c data).required_le
  | unwrapPadded => exact Padded.required_unwrapDemand_le c data

theorem never_short_runFixed (service : Service) {a : Algorithm} (c : Cipher a) (data : Bytes) :
    Never .bufferTooSmall (service.runFixed c data) := by
  have hroom := required_le_resultLength service c data
  rw [← Bytes.length_zeros (service.resultLength data.length)] at hroom
  exact Operation.never_short_whole (.register service c data) hroom

/-! ## AES key encryption keys -/

namespace AesKek

/-- All ways to a service under an AES key encryption key lead to the result `r`; `k` is what is made of the key. -/
structure Leads (kek : Bytes) (k : AesKek) (service : Service) (data : Bytes) (r : Except Error Bytes) : Prop where
  /-- The cipher with the name for the length of the key, after it was given the key. -/
  named : ∃ (a : Algorithm) (c : Cipher a), Catalogue.find s!"AES-{8 * kek.length}" "" = .ok a ∧
    (Cipher.fresh a).setKey kek = .ok c ∧ service.run c data = r
  once : AesKek.once service kek data = r
  result : answer (.holding k) (.result service data) = .result r
  /-- A buffer may be longer than the caller is told to make it. -/
  into : ∀ buffer : Bytes, (service.foretold data.length.toUInt64).toNat ≤ buffer.length →
    ∃ d, answer (.holding k) (.into service data buffer) = .delivered d ∧ d.bytes = r
  /-- Only without padding is the length of the result known beforehand. -/
  fixed : service = .wrap ∨ service = .unwrap → answer (.holding k) (.fixed service data) = .result r

theorem ofBytes?_bytes (size : Aes.KeySize) : Aes.KeySize.ofBytes? size.bytes = some size := by
  cases size <;> rfl

theorem find_name (size : Aes.KeySize) : Catalogue.find size.name "" = .ok (Aes.algorithm size) := by
  cases size <;> rfl

theorem exists_size {n : Nat} (h : n ∈ [16, 24, 32]) : ∃ size : Aes.KeySize, size.bytes = n := by
  simp only [List.mem_cons, List.not_mem_nil, or_false] at h
  rcases h with rfl | rfl | rfl
  · exact ⟨.bits128, rfl⟩
  · exact ⟨.bits192, rfl⟩
  · exact ⟨.bits256, rfl⟩

theorem setKey_eq {size : Aes.KeySize} {kek : Bytes} (h : size.bytes = kek.length) :
    (Cipher.fresh (Aes.algorithm size)).setKey kek = .ok ⟨some (Aes.expand kek)⟩ := by
  have haccepts : (Aes.algorithm size).keyLengths.accepts kek.length = true := by
    rw [← h]
    exact (KeyLengths.accepts_exactly _ _).trans (beq_self_eq_true _)
  rw [Cipher.setKey, haccepts]
  rfl

theorem create_of_size {size : Aes.KeySize} {kek : Bytes} (h : size.bytes = kek.length) :
    create kek = .ok ⟨size, ⟨some (Aes.expand kek)⟩⟩ := by
  have hof : Aes.KeySize.ofBytes? kek.length = some size := h ▸ ofBytes?_bytes size
  simp only [create, hof, setKey_eq h, ok_bind]
  rfl

theorem create_of_badLength {kek : Bytes} (h : kek.length ∉ [16, 24, 32]) :
    create kek = .error (.invalidKeyLength "AES key wrap" kek.length) := by
  rw [create, (Foreign.ofBytes?_eq_none_iff kek.length).mpr h]

theorem exists_create_iff (kek : Bytes) : (∃ k, create kek = .ok k) ↔ kek.length ∈ [16, 24, 32] := by
  constructor
  · rintro ⟨k, hk⟩
    by_cases h : kek.length ∈ [16, 24, 32]
    · exact h
    · rw [create_of_badLength h] at hk
      cases hk
  · intro h
    obtain ⟨size, hsize⟩ := exists_size h
    exact ⟨_, create_of_size hsize⟩

theorem runFixed_eq {service : Service} (hservice : service = .wrap ∨ service = .unwrap) {a : Algorithm} (c : Cipher a)
    {data : Bytes} (h64 : data.length < 2 ^ 64) : service.runFixed c data = service.run c data := by
  let op : Operation := .register service c data
  have hresult : op.result = op.demand.result := Operation.result_eq h64
  refine Eq.trans ?_ hresult.symm
  rcases hservice with rfl | rfl
  · exact Operation.whole_into op (Unpadded.isFor_wrapDemand c data)
  · exact Operation.whole_into op (Unpadded.isFor_unwrapDemand c data)

theorem leads_of_create {kek : Bytes} {k : AesKek} (hk : create kek = .ok k) (service : Service) {data : Bytes}
    (h64 : data.length < 2 ^ 64) : Leads kek k service data (service.run k.cipher data) := by
  obtain ⟨size, hsize⟩ := exists_size ((exists_create_iff kek).mp ⟨k, hk⟩)
  have hcreate := create_of_size hsize
  obtain rfl : ⟨size, ⟨some (Aes.expand kek)⟩⟩ = k := Except.ok.inj (hcreate.symm.trans hk)
  constructor
  · refine ⟨Aes.algorithm size, ⟨some (Aes.expand kek)⟩, ?_, setKey_eq hsize, rfl⟩
    rw [← hsize]
    exact find_name size
  · rw [once, hcreate]
    rfl
  · rfl
  · intro buffer hbuffer
    exact ⟨_, rfl, Operation.bytes_into (.register service _ data) h64 hbuffer⟩
  · intro hservice
    exact congrArg Answer.result (runFixed_eq hservice _ h64)

/-- Whether it holds a key or was moved from, an object makes room enough. -/
theorem never_short_answer (object : Object AesKek) (service : Service) {data : Bytes} (h64 : data.length < 2 ^ 64)
    {r : Except Error Bytes}
    (h : answer object (.result service data) = .result r ∨ answer object (.fixed service data) = .result r) :
    Never .bufferTooSmall r := by
  have hcontent : Never .bufferTooSmall object.content := by
    cases object with
    | holding k => exact never_ok k
    | movedFrom => exact never_error (by simp [Error.kind])
  rcases h with h | h
  · cases h
    exact never_bind hcontent fun k _ => Operation.never_short_result (.register service k.cipher data) h64
  · cases h
    exact never_bind hcontent fun k _ => never_short_runFixed service k.cipher data

theorem never_short_once (service : Service) (kek : Bytes) {data : Bytes} (h64 : data.length < 2 ^ 64) :
    Never .bufferTooSmall (once service kek data) := by
  apply never_bind
  · by_cases h : kek.length ∈ [16, 24, 32]
    · obtain ⟨k, hk⟩ := (exists_create_iff kek).mpr h
      rw [hk]
      exact never_ok k
    · rw [create_of_badLength h]
      exact never_error (by simp [Error.kind])
  · intro k _
    exact Operation.never_short_result (.register service k.cipher data) h64

end AesKek

/-! ## BelT key encryption keys -/

namespace BeltKek

/-- All ways to a service of an object lead to the result `r`. -/
structure Leads (object : Object BeltKek) (service : Service) (data header : Bytes) (r : Except Error Bytes) :
    Prop where
  result : answer object (.result service data header) = .result r
  fixed : answer object (.fixed service data header) = .result r
  into : ∀ buffer : Bytes, service.resultLength data.length ≤ buffer.length →
    ∃ d, answer object (.into service data header buffer) = .delivered d ∧ d.bytes = r

theorem leads_run (object : Object BeltKek) (service : Service) {data : Bytes} (h64 : data.length < 2 ^ 64)
    (header : Bytes) : Leads object service data header (service.run (object.content.map cipher) data header) where
  result := rfl
  fixed := by
    cases service with
    | wrap => rfl
    | unwrap => rfl
  into := by
    intro buffer hbuffer
    exact ⟨_, rfl, Operation.bytes_into (.headed service object data header) h64 hbuffer⟩

theorem never_short_answer (object : Object BeltKek) (service : Service) {data : Bytes} (h64 : data.length < 2 ^ 64)
    (header : Bytes) {r : Except Error Bytes}
    (h : answer object (.result service data header) = .result r ∨
      answer object (.fixed service data header) = .result r) : Never .bufferTooSmall r := by
  have hleads := leads_run object service h64 header
  rw [hleads.result, hleads.fixed, or_self] at h
  cases h
  exact Operation.never_short_result (.headed service object data header) h64

end BeltKek

/-! ## All of them -/

/-- What the ways to the services have in common, as far as these data are concerned. -/
structure Agreeing (data : Bytes) : Prop where
  created : ∀ kek, (∃ k, AesKek.create kek = .ok k) ↔ kek.length ∈ [16, 24, 32]
  /-- A key of a length that AES does not have is refused by everything that takes one. -/
  badLength : ∀ kek : Bytes, kek.length ∉ [16, 24, 32] →
    AesKek.create kek = .error (.invalidKeyLength "AES key wrap" kek.length) ∧
    ∀ service, AesKek.once service kek data = .error (.invalidKeyLength "AES key wrap" kek.length)
  aes : ∀ kek k, AesKek.create kek = .ok k → ∀ service, ∃ r, AesKek.Leads kek k service data r
  belt : ∀ object service header, ∃ r, BeltKek.Leads object service data header r
  /-- Ciphers in whatever state, single calls, and objects that may have been moved from make room enough. -/
  never_short_run : ∀ (service : Service) {a : Algorithm} (c : Cipher a), Never .bufferTooSmall (service.run c data)
  never_short_once : ∀ service kek, Never .bufferTooSmall (AesKek.once service kek data)
  never_short_aes : ∀ object service r,
    AesKek.answer object (.result service data) = .result r ∨ AesKek.answer object (.fixed service data) = .result r →
      Never .bufferTooSmall r
  never_short_belt : ∀ object service header r,
    BeltKek.answer object (.result service data header) = .result r ∨
      BeltKek.answer object (.fixed service data header) = .result r → Never .bufferTooSmall r

/-- **All ways to a service agree**, for data of a length that fits 64 bits. -/
theorem ways_agree {data : Bytes} (h64 : data.length < 2 ^ 64) : Agreeing data where
  created := AesKek.exists_create_iff
  badLength := by
    intro kek h
    refine ⟨AesKek.create_of_badLength h, fun service => ?_⟩
    rw [AesKek.once, AesKek.create_of_badLength h]
    rfl
  aes := by
    intro kek k hk service
    exact ⟨_, AesKek.leads_of_create hk service h64⟩
  belt := by
    intro object service header
    exact ⟨_, BeltKek.leads_run object service h64 header⟩
  never_short_run := by
    intro service a c
    exact Operation.never_short_result (.register service c data) h64
  never_short_once := by
    intro service kek
    exact AesKek.never_short_once service kek h64
  never_short_aes := by
    intro object service r h
    exact AesKek.never_short_answer object service h64 h
  never_short_belt := by
    intro object service header r h
    exact BeltKek.never_short_answer object service h64 header h

/-- Seven bytes are nothing to unwrap, and every way says so; under a key of 17 bytes, that is what is wrong. -/
theorem ways_agree_seven_bytes :
    (Bytes.zeros 7).length < 2 ^ 64 ∧ Agreeing (.zeros 7) ∧
      AesKek.once .unwrap (.zeros 17) (.zeros 7) = .error (.invalidKeyLength "AES key wrap" 17) ∧
      ∃ k, AesKek.create (.zeros 16) = .ok k ∧
        AesKek.Leads (.zeros 16) k .unwrap (.zeros 7) (.error (.invalidDataLength "NIST key unwrap" 7)) := by
  have h64 : (Bytes.zeros 7).length < 2 ^ 64 := by decide
  have h := ways_agree h64
  obtain ⟨k, hk⟩ := (h.created (.zeros 16)).mpr (by decide)
  obtain ⟨r, hr⟩ := h.aes _ k hk .unwrap
  have honce : AesKek.once .unwrap (.zeros 16) (.zeros 7) = .error (.invalidDataLength "NIST key unwrap" 7) := rfl
  obtain rfl := hr.once.symm.trans honce
  exact ⟨h64, h, (h.badLength (.zeros 17) (by decide)).2 .unwrap, k, hk, hr⟩

end KeyWrapping
