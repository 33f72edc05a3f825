import KeyWrapping.Proofs.Exactness

/-!
# What a result asks of the caller's buffer

Every operation into a caller's buffer makes some checks, asks for so many bytes of room, and goes on to a result if it
gets them. What the checks let through is a demand (`Demand`): it comes to one and the same result in every buffer that
has room for it. An exact demand (`Demand.Exact`) asks for just what its result fills and complains about the room only
where there is too little, so a buffer of the size that the complaint names meets it.

A demand is made after a check (`Demand.after`), and then it is the demand itself or a refusal for what the check found.
So each property of demands has a lemma for what is made after a check.
-/

namespace KeyWrapping

/-! ## Kinds of failure that a computation does not have -/

/-- The computation does not fail with an error of this kind. -/
def Never {α : Type} (k : ErrorKind) (x : Except Error α) : Prop := ∀ e, x = .error e → e.kind ≠ k

section Never

variable {α β : Type} {k : ErrorKind}

theorem never_ok (a : α) : Never k (.ok a : Except Error α) := by
  intro e h
  cases h

theorem never_error {e : Error} (h : e.kind ≠ k) : Never k (.error e : Except Error α) := by
  intro e' he
  cases he
  exact h

theorem never_ensure {condition : Bool} {e : Error} (h : e.kind ≠ k) : Never k (ensure condition e) := by
  cases condition with
  | true => exact never_ok ()
  | false => exact never_error h

theorem never_bind {x : Except Error α} {f : α → Except Error β} (hx : Never k x)
    (hf : ∀ a, x = .ok a → Never k (f a)) :
    Never k (x >>= f) := by
  cases x with
  | ok a => exact hf a rfl
  | error e => exact never_error (hx e rfl)

theorem exists_of_bind_eq_ok {x : Except Error α} {f : α → Except Error β} {b : β} (h : (x >>= f) = .ok b) :
    ∃ a, x = .ok a ∧ f a = .ok b := by
  cases x with
  | ok a => exact ⟨a, rfl, h⟩
  | error e => cases h

end Never

/-! ## Demands -/

/-- The room that a result takes, and what it comes to where there is as much. -/
structure Demand where
  /-- Who complains if there is less room. -/
  algorithm : String
  required : Nat
  result : Except Error Bytes

namespace Demand

/-- What a caller with room for `space` bytes gets. -/
def within (d : Demand) (space : Nat) : Except Error Bytes := do
  ensureSpace d.algorithm d.required space
  d.result

/-- A refusal takes no room. -/
def refused (e : Error) : Demand := ⟨"", 0, .error e⟩

/-- The demand that is made after a check. -/
def after {α : Type} (check : Except Error α) (go : α → Demand) : Demand :=
  match check with
  | .ok a => go a
  | .error e => refused e

/-- The demand that is made of a cipher of 128-bit blocks. -/
def after128 (a : Algorithm) (go : a.blockSize = 16 → Demand) : Demand :=
  if h : a.blockSize = 16 then go h
  else refused (.invalidArgument "NIST key wrap algorithm requires a 128-bit cipher")

/-- The demand asks for just what its result fills, and its result is no complaint about the room. -/
structure Exact (d : Demand) : Prop where
  length_eq : ∀ bytes, d.result = .ok bytes → bytes.length = d.required
  never_short : Never .bufferTooSmall d.result

/-- The demand asks for `n` bytes, unless it is refused, and then not as a forgery. -/
def IsFor (d : Demand) (n : Nat) : Prop := d.required = n ∨ ∃ e, d = refused e ∧ e.kind ≠ .invalidTag

/-- Where the demand asks for any room, it comes to a result. -/
def Fulfilled (d : Demand) : Prop := 0 < d.required → ∃ bytes, d.result = .ok bytes

/-! ### What a caller gets -/

section Within

variable {d : Demand} {space : Nat}

theorem within_of_le (h : d.required ≤ space) : d.within space = d.result := by
  rw [within, ensureSpace, decide_eq_true h]
  rfl

theorem within_of_lt (h : space < d.required) :
    d.within space = .error (.bufferTooSmall d.algorithm d.required space) := by
  rw [within, ensureSpace, decide_eq_false (Nat.not_le.mpr h)]
  rfl

@[simp] theorem within_refused (e : Error) (space : Nat) : (refused e).within space = .error e :=
  within_of_le (Nat.zero_le space)

theorem of_within_eq_ok {bytes : Bytes} (h : d.within space = .ok bytes) :
    d.required ≤ space ∧ d.result = .ok bytes := by
  rcases Nat.lt_or_ge space d.required with hr | hr
  · rw [within_of_lt hr] at h
    cases h
  · rw [within_of_le hr] at h
    exact ⟨hr, h⟩

/-- A failure for another reason than the room is the result. -/
theorem of_within_eq_error {e : Error} (h : d.within space = .error e) (hk : e.kind ≠ .bufferTooSmall) :
    d.required ≤ space ∧ d.result = .error e := by
  rcases Nat.lt_or_ge space d.required with hr | hr
  · rw [within_of_lt hr] at h
    cases h
    exact absurd rfl hk
  · rw [within_of_le hr] at h
    exact ⟨hr, h⟩

/-- The complaint about the room names what is asked for and what is there. -/
theorem Exact.of_within_eq_bufferTooSmall (hd : d.Exact) {algorithm : String} {required provided : Nat}
    (h : d.within space = .error (.bufferTooSmall algorithm required provided)) :
    required = d.required ∧ provided = space ∧ space < d.required := by
  rcases Nat.lt_or_ge space d.required with hr | hr
  · rw [within_of_lt hr] at h
    cases h
    exact ⟨rfl, rfl, hr⟩
  · rw [within_of_le hr] at h
    exact absurd rfl (hd.never_short _ h)

theorem within_after {α : Type} (check : Except Error α) (go : α → Demand) (space : Nat) :
    (after check go).within space = (check >>= fun a => (go a).within space) := by
  cases check with
  | ok a => rfl
  | error e => exact within_refused e space

theorem within_after128 (a : Algorithm) (go : a.blockSize = 16 → Demand) (space : Nat) :
    (after128 a go).within space = a.ensure128 fun h => (go h).within space := by
  unfold after128 Algorithm.ensure128
  split
  · rfl
  · exact within_refused _ space

/-- A demand for just the size of a buffer fills it. -/
theorem Exact.whole_ofResult (hd : d.Exact) {n : Nat} (h : d.IsFor n) (forged : Bytes → Bytes) :
    (Delivery.ofResult (d.within (Bytes.zeros n).length) forged (.zeros n)).whole = d.result := by
  rcases h with rfl | ⟨e, rfl, -⟩
  · rw [Delivery.whole_filled d.within, within_of_le (Nat.le_refl _)]
    intro bytes hb
    exact hd.length_eq bytes (of_within_eq_ok hb).2
  · rw [within_refused]
    rfl

theorem bytes_ofResult {buffer : Bytes} (h : d.required ≤ buffer.length) (forged : Bytes → Bytes) :
    (Delivery.ofResult (d.within buffer.length) forged buffer).bytes = d.result := by
  rw [Delivery.bytes_ofResult, within_of_le h]

theorem IsFor.required_le {n : Nat} (h : d.IsFor n) : d.required ≤ n := by
  rcases h with rfl | ⟨e, rfl, -⟩
  · exact Nat.le_refl _
  · exact Nat.zero_le n

/-- A forgery is noticed only after the room was asked for. -/
theorem IsFor.required_eq {n : Nat} (h : d.IsFor n) {e : Error} (he : d.result = .error e) (hk : e.kind = .invalidTag) :
    d.required = n := by
  rcases h with rfl | ⟨e', rfl, hne⟩
  · rfl
  · cases he
    exact absurd hk hne

end Within

/-! ### Demands after checks -/

section Checks

variable {α : Type} {check : Except Error α} {go : α → Demand} {a : Algorithm} {go128 : a.blockSize = 16 → Demand}
  {k : ErrorKind} {algorithm : String} {n : Nat}

/-- A demand after a check is the demand itself, or a refusal for what the check found. -/
theorem after_cases {P : Demand → Prop} (hok : ∀ a, check = .ok a → P (go a))
    (herror : ∀ e, check = .error e → P (refused e)) : P (after check go) := by
  cases check with
  | ok a => exact hok a rfl
  | error e => exact herror e rfl

theorem after128_cases {P : Demand → Prop} (h16 : ∀ h, P (go128 h))
    (hother : ∀ message, P (refused (.invalidArgument message))) : P (after128 a go128) := by
  unfold after128
  split
  · exact h16 _
  · exact hother _

theorem exact_refused {e : Error} (h : e.kind ≠ .bufferTooSmall) : (refused e).Exact where
  length_eq := by
    intro bytes hb
    cases hb
  never_short := never_error h

theorem exact_after (hc : Never .bufferTooSmall check) (h : ∀ a, check = .ok a → (go a).Exact) :
    (after check go).Exact :=
  after_cases h fun e he => exact_refused (hc e he)

theorem exact_after128 (h : ∀ h16, (go128 h16).Exact) : (after128 a go128).Exact :=
  after128_cases h fun _ => exact_refused (by simp [Error.kind])

theorem exact_ok {bytes : Bytes} (h : bytes.length = n) : Exact ⟨algorithm, n, .ok bytes⟩ where
  length_eq := by
    intro bytes' hb
    cases hb
    exact h
  never_short := never_ok bytes

theorem exact_bind {x : Except Error α} {f : α → Except Error Bytes} (hx : Never .bufferTooSmall x)
    (h : ∀ a, x = .ok a → Exact ⟨algorithm, n, f a⟩) : Exact ⟨algorithm, n, x >>= f⟩ where
  length_eq := by
    intro bytes hb
    obtain ⟨a, ha, hf⟩ := exists_of_bind_eq_ok hb
    exact (h a ha).length_eq bytes hf
  never_short := never_bind hx fun a ha => (h a ha).never_short

theorem never_result_after (hc : Never k check) (h : ∀ a, check = .ok a → Never k (go a).result) :
    Never k (after check go).result :=
  after_cases (P := fun d => Never k d.result) h fun e he => never_error (hc e he)

theorem never_result_after128 (hk : k ≠ .invalidArgument) (h : ∀ h16, Never k (go128 h16).result) :
    Never k (after128 a go128).result :=
  after128_cases (P := fun d => Never k d.result) h fun _ => never_error hk.symm

theorem isFor_after (hc : Never .invalidTag check) (h : ∀ a, check = .ok a → (go a).IsFor n) :
    (after check go).IsFor n :=
  after_cases (P := fun d => d.IsFor n) h fun e he => Or.inr ⟨e, rfl, hc e he⟩

theorem isFor_after128 (h : ∀ h16, (go128 h16).IsFor n) : (after128 a go128).IsFor n :=
  after128_cases (P := fun d => d.IsFor n) h fun _ => Or.inr ⟨_, rfl, by simp [Error.kind]⟩

theorem fulfilled_refused (e : Error) : (refused e).Fulfilled := fun h => absurd h (Nat.lt_irrefl 0)

theorem fulfilled_after (h : ∀ a, check = .ok a → (go a).Fulfilled) : (after check go).Fulfilled :=
  after_cases h fun e _ => fulfilled_refused e

theorem fulfilled_after128 (h : ∀ h16, (go128 h16).Fulfilled) : (after128 a go128).Fulfilled :=
  after128_cases h fun _ => fulfilled_refused _

end Checks

end Demand

end KeyWrapping
