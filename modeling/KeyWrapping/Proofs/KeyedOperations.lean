import KeyWrapping.Proofs.CallerBuffers

/-!
# Operations under a key

An operation whose cipher has a key (`Operation.Keyed`) never fails for want of one, neither in a caller's buffer
(`Operation.never_keyNotSet_into`) nor without (`Operation.never_keyNotSet_result`). The lack of a key is a failure of
the cipher's permutation only, so this is a property of each demand, by the checks that it makes.
-/

namespace KeyWrapping

theorem never_map {α β : Type} {k : ErrorKind} {x : Except Error α} (h : Never k x) (f : α → β) :
    Never k (x.map f) := by
  cases x with
  | ok a => exact never_ok (f a)
  | error e => exact never_error (h e rfl)

theorem Cipher.never_permutation_of_keyed {a : Algorithm} {c : Cipher a} (h : c.isKeyed = true) (k : ErrorKind) :
    Never k c.permutation := by
  obtain ⟨schedule, hs⟩ := Option.isSome_iff_exists.mp h
  rw [permutation, hs]
  exact never_ok _

/-! ## Demands under a key -/

section Demands

variable {a : Algorithm} {c : Cipher a} (hc : c.isKeyed = true)
include hc

theorem Unpadded.never_keyNotSet_unwrapDemand (wrapped : Bytes) : Never .keyNotSet (unwrapDemand c wrapped).result := by
  apply Demand.never_result_after128 (by decide)
  intro h16
  apply Demand.never_result_after (never_ensure (by simp [Error.kind]))
  intro _ _
  apply never_bind (Cipher.never_permutation128 (Cipher.never_permutation_of_keyed hc _) h16)
  intro p _
  exact never_bind (never_ensure (by simp [Error.kind])) fun _ _ => never_ok _

theorem Padded.never_keyNotSet_unwrapDemand (wrapped : Bytes) : Never .keyNotSet (unwrapDemand c wrapped).result := by
  apply Demand.never_result_after128 (by decide)
  intro h16
  have hcontent : Never .keyNotSet (authenticContent c wrapped h16) := by
    apply never_bind (never_ensure (by simp [Error.kind]))
    intro _ _
    apply never_bind (Cipher.never_permutation128 (Cipher.never_permutation_of_keyed hc _) h16)
    intro p _
    exact never_bind (never_ensure (by simp [Error.kind])) fun _ _ => never_ok _
  exact Demand.never_result_after hcontent fun _ _ => never_ok _

end Demands

theorem Headed.never_keyNotSet_unwrapDemand {cipher : Except Error (Cipher Belt.algorithm)}
    (hc : Never .keyNotSet cipher) (hk : ∀ c, cipher = .ok c → c.isKeyed = true) (wrapped header : Bytes) :
    Never .keyNotSet (unwrapDemand cipher wrapped header).result := by
  apply Demand.never_result_after (never_checks _ _ _ (by decide) (by decide))
  intro _ _
  apply never_bind hc
  intro c hcipher
  apply never_bind (WideBlock.never_result_run (by decide) (Cipher.never_permutation_of_keyed (hk c hcipher) _) _ _)
  intro opened _
  exact never_bind (never_ensure (by simp [Error.kind])) fun _ _ => never_ok _

/-! ## Operations under a key -/

namespace Operation

/-- The cipher has a key, unless the object that should hold the cipher was moved from. -/
def Keyed : Operation → Prop
  | register _ c _ => c.isKeyed = true
  | headed _ object _ _ => ∀ k, object = .holding k → k.cipher.isKeyed = true

variable {op : Operation} (h : op.Keyed)
include h

theorem never_keyNotSet_demand : Never .keyNotSet op.demand.result := by
  cases op with
  | register service c data =>
    have hp : Never .keyNotSet c.permutation := Cipher.never_permutation_of_keyed h _
    cases service with
    | wrap => exact Demand.never_result_ofWrapping c (by decide) (never_ensure (by simp [Error.kind])) hp
    | unwrap => exact Unpadded.never_keyNotSet_unwrapDemand h data
    | wrapPadded => exact Demand.never_result_ofWrapping c (by decide) (never_ensure (by simp [Error.kind])) hp
    | unwrapPadded => exact Padded.never_keyNotSet_unwrapDemand h data
  | headed service object data header =>
    have hc : Never .keyNotSet (object.content.map BeltKek.cipher) := BeltKek.never_content (by decide) object
    have hk : ∀ c, object.content.map BeltKek.cipher = .ok c → c.isKeyed = true := by
      intro c hcipher
      cases object with
      | holding k =>
        cases hcipher
        exact h k rfl
      | movedFrom => cases hcipher
    cases service with
    | wrap =>
      have hp : ∀ c, object.content.map BeltKek.cipher = .ok c → Never .keyNotSet c.permutation :=
        fun c hcipher => Cipher.never_permutation_of_keyed (hk c hcipher) _
      exact Headed.never_result_wrapDemand data header (by decide) (by decide) hc hp
    | unwrap => exact Headed.never_keyNotSet_unwrapDemand hc hk data header

/-- An operation under a key finds it, whatever the caller's buffer is. -/
theorem never_keyNotSet_into (buffer : Bytes) : Never .keyNotSet (op.into buffer).outcome := by
  intro e he hk
  have hw := within_of_outcome_eq_error he
  obtain ⟨-, hresult⟩ := Demand.of_within_eq_error hw (by rw [hk]; decide)
  exact never_keyNotSet_demand h e hresult hk

theorem never_keyNotSet_whole (buffer : Bytes) : Never .keyNotSet (op.into buffer).whole :=
  never_map (never_keyNotSet_into h buffer) _

/-- An operation under a key finds it without a buffer of the caller's, too. -/
theorem never_keyNotSet_result : Never .keyNotSet op.result := by
  have hinto := never_keyNotSet_into h
  cases op with
  | register service c data =>
    cases service with
    | wrap => exact never_map (hinto _) _
    | unwrap => exact never_map (hinto _) _
    | wrapPadded => exact never_map (hinto _) _
    | unwrapPadded => exact never_map (hinto _) _
  | headed service object data header =>
    cases service with
    | wrap => exact never_map (hinto _) _
    | unwrap => exact never_map (hinto _) _

end Operation

end KeyWrapping
