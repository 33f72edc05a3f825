import KeyWrapping.Delivery
import KeyWrapping.Wrap.Unpadded

/-!
# Schemes whose unwrapping is exactly the inverse of their wrapping

A scheme (`Scheme`) is a pair of functions on byte strings together with the lengths that they take and the errors that
unwrapping answers with. It is exact (`Scheme.Exact`) if unwrapping accepts the wrappings and nothing else: a key comes
out of an input if and only if the input is the wrapping of that key. All that this asks for follows from three facts
(`Scheme.exact_of`): wrappings have the right length and are opened again, an input of the right length is a wrapping or
is refused as a forgery, and an input of any other length is refused for its length.

Both functions are given by the checks that they make; `Cipher.Keyed128` says that the last of them, for the cipher and
its key, goes well, and `Delivery.whole_ofResult` that a result which fills the buffer is all that the caller sees.
-/

namespace KeyWrapping

/-! ## Ciphers that are ready for use -/

/-- The cipher has blocks of 128 bits, and a key under which it does `p` to them. -/
structure Cipher.Keyed128 {a : Algorithm} (c : Cipher a) (p : Permutation 16) : Prop where
  blockSize : a.blockSize = 16
  permutation : c.permutation128 blockSize = .ok p

theorem ok_bind {α β : Type} (x : α) (next : α → Except Error β) : (Except.ok x >>= next) = next x := rfl

/-- Every cipher of 128-bit blocks that has a key does something to them. -/
theorem Cipher.exists_keyed128 {a : Algorithm} {c : Cipher a} (h : a.blockSize = 16) (hk : c.isKeyed = true) :
    ∃ p, c.Keyed128 p := by
  obtain ⟨schedule, hs⟩ := Option.isSome_iff_exists.mp hk
  have hp : c.permutation = .ok (a.permutation schedule) := by rw [Cipher.permutation, hs]
  exact ⟨h ▸ a.permutation schedule, h, by rw [permutation128, hp, ok_bind]; rfl⟩

theorem Algorithm.ensure128_of_eq {a : Algorithm} {α : Type} (h : a.blockSize = 16)
    (go : a.blockSize = 16 → Except Error α) : a.ensure128 go = go h := dif_pos h

/-! ## Results that fill the buffer -/

/-- A result that fills the buffer is what the buffer holds afterwards. -/
theorem Delivery.whole_ofResult {result : Except Error Bytes} {buffer : Bytes} (forged : Bytes → Bytes)
    (h : ∀ bytes, result = .ok bytes → bytes.length = buffer.length) :
    (ofResult result forged buffer).whole = result := by
  cases result with
  | error e => rfl
  | ok bytes => exact congrArg Except.ok (Bytes.overwrite_of_length_eq (h bytes rfl))

/-- A result that fills a buffer of zeros is what the buffer holds afterwards; `within` is the result for the room that
there is. -/
theorem Delivery.whole_filled (within : Nat → Except Error Bytes) (forged : Bytes → Bytes) {n : Nat}
    (h : ∀ bytes, within n = .ok bytes → bytes.length = n) :
    (ofResult (within (Bytes.zeros n).length) forged (.zeros n)).whole = within n := by
  rw [Bytes.length_zeros]
  exact whole_ofResult forged fun bytes hb => (h bytes hb).trans (Bytes.length_zeros n).symm

/-- What is cut off a buffer to the length of a result is the result. -/
theorem Delivery.bytes_ofResult (result : Except Error Bytes) (forged : Bytes → Bytes) (buffer : Bytes) :
    (ofResult result forged buffer).bytes = result := by
  cases result with
  | error e => rfl
  | ok bytes => exact congrArg Except.ok (Bytes.take_overwrite buffer bytes)

/-! ## Schemes -/

/-- A way of wrapping keys. -/
structure Scheme where
  wrap : Bytes → Except Error Bytes
  unwrap : Bytes → Except Error Bytes
  IsKeyLength : Nat → Prop
  IsWrappedLength : Nat → Prop
  wrappedLength : Nat → Nat
  /-- What unwrapping answers to an input that is no wrapping. -/
  forgery : Error
  /-- What unwrapping answers to an input of a length that no wrapping has. -/
  badLength : Nat → Error

namespace Scheme

/-- Unwrapping is exactly the partial inverse of wrapping, for inputs of a length that is in scope. -/
structure Exact (s : Scheme) (InScope : Nat → Prop) : Prop where
  /-- A key comes out of an input if and only if it can be wrapped, and the input is its wrapping. -/
  unwrap_eq_ok_iff : ∀ wrapped key, InScope wrapped.length →
    (s.unwrap wrapped = .ok key ↔ s.IsKeyLength key.length ∧ s.wrap key = .ok wrapped)
  /-- Every key of a possible length has a wrapping, of a known length, and comes out of it again. -/
  round_trip : ∀ key, s.IsKeyLength key.length → InScope (s.wrappedLength key.length) →
    ∃ wrapped, s.wrap key = .ok wrapped ∧ wrapped.length = s.wrappedLength key.length ∧ s.unwrap wrapped = .ok key
  /-- Wrapping what came out of an input gives the input back. -/
  wrap_unwrap : ∀ wrapped key, InScope wrapped.length → s.unwrap wrapped = .ok key → s.wrap key = .ok wrapped
  /-- Different inputs never give the same key. -/
  unwrap_injective : ∀ wrapped wrapped' key, InScope wrapped.length → InScope wrapped'.length →
    s.unwrap wrapped = .ok key → s.unwrap wrapped' = .ok key → wrapped = wrapped'
  /-- An input of a possible length that is the wrapping of nothing is refused as a forgery. -/
  unwrap_forgery : ∀ wrapped, InScope wrapped.length → s.IsWrappedLength wrapped.length →
    (∀ key, s.wrap key ≠ .ok wrapped) → s.unwrap wrapped = .error s.forgery
  /-- An input of any other length is refused for its length. -/
  unwrap_badLength : ∀ wrapped, InScope wrapped.length → ¬ s.IsWrappedLength wrapped.length →
    s.unwrap wrapped = .error (s.badLength wrapped.length)

/-- A scheme is exact if wrappings have the right length and are opened again, every input of a possible length is a
wrapping or is refused, and every other input is refused for its length. -/
theorem exact_of {s : Scheme} {InScope : Nat → Prop}
    (length_wrap : ∀ key wrapped, s.wrap key = .ok wrapped → wrapped.length = s.wrappedLength key.length)
    (opens : ∀ key, s.IsKeyLength key.length → InScope (s.wrappedLength key.length) →
      ∃ wrapped, s.wrap key = .ok wrapped ∧ s.unwrap wrapped = .ok key)
    (decides : ∀ wrapped, InScope wrapped.length → s.IsWrappedLength wrapped.length →
      (∃ key, s.IsKeyLength key.length ∧ s.unwrap wrapped = .ok key ∧ s.wrap key = .ok wrapped) ∨
        s.unwrap wrapped = .error s.forgery)
    (badLength : ∀ wrapped, InScope wrapped.length → ¬ s.IsWrappedLength wrapped.length →
      s.unwrap wrapped = .error (s.badLength wrapped.length)) : s.Exact InScope := by
  -- an accepted input is of a possible length, and what `decides` finds in it is what came out
  have accepted {wrapped key : Bytes} (hw : InScope wrapped.length) (h : s.unwrap wrapped = .ok key) :
      s.IsKeyLength key.length ∧ s.wrap key = .ok wrapped := by
    by_cases hl : s.IsWrappedLength wrapped.length
    · rcases decides wrapped hw hl with ⟨key', hk, hu, hwrap⟩ | he
      · rw [h] at hu
        cases hu
        exact ⟨hk, hwrap⟩
      · rw [h] at he
        cases he
    · rw [badLength wrapped hw hl] at h
      cases h
  refine ⟨?_, ?_, ?_, ?_, ?_, badLength⟩
  · intro wrapped key hw
    refine ⟨accepted hw, ?_⟩
    rintro ⟨hk, hwrap⟩
    rw [length_wrap key wrapped hwrap] at hw
    obtain ⟨wrapped', hwrap', hu⟩ := opens key hk hw
    rw [hwrap] at hwrap'
    cases hwrap'
    exact hu
  · intro key hk hs
    obtain ⟨wrapped, hwrap, hu⟩ := opens key hk hs
    exact ⟨wrapped, hwrap, length_wrap key wrapped hwrap, hu⟩
  · intro wrapped key hw h
    exact (accepted hw h).2
  · intro wrapped wrapped' key hw hw' h h'
    have e := (accepted hw h).2
    rw [(accepted hw' h').2] at e
    cases e
    rfl
  · intro wrapped hw hl hno
    rcases decides wrapped hw hl with ⟨key, -, -, hwrap⟩ | he
    · exact absurd hwrap (hno key)
    · exact he

end Scheme

end KeyWrapping
