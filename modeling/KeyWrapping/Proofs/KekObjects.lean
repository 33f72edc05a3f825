import KeyWrapping.Proofs.EntryPoints
import KeyWrapping.Proofs.KeyedOperations
import KeyWrapping.Proofs.Ownership

/-!
# Objects keep the keys that they were created from

After whatever creations, moves and calls, an object with a key encryption key has the very key of the creation that its
content comes from (`AesKek.Keyed`, `BeltKek.Keyed`), so none of its operations ever misses a key. That is what the
lifecycle of objects asks for (`ObjectKind.lifecycle_of`); the rest of it does not depend on the kind of the objects.

An AES object that was moved from looks for its content before anything else, so it refuses whatever is asked of it
(`AesKek.answer_movedFrom`).
-/

namespace KeyWrapping

/-! ## AES -/

namespace AesKek

/-- The cipher is AES with keys of this length, and was given this key. -/
def Keyed (kek : Bytes) (k : AesKek) : Prop :=
  k.size.bytes = kek.length ∧ (Cipher.fresh (Aes.algorithm k.size)).setKey kek = .ok k.cipher

namespace Answer

def error? : Answer → Option Error
  | name text => failure? text
  | result bytes => failure? bytes
  | delivered delivery => failure? delivery.outcome

/-- The caller's buffer afterwards, if one was lent. -/
def buffer? : Answer → Option Bytes
  | delivered delivery => some delivery.buffer
  | name _ | result _ => none

end Answer

/-- The buffer that the caller lends, if any. -/
def Call.buffer? : Call → Option Bytes
  | into _ _ buffer => some buffer
  | name | result _ _ | fixed _ _ => none

theorem keyed_of_create {kek : Bytes} {k : AesKek} (h : create kek = .ok k) : Keyed kek k := by
  obtain ⟨size, hsize⟩ := exists_size ((exists_create_iff kek).mp ⟨k, h⟩)
  obtain rfl : ⟨size, ⟨some (Aes.expand kek)⟩⟩ = k := Except.ok.inj ((create_of_size hsize).symm.trans h)
  exact ⟨hsize, setKey_eq hsize⟩

theorem create_never_keyNotSet (kek : Bytes) : Never .keyNotSet (create kek) := by
  by_cases h : kek.length ∈ [16, 24, 32]
  · obtain ⟨k, hk⟩ := (exists_create_iff kek).mpr h
    rw [hk]
    exact never_ok k
  · rw [create_of_badLength h]
    exact never_error (by simp [Error.kind])

theorem isKeyed_of_keyed {kek : Bytes} {k : AesKek} (h : Keyed kek k) : k.cipher.isKeyed = true := by
  have hcipher := (setKey_eq h.1).symm.trans h.2
  rw [← Except.ok.inj hcipher]
  rfl

theorem answer_holding_never_keyNotSet {kek : Bytes} {k : AesKek} (h : Keyed kek k) (call : Call) {e : Error}
    (he : (answer (.holding k) call).error? = some e) : e.kind ≠ .keyNotSet := by
  have hkeyed (service : Service) (data : Bytes) : (Operation.register service k.cipher data).Keyed :=
    isKeyed_of_keyed h
  cases call with
  | name => cases he
  | result service data => exact Operation.never_keyNotSet_result (hkeyed service data) e (failure?_eq_some_iff.mp he)
  | into service data buffer =>
    exact Operation.never_keyNotSet_into (hkeyed service data) buffer e (failure?_eq_some_iff.mp he)
  | fixed service data => exact Operation.never_keyNotSet_whole (hkeyed service data) _ e (failure?_eq_some_iff.mp he)

/-- An object that was moved from refuses every call, and leaves the caller's buffer alone. -/
theorem answer_movedFrom (call : Call) : ∃ e, (answer .movedFrom call).error? = some e ∧ e.kind = .invalidState ∧
    (answer .movedFrom call).buffer? = call.buffer? := by
  cases call <;> exact ⟨_, rfl, rfl, rfl⟩

theorem lifecycle (steps : List kind.Step) : kind.Lifecycle Keyed Answer.error? steps := by
  apply ObjectKind.lifecycle_of
  · intro kek k hk
    exact keyed_of_create hk
  · exact create_never_keyNotSet
  · intro kek k call e hk he
    exact answer_holding_never_keyNotSet hk call he
  · intro call e he
    obtain ⟨e', he', hkind, -⟩ := answer_movedFrom call
    obtain rfl : e' = e := Option.some.inj (he'.symm.trans he)
    rw [hkind]
    decide

end AesKek

/-! ## BelT -/

namespace BeltKek

/-- The cipher was given this key. -/
def Keyed (kek : Bytes) (k : BeltKek) : Prop := (Cipher.fresh Belt.algorithm).setKey kek = .ok k.cipher

namespace Answer

def error? : Answer → Option Error
  | result bytes => failure? bytes
  | delivered delivery => failure? delivery.outcome

/-- The caller's buffer afterwards, if one was lent. -/
def buffer? : Answer → Option Bytes
  | delivered delivery => some delivery.buffer
  | result _ => none

end Answer

/-- The buffer that the caller lends, if any. -/
def Call.buffer? : Call → Option Bytes
  | into _ _ _ buffer => some buffer
  | result _ _ _ | fixed _ _ _ => none

theorem keyed_of_create {kek : Bytes} {k : BeltKek} (h : create kek = .ok k) : Keyed kek k := by
  obtain ⟨_, -, h⟩ := exists_of_bind_eq_ok h
  obtain ⟨c, hc, h⟩ := exists_of_bind_eq_ok h
  cases h
  exact hc

theorem create_never_keyNotSet (kek : Bytes) : Never .keyNotSet (create kek) := by
  apply never_bind (never_ensure (by simp [Error.kind]))
  intro _ _
  apply never_bind
  · exact never_bind (never_ensure (by simp [Error.kind])) fun _ _ => never_ok _
  · intro c _
    exact never_ok _

theorem isKeyed_of_keyed {kek : Bytes} {k : BeltKek} (h : Keyed kek k) : k.cipher.isKeyed = true := by
  obtain ⟨_, -, h⟩ := exists_of_bind_eq_ok h
  rw [← Except.ok.inj h]
  rfl

/-- Whether an object holds a key or was moved from, it never complains of a missing key. -/
theorem answer_never_keyNotSet {object : Object BeltKek} (h : ∀ k, object = .holding k → ∃ kek, Keyed kek k)
    (call : Call) {e : Error} (he : (answer object call).error? = some e) : e.kind ≠ .keyNotSet := by
  have hkeyed (service : Service) (data header : Bytes) : (Operation.headed service object data header).Keyed := by
    intro k hk
    obtain ⟨kek, hkek⟩ := h k hk
    exact isKeyed_of_keyed hkek
  cases call with
  | result service data header =>
    exact Operation.never_keyNotSet_result (hkeyed service data header) e (failure?_eq_some_iff.mp he)
  | into service data header buffer =>
    exact Operation.never_keyNotSet_into (hkeyed service data header) buffer e (failure?_eq_some_iff.mp he)
  | fixed service data header =>
    exact Operation.never_keyNotSet_whole (hkeyed service data header) _ e (failure?_eq_some_iff.mp he)

theorem lifecycle (steps : List kind.Step) : kind.Lifecycle Keyed Answer.error? steps := by
  apply ObjectKind.lifecycle_of
  · intro kek k hk
    exact keyed_of_create hk
  · exact create_never_keyNotSet
  · intro kek k call e hk he
    apply answer_never_keyNotSet _ call he
    rintro _ ⟨⟩
    exact ⟨kek, hk⟩
  · intro call e he
    exact answer_never_keyNotSet (fun k hk => by cases hk) call he

end BeltKek

/-! ## Both -/

/-- **Objects live as their histories tell**: of either kind, after any run, they were moved from or have the key of the
creation that their content comes from, which is nowhere else, and reply as that key alone makes them reply; and an AES
object that was moved from refuses everything. -/
theorem kek_objects_live (aesSteps : List AesKek.kind.Step) (beltSteps : List BeltKek.kind.Step) :
    AesKek.kind.Lifecycle AesKek.Keyed AesKek.Answer.error? aesSteps ∧
      BeltKek.kind.Lifecycle BeltKek.Keyed BeltKek.Answer.error? beltSteps ∧
      ∀ slot, (AesKek.kind.run .empty aesSteps).1.object? slot = some .movedFrom → ∀ call, ∃ answer e,
        (AesKek.kind.step (AesKek.kind.run .empty aesSteps).1 (.call slot call)).2 = .answered answer ∧
          answer.error? = some e ∧ e.kind = .invalidState ∧ answer.buffer? = call.buffer? := by
  refine ⟨AesKek.lifecycle aesSteps, BeltKek.lifecycle beltSteps, ?_⟩
  intro slot hslot call
  obtain ⟨e, he, hkind, hbuffer⟩ := AesKek.answer_movedFrom call
  exact ⟨_, e, by rw [ObjectKind.step_call hslot]; rfl, he, hkind, hbuffer⟩

/-- After a move, the object that was moved from refuses to wrap. The other one wraps under the key that the first was
created from, whatever was tried with the first in between. -/
theorem kek_objects_live_after_move :
    let steps : List AesKek.kind.Step := [.create "a" (.zeros 16), .create "a" (.zeros 5), .move "a" "b"]
    let slots := (AesKek.kind.run .empty steps).1
    slots.object? "a" = some .movedFrom ∧
      (∃ answer e, (AesKek.kind.step slots (.call "a" (.into .wrap (.zeros 16) [1, 2, 3]))).2 = .answered answer ∧
        answer.error? = some e ∧ e.kind = .invalidState ∧ answer.buffer? = some [1, 2, 3]) ∧
      ∀ call, (AesKek.kind.step slots (.call "b" call)).2 = AesKek.kind.replyUnder (.zeros 16) call := by
  intro steps slots
  obtain ⟨haes, -, hmoved⟩ := kek_objects_live steps []
  have hb : ObjectKind.Traced steps.reverse "b" (.holding ⟨0, .zeros 16⟩) := by
    refine .arrived (.stayed (.created rfl) ?_) (by decide)
    rintro ⟨-, content, hcontent⟩
    cases hcontent
  exact ⟨rfl, hmoved "a" rfl _, haes.replied "b" _ hb⟩

end KeyWrapping
