import KeyWrapping.Foreign.Call

/-!
# What a failed unwrap leaves in the output

A foreign call that unwraps wipes its output, then does its work, and whatever the work fails with, the output is left
with zeros as far as its length said (`zeroed_work`). A call can fail before that, too (`Unwrap.EndsEarly`): if a
pointer is null, or if the key encryption key has a length that no AES cipher has. A call that ends early leaves its
output alone (`Unwrap.perform_of_endsEarly`) and one that does not wipes it (`Unwrap.zeroed_of_not_endsEarly`).
-/

namespace KeyWrapping.Foreign

/-! ## Outputs of zeros -/

/-- There is a buffer of `size` bytes, and the first `n` of them are zero, or all of them if there are fewer. -/
def Output.Zeroed (output : Output) (size n : Nat) : Prop :=
  ∃ bytes, output.buffer = some bytes ∧ bytes.length = size ∧ ∀ b ∈ bytes.take n, b = 0

/-- Wiping the front of a buffer makes its bytes zero, also if there are fewer than the length says. -/
theorem eq_zero_of_mem_take_wipeFront {n : Nat} {buffer : Bytes} {b : UInt8} (h : b ∈ (buffer.wipeFront n).take n) :
    b = 0 := by
  have hz : (buffer.wipeFront n).take n = Bytes.zeros (min n buffer.length) := by
    rcases Nat.le_total n buffer.length with hn | hn
    · rw [Bytes.take_wipeFront hn, Nat.min_eq_left hn]
    · rw [List.take_of_length_le (by simpa using hn), Bytes.wipeFront, List.drop_eq_nil_of_le hn, List.append_nil]
  rw [hz] at h
  exact List.eq_of_mem_replicate h

theorem zeroed_wipeFront (buffer : Bytes) (n : Nat) (length : Option Nat) :
    Output.Zeroed ⟨some (buffer.wipeFront n), length⟩ buffer.length n :=
  ⟨_, rfl, Bytes.length_wipeFront n buffer, fun _ h => eq_zero_of_mem_take_wipeFront h⟩

/-- Delivery to a buffer is decided by the room that its length says there is. -/
theorem deliver_eq (buffer : Bytes) (n : Nat) (result : Bytes) :
    Output.deliver ⟨some buffer, some n⟩ result =
      if n < result.length then (.shortBuffer, ⟨some (buffer.wipeFront n), some result.length⟩)
      else (.success, ⟨some (buffer.overwrite result), some result.length⟩) := rfl

/-- A result that cannot be delivered leaves zeros. -/
theorem zeroed_deliver (buffer : Bytes) (n : Nat) (result : Bytes)
    (h : (Output.deliver ⟨some buffer, some n⟩ result).1 ≠ .success) :
    (Output.deliver ⟨some buffer, some n⟩ result).2.Zeroed buffer.length n := by
  rw [deliver_eq] at h ⊢
  by_cases hn : n < result.length
  · rw [if_pos hn]
    exact zeroed_wipeFront buffer n _
  · rw [if_neg hn] at h
    exact absurd rfl h

/-- Work on a wiped output leaves zeros if it comes to no result, or to one that cannot be delivered. -/
theorem zeroed_work (s : Session) (name : String) (buffer : Bytes) (n : Nat) (result : Except Fault Bytes) :
    let output : Output := ⟨some (buffer.wipeFront n), some n⟩
    let reply := (s.guarded name output (result >>= fun bytes => .ok (output.deliver bytes))).2
    reply.status ≠ .success → reply.output.Zeroed buffer.length n := by
  intro output reply h
  cases result with
  | error fault => exact zeroed_wipeFront buffer n _
  | ok bytes =>
    have hz := zeroed_deliver (buffer.wipeFront n) n bytes h
    rwa [Bytes.length_wipeFront] at hz

/-! ## The calls one by one -/

section Calls

variable (s : Session) {data kek : Input}

/-- A null pointer ends a call under a named cipher. -/
theorem named_of_null {cipher : Option String} (h : cipher = none ∨ data.isNull ∨ kek.isNull) (way : Way) (padded : Int)
    (output : Output) : named s way cipher padded data kek output = (s.forget, ⟨.nullPointer, output⟩) := by
  cases cipher with
  | none => rfl
  | some cipher =>
    have hnull : data.isNull ∨ kek.isNull ∨ output.length.isNone := by
      rcases h with h | h | h
      · cases h
      · exact Or.inl h
      · exact Or.inr (Or.inl h)
    exact if_pos hnull

/-- A null pointer ends a call with a header. -/
theorem headed_of_null {header : Option Bytes} (h : kek.isNull ∨ header = none ∨ data.isNull) (way : Way)
    (output : Output) : headed s way kek header data output = (s.forget, ⟨.nullPointer, output⟩) := by
  cases header with
  | none => rfl
  | some header =>
    have hnull : kek.isNull ∨ data.isNull ∨ output.length.isNone := by
      rcases h with h | h | h
      · exact Or.inl h
      · cases h
      · exact Or.inr (Or.inl h)
    exact if_pos hnull

/-- The AES cipher for a key encryption key is missing if its length is none of the three. -/
theorem ofBytes?_eq_none_iff (n : Nat) : Aes.KeySize.ofBytes? n = none ↔ n ∉ [16, 24, 32] := by
  simp [Aes.KeySize.ofBytes?, Aes.KeySize.bytes, @eq_comm Nat n]

/-- A call under AES with a key encryption key of another length ends before it has begun. -/
theorem aes_of_length_notMem (h : kek.length ∉ [16, 24, 32]) (way : Way) (output : Output) :
    aes s way data kek output = (s, ⟨.invalidKeyLength, output⟩) := by
  rw [aes, (ofBytes?_eq_none_iff kek.length).mpr h]

/-- A call under AES is one under the cipher with the name for the length. -/
theorem aes_of_length_mem (h : kek.length ∈ [16, 24, 32]) :
    ∃ cipher, ∀ way output, aes s way data kek output = named s way (some cipher) 0 data kek output := by
  have hsize : Aes.KeySize.ofBytes? kek.length ≠ none := fun hn => (ofBytes?_eq_none_iff kek.length).mp hn h
  obtain ⟨size, hsize⟩ := Option.ne_none_iff_exists'.mp hsize
  exact ⟨size.name, fun way output => by rw [aes, hsize]⟩

section Wiped

variable (hd : ¬ data.isNull) (hk : ¬ kek.isNull) (buffer : Bytes) (n : Nat)
include hd hk

/-- With its pointers in order, a call that unwraps under a named cipher leaves zeros if it fails. -/
theorem zeroed_named (cipher : String) (padded : Int) :
    let reply := (named s .unwrap (some cipher) padded data kek ⟨some buffer, some n⟩).2
    reply.status ≠ .success → reply.output.Zeroed buffer.length n := by
  intro reply h
  let output : Output := ⟨some (buffer.wipeFront n), some n⟩
  let result := fault (serve (Way.unwrap.service (padded == 1)) (Message.untilNul cipher) kek.bytes data.bytes)
  have hpointers : ¬ (data.isNull ∨ kek.isNull ∨ (some n).isNone) := by simp [hd, hk]
  have hcall : named s .unwrap (some cipher) padded data kek ⟨some buffer, some n⟩ =
      s.guarded Way.unwrap.namedCall output
        (if padded ≠ 0 ∧ padded ≠ 1 then .ok (.notImplemented, output)
        else result >>= fun bytes => .ok (output.deliver bytes)) := if_neg hpointers
  simp only [reply, hcall] at h ⊢
  by_cases hp : padded ≠ 0 ∧ padded ≠ 1
  · rw [if_pos hp]
    exact zeroed_wipeFront buffer n _
  · rw [if_neg hp] at h ⊢
    exact zeroed_work s _ buffer n result h

/-- With its pointers in order, a call that unwraps with a header leaves zeros if it fails. -/
theorem zeroed_headed (header : Bytes) :
    let reply := (headed s .unwrap kek (some header) data ⟨some buffer, some n⟩).2
    reply.status ≠ .success → reply.output.Zeroed buffer.length n := by
  intro reply h
  let output : Output := ⟨some (buffer.wipeFront n), some n⟩
  let result := fault (serveHeaded Way.unwrap.headedService kek.bytes (header.take Headed.headerLength) data.bytes)
  have hpointers : ¬ (kek.isNull ∨ data.isNull ∨ (some n).isNone) := by simp [hd, hk]
  have hcall : headed s .unwrap kek (some header) data ⟨some buffer, some n⟩ =
      s.guarded Way.unwrap.headedCall output (result >>= fun bytes => .ok (output.deliver bytes)) := if_neg hpointers
  simp only [reply, hcall] at h ⊢
  exact zeroed_work s _ buffer n result h

end Wiped

end Calls

/-! ## Calls that unwrap -/

/-- A call that unwraps, but for its output: under a named cipher, under the AES cipher for the key encryption key, or
with a header. -/
inductive Unwrap where
  | named (cipher : Option String) (padded : Int) (data kek : Input)
  | aes (data kek : Input)
  | headed (kek : Input) (header : Option Bytes) (data : Input)
  deriving DecidableEq, Repr

namespace Unwrap

/-- The call with its output. -/
def call : Unwrap → Output → Call
  | named cipher padded data kek, output => .named .unwrap cipher padded data kek output
  | aes data kek, output => .aes .unwrap data kek output
  | headed kek header data, output => .headed .unwrap kek header data output

/-- A pointer is null, or there has to be an AES cipher for the key encryption key, and none has keys of its length. -/
def EndsEarly : Unwrap → Prop
  | named cipher _ data kek => cipher = none ∨ data.isNull ∨ kek.isNull
  | aes data kek => kek.length ∉ [16, 24, 32] ∨ data.isNull ∨ kek.isNull
  | headed kek header data => kek.isNull ∨ header = none ∨ data.isNull

variable (s : Session)

/-- A call that ends early fails, and leaves its output alone. -/
theorem perform_of_endsEarly {u : Unwrap} (h : u.EndsEarly) (output : Output) :
    ((u.call output).perform s).2.status ≠ .success ∧ ((u.call output).perform s).2.output = output := by
  cases u with
  | named cipher padded data kek =>
    rw [call, Call.perform, named_of_null s h]
    exact ⟨by simp, rfl⟩
  | headed kek header data =>
    rw [call, Call.perform, headed_of_null s h]
    exact ⟨by simp, rfl⟩
  | aes data kek =>
    rw [call, Call.perform]
    by_cases hlen : kek.length ∈ [16, 24, 32]
    · obtain ⟨cipher, hcall⟩ := aes_of_length_mem s hlen
      rw [hcall, named_of_null s (Or.inr (h.resolve_left (not_not_intro hlen)))]
      exact ⟨by simp, rfl⟩
    · rw [aes_of_length_notMem s hlen]
      exact ⟨by simp, rfl⟩

/-- A call that does not end early leaves zeros if it fails. -/
theorem zeroed_of_not_endsEarly {u : Unwrap} (h : ¬ u.EndsEarly) (buffer : Bytes) (n : Nat) :
    let reply := ((u.call ⟨some buffer, some n⟩).perform s).2
    reply.status ≠ .success → reply.output.Zeroed buffer.length n := by
  cases u with
  | named cipher padded data kek =>
    simp only [EndsEarly, not_or] at h
    obtain ⟨hc, hd, hk⟩ := h
    obtain ⟨cipher, rfl⟩ := Option.ne_none_iff_exists'.mp hc
    exact zeroed_named s hd hk buffer n cipher padded
  | headed kek header data =>
    simp only [EndsEarly, not_or] at h
    obtain ⟨hk, hh, hd⟩ := h
    obtain ⟨header, rfl⟩ := Option.ne_none_iff_exists'.mp hh
    exact zeroed_headed s hd hk buffer n header
  | aes data kek =>
    simp only [EndsEarly, not_or] at h
    obtain ⟨hlen, hd, hk⟩ := h
    obtain ⟨cipher, hcall⟩ := aes_of_length_mem s (Decidable.not_not.mp hlen)
    rw [call, Call.perform, hcall]
    exact zeroed_named s hd hk buffer n cipher 0

/-- **A failed unwrap leaves zeros in the output exactly if it does not end early**, or there were zeros before. -/
theorem failed_unwrap_zeroes_iff (u : Unwrap) (buffer : Bytes) (n : Nat) :
    let reply := ((u.call ⟨some buffer, some n⟩).perform s).2
    (reply.status ≠ .success → reply.output.Zeroed buffer.length n) ↔
      ¬ u.EndsEarly ∨ ∀ b ∈ buffer.take n, b = 0 := by
  intro reply
  by_cases h : u.EndsEarly
  · obtain ⟨hstatus, houtput⟩ : reply.status ≠ .success ∧ reply.output = ⟨some buffer, some n⟩ :=
      perform_of_endsEarly s h ⟨some buffer, some n⟩
    rw [houtput]
    constructor
    · intro hz
      obtain ⟨bytes, hbuffer, -, hbytes⟩ := hz hstatus
      cases hbuffer
      exact Or.inr hbytes
    · rintro (hn | hbytes) -
      · exact absurd h hn
      · exact ⟨buffer, rfl, rfl, hbytes⟩
  · exact ⟨fun _ => Or.inl h, fun _ => zeroed_of_not_endsEarly s h buffer n⟩

/-- With a key encryption key of 17 bytes, and also without anything to unwrap, the old bytes stay in the output. -/
theorem early_end_keeps_old_bytes :
    let old : Output := ⟨some (List.replicate 16 0xAA), some 16⟩
    let kek : Input := ⟨some (.zeros 17), 17⟩
    let data : Input := ⟨some (.zeros 24), 24⟩
    (((aes data kek).call old).perform (.start none)).2 = ⟨.invalidKeyLength, old⟩ ∧
      (((named (some "AES-128") 0 ⟨none, 0⟩ kek).call old).perform (.start none)).2 = ⟨.nullPointer, old⟩ ∧
      ¬ old.Zeroed 16 16 := by
  intro old kek data
  refine ⟨rfl, rfl, ?_⟩
  rintro ⟨bytes, hbytes, -, hz⟩
  cases hbytes
  exact absurd (hz 0xAA (by decide)) (by decide)

end Unwrap

end KeyWrapping.Foreign
