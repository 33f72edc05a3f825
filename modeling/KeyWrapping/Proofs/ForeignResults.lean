import KeyWrapping.Foreign.Call

/-!
# Foreign calls hand out what the library comes to

A foreign call that hands out bytes (`ByteCall`) is the matching use of the library (`ByteCall.outcome`) with a guard
around it and a delivery behind it (`ByteCall.perform_eq`). So everything that its caller sees afterwards (`Seen`), the
number, the message, the length and the buffer, is a function of what the library came to, of the buffer and of its
length (`ByteCall.foreseen`).
-/

namespace KeyWrapping.Foreign

/-! ## Names and numbers -/

theorem Status.ofKindNumber_number (k : ErrorKind) : ofKindNumber k.number = ofKind k := by
  rw [ofKindNumber, ErrorKind.ofNumber?_number]
  rfl

theorem Status.code_ofKindNumber_ne_zero (k : ErrorKind) : (ofKindNumber k.number).code ≠ 0 := by
  cases k <;> decide

/-! ## Calls that hand out bytes -/

/-- A call that hands out bytes, but for its output: a service under a named cipher or with a header, or reading hex. -/
inductive ByteCall where
  | named (way : Way) (cipher : String) (padded : Bool) (data kek : Input)
  | headed (way : Way) (kek : Input) (header : Bytes) (data : Input)
  | hex (text : Input)
  deriving DecidableEq, Repr

/-- What the caller sees after a call. -/
structure Seen where
  code : Int
  message : String
  output : Output
  deriving DecidableEq, Repr

namespace ByteCall

def call : ByteCall → Output → Call
  | named way cipher padded data kek, output => .named way (some cipher) (if padded then 1 else 0) data kek output
  | headed way kek header data, output => .headed way kek (some header) data output
  | hex text, output => .hexDecode text output

/-- No pointer is null that must not be, there is no NUL in the name, and the header has 16 bytes. -/
def Ready : ByteCall → Prop
  | named _ cipher _ data kek => '\x00' ∉ cipher.toList ∧ ¬ data.isNull ∧ ¬ kek.isNull
  | headed _ kek header data => header.length = 16 ∧ ¬ kek.isNull ∧ ¬ data.isNull
  | hex text => 0 < text.length → ¬ text.isNull

/-- What the library itself comes to. -/
def outcome : ByteCall → Except Error Bytes
  | named way cipher padded data kek => do
    let a ← Catalogue.find cipher ""
    let c ← (Cipher.fresh a).setKey kek.bytes
    match way, padded with
    | .wrap, false => Unpadded.wrap c data.bytes
    | .wrap, true => Padded.wrap c data.bytes
    | .unwrap, false => Unpadded.unwrap c data.bytes
    | .unwrap, true => Padded.unwrap c data.bytes
  | headed way kek header data => do
    let k ← BeltKek.create kek.bytes
    match way with
    | .wrap => Headed.wrap (.ok k.cipher) data.bytes header
    | .unwrap => Headed.unwrap (.ok k.cipher) data.bytes header
  | hex text => Hex.decode true text.bytes

/-- Whether the buffer is wiped before anything else is done. -/
def wipesFirst : ByteCall → Bool
  | named .unwrap .. | headed .unwrap .. => true
  | named .wrap .. | headed .wrap .. | hex _ => false

/-- What the caller sees after a call in a session. -/
def seen (call : ByteCall) (s : Session) (output : Output) : Seen :=
  let (s, reply) := (call.call output).perform s
  ⟨reply.status.code, s.lastMessage, reply.output⟩

/-- What the buffer has behind a result of `k` bytes, up to its first `n`. -/
def rest (call : ByteCall) (b : Bytes) (n k : Nat) : Bytes :=
  if call.wipesFirst then .zeros (n - k) else (b.take n).drop k

/-- What a caller with room for `n` bytes is to see, by what the library comes to. -/
def foreseen (call : ByteCall) (buffer : Option Bytes) (n : Nat) : Seen :=
  match call.outcome, buffer with
  | .ok bytes, some b =>
    if bytes.length ≤ n then ⟨0, "", ⟨some (bytes ++ call.rest b n bytes.length ++ b.drop n), some bytes.length⟩⟩
    else ⟨-10, "", ⟨some (.zeros n ++ b.drop n), some bytes.length⟩⟩
  | .ok bytes, none => ⟨-10, "", ⟨none, some bytes.length⟩⟩
  | .error e, some b =>
    ⟨(Status.ofKindNumber e.kind.number).code, e.message,
      ⟨some (if call.wipesFirst then .zeros n ++ b.drop n else b), some n⟩⟩
  | .error e, none => ⟨(Status.ofKindNumber e.kind.number).code, e.message, ⟨none, some n⟩⟩

/-! ## The call around the library -/

/-- The output before the result is delivered. -/
def prepared (call : ByteCall) (output : Output) : Output := if call.wipesFirst then output.wiped else output

/-- Of the numbers for padding, zero and one mean something. -/
theorem padding_eq (padded : Bool) :
    ((if padded then 1 else 0 : Int) == 1) = padded ∧
      ¬ ((if padded then 1 else 0 : Int) ≠ 0 ∧ (if padded then 1 else 0 : Int) ≠ 1) := by
  cases padded <;> decide

/-- A call is the library's work, guarded and delivered. -/
theorem perform_eq {call : ByteCall} (h : call.Ready) (s : Session) (buffer : Option Bytes) (n : Nat) :
    ∃ name, (call.call ⟨buffer, some n⟩).perform s =
      s.guarded name (call.prepared ⟨buffer, some n⟩)
        (fault call.outcome >>= fun bytes => .ok ((call.prepared ⟨buffer, some n⟩).deliver bytes)) := by
  cases call with
  | named way cipher padded data kek =>
    obtain ⟨hname, hd, hk⟩ := h
    have hpointers : ¬ (data.isNull ∨ kek.isNull ∨ (some n).isNone) := by simp [hd, hk]
    refine ⟨way.namedCall, (if_neg hpointers).trans ?_⟩
    rw [(padding_eq padded).1, if_neg (padding_eq padded).2, Message.untilNul_eq hname]
    cases way <;> cases padded <;> rfl
  | headed way kek header data =>
    obtain ⟨hheader, hk, hd⟩ := h
    have hpointers : ¬ (kek.isNull ∨ data.isNull ∨ (some n).isNone) := by simp [hd, hk]
    have htake : header.take Headed.headerLength = header := List.take_of_length_le (Nat.le_of_eq hheader)
    refine ⟨way.headedCall, (if_neg hpointers).trans ?_⟩
    rw [htake]
    cases way <;> rfl
  | hex text =>
    have hpointers : ¬ (0 < text.length ∧ text.isNull) := fun hn => h hn.1 hn.2
    refine ⟨"keywrap_hex_decode", ?_⟩
    rw [ByteCall.call, Call.perform, hexDecode, if_neg hpointers]
    rfl

/-! ## What the caller sees -/

section Buffers

variable (call : ByteCall) {b : Bytes} {n : Nat} (hn : n ≤ b.length)

theorem prepared_none (n : Nat) : call.prepared ⟨none, some n⟩ = ⟨none, some n⟩ := by
  unfold prepared
  split <;> rfl

include hn

theorem prepared_some :
    call.prepared ⟨some b, some n⟩ = ⟨some (if call.wipesFirst then .zeros n ++ b.drop n else b), some n⟩ := by
  unfold prepared
  split
  · exact congrArg (fun wiped => (⟨some wiped, some n⟩ : Output)) (Bytes.wipeFront_of_le hn)
  · rfl

/-- A result that fits leaves the rest of the buffer as it was prepared. -/
theorem deliver_prepared_of_le {bytes : Bytes} (hroom : bytes.length ≤ n) :
    (call.prepared ⟨some b, some n⟩).deliver bytes =
      (.success, ⟨some (bytes ++ call.rest b n bytes.length ++ b.drop n), some bytes.length⟩) := by
  rw [prepared_some call hn]
  simp only [Output.deliver, if_neg (Nat.not_lt.mpr hroom), Bytes.overwrite, rest, List.append_assoc]
  split
  · rw [List.drop_append_of_le_length (by simpa using hroom), Bytes.zeros, List.drop_replicate]
    rfl
  · rw [← List.drop_append_of_le_length (by simp; omega), List.take_append_drop]

/-- A result that does not fit leaves zeros. -/
theorem deliver_prepared_of_lt {bytes : Bytes} (hroom : n < bytes.length) :
    (call.prepared ⟨some b, some n⟩).deliver bytes =
      (.shortBuffer, ⟨some (.zeros n ++ b.drop n), some bytes.length⟩) := by
  rw [prepared_some call hn]
  simp only [Output.deliver, if_pos hroom]
  split
  · -- the buffer was wiped before, and wiping it again changes nothing
    rw [Bytes.wipeFront_of_le (by simp), List.drop_left' (Bytes.length_zeros n)]
  · rw [Bytes.wipeFront_of_le hn]

end Buffers

section Seen

variable {call : ByteCall} (h : call.Ready) (s : Session) (buffer : Option Bytes) (n : Nat)
include h

theorem seen_of_ok {bytes : Bytes} (hbytes : call.outcome = .ok bytes) :
    call.seen s ⟨buffer, some n⟩ =
      ⟨((call.prepared ⟨buffer, some n⟩).deliver bytes).1.code, "",
        ((call.prepared ⟨buffer, some n⟩).deliver bytes).2⟩ := by
  obtain ⟨name, hperform⟩ := perform_eq h s buffer n
  rw [seen, hperform, hbytes]
  rfl

theorem seen_of_error {e : Error} (he : call.outcome = .error e) :
    call.seen s ⟨buffer, some n⟩ = ⟨(Status.ofKind e.kind).code, e.message, call.prepared ⟨buffer, some n⟩⟩ := by
  obtain ⟨name, hperform⟩ := perform_eq h s buffer n
  rw [seen, hperform, he]
  rfl

end Seen

/-- **The caller sees what the library comes to**: its bytes, or zeros if there is no room for them, or the number and
the message of its error, and the number is not that of a success. -/
theorem call_refines {call : ByteCall} (h : call.Ready) (s : Session) {buffer : Option Bytes} {n : Nat}
    (hn : ∀ b, buffer = some b → n ≤ b.length) :
    call.seen s ⟨buffer, some n⟩ = call.foreseen buffer n ∧
      ∀ e, call.outcome = .error e → (call.seen s ⟨buffer, some n⟩).code ≠ 0 := by
  cases hr : call.outcome with
  | ok bytes =>
    have hseen := seen_of_ok h s buffer n hr
    refine ⟨?_, fun e he => by cases he⟩
    cases buffer with
    | none =>
      rw [prepared_none] at hseen
      simp only [foreseen, hr]
      exact hseen
    | some b =>
      rcases Nat.lt_or_ge n bytes.length with hroom | hroom
      · rw [deliver_prepared_of_lt call (hn b rfl) hroom] at hseen
        simp only [foreseen, hr, if_neg (Nat.not_le.mpr hroom)]
        exact hseen
      · rw [deliver_prepared_of_le call (hn b rfl) hroom] at hseen
        simp only [foreseen, hr, if_pos hroom]
        exact hseen
  | error e =>
    have hseen := seen_of_error h s buffer n hr
    rw [← Status.ofKindNumber_number] at hseen
    constructor
    · cases buffer with
      | none =>
        rw [prepared_none] at hseen
        simp only [foreseen, hr]
        exact hseen
      | some b =>
        rw [prepared_some call (hn b rfl)] at hseen
        simp only [foreseen, hr]
        exact hseen
    · rintro e' -
      rw [hseen]
      exact Status.code_ofKindNumber_ne_zero e.kind

/-- Two bytes read from hex are at the front of a buffer of three. A key of five bytes is none of AES, and what the
buffer held is gone as far as its length says. -/
theorem call_refines_hex_and_short_kek :
    let hexCall : ByteCall := .hex ⟨some (Bytes.ofText "4B57"), 4⟩
    let unwrapCall : ByteCall := .named .unwrap "AES-128" false ⟨some (.zeros 24), 24⟩ ⟨some (.zeros 5), 5⟩
    hexCall.Ready ∧ unwrapCall.Ready ∧ (∀ n ≤ 3, ∀ b : Bytes, some [1, 2, 3] = some b → n ≤ b.length) ∧
      hexCall.seen (.start none) ⟨some [1, 2, 3], some 3⟩ = ⟨0, "", ⟨some [0x4B, 0x57, 3], some 2⟩⟩ ∧
      unwrapCall.seen (.start none) ⟨some [1, 2, 3], some 2⟩ =
        ⟨-34, "AES-128 cannot accept a key of length 5", ⟨some [0, 0, 3], some 2⟩⟩ ∧
      (unwrapCall.seen (.start none) ⟨some [1, 2, 3], some 2⟩).code ≠ 0 := by
  intro hexCall unwrapCall
  have hhex : hexCall.Ready := fun _ => by decide
  have hunwrap : unwrapCall.Ready := ⟨by decide, by decide, by decide⟩
  have hn : ∀ n ≤ 3, ∀ b : Bytes, some [1, 2, 3] = some b → n ≤ b.length := by
    rintro n h b ⟨⟩
    exact h
  obtain ⟨hseen, -⟩ := call_refines hhex (.start none) (hn 3 (by decide))
  obtain ⟨hseen', hcode⟩ := call_refines hunwrap (.start none) (hn 2 (by decide))
  exact ⟨hhex, hunwrap, hn, hseen, hseen', hcode (.invalidKeyLength "AES-128" 5) rfl⟩

end ByteCall

end KeyWrapping.Foreign
