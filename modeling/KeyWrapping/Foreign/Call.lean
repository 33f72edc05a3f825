import KeyWrapping.Foreign.Session
import KeyWrapping.Hex
import KeyWrapping.Kek.Aes
import KeyWrapping.Kek.Belt

/-!
# Foreign calls

The calls that foreign callers can make (`Call`), what each does to the session and the caller's memory
(`Call.perform`), and runs of calls (`Session.run`). The calls that wrap and unwrap first refuse null pointers. Those
that unwrap then wipe the output, so that whatever stops them from there on, no old bytes are taken for a key.
-/

namespace KeyWrapping.Foreign

/-- A library error as a fault. -/
def fault {α : Type} (result : Except Error α) : Except Fault α := result.mapError .error

/-! ## Hex -/

/-- Writes bytes in hex into a buffer that is long enough for them. -/
def hexEncode (s : Session) (input : Input) (letters : Hex.LetterCase) (buffer : Option Bytes) : Session × Reply :=
  s.guarded "keywrap_hex_encode" ⟨buffer, none⟩ <|
    if 0 < input.length ∧ (input.isNull ∨ buffer.isNone) then .ok (.nullPointer, ⟨buffer, none⟩)
    else .ok (.success, ⟨buffer.map fun b => b.overwrite (Hex.encode letters input.bytes), none⟩)

/-- Reads hex, skipping blanks. -/
def hexDecode (s : Session) (text : Input) (output : Output) : Session × Reply :=
  s.guarded "keywrap_hex_decode" output <|
    if 0 < text.length ∧ text.isNull then .ok (.nullPointer, output)
    else do
      let bytes ← fault (Hex.decode true text.bytes)
      return output.deliver bytes

/-! ## Which way keys go -/

/-- Which way a key goes. -/
inductive Way where
  | wrap | unwrap
  deriving DecidableEq, Repr

namespace Way

/-- The service for a way, with padding or without. -/
def service : Way → (padded : Bool) → Service
  | wrap, false => .wrap
  | wrap, true => .wrapPadded
  | unwrap, false => .unwrap
  | unwrap, true => .unwrapPadded

/-- The service for a way with a header. -/
def headedService : Way → BeltKek.Service
  | wrap => .wrap
  | unwrap => .unwrap

/-- The name of the call that goes this way under a named cipher. -/
def namedCall : Way → String
  | wrap => "keywrap_nist_kw_enc"
  | unwrap => "keywrap_nist_kw_dec"

/-- The name of the call that goes this way with a header. -/
def headedCall : Way → String
  | wrap => "keywrap_belt_kwp_wrap"
  | unwrap => "keywrap_belt_kwp_unwrap"

/-- What becomes of the output before the work begins. -/
def prepare : Way → Output → Output
  | wrap, output => output
  | unwrap, output => output.wiped

end Way

/-! ## Keys under a named cipher -/

/-- The result of a service under a named cipher. -/
def serve (service : Service) (cipher : String) (kek data : Bytes) : Except Error Bytes := do
  let a ← Catalogue.find cipher ""
  let c ← (Cipher.fresh a).setKey kek
  service.run c data

/-- Wraps or unwraps a key under a named cipher. Padding is a number, of which only zero and one mean something. The
output is memory apart from the data and the key encryption key, which can still be read after it was wiped. -/
def named (s : Session) (way : Way) (cipher : Option String) (padded : Int) (data kek : Input) (output : Output) :
    Session × Reply :=
  match cipher with
  | some cipher =>
    if data.isNull ∨ kek.isNull ∨ output.length.isNone then (s.forget, ⟨.nullPointer, output⟩)
    else
      let output := way.prepare output
      s.guarded way.namedCall output <|
        if padded ≠ 0 ∧ padded ≠ 1 then .ok (.notImplemented, output)
        else do
          let bytes ← fault (serve (way.service (padded == 1)) (Message.untilNul cipher) kek.bytes data.bytes)
          return output.deliver bytes
  | none => (s.forget, ⟨.nullPointer, output⟩)

/-- Wraps or unwraps a key under the AES cipher for the length of the key encryption key. A length that no AES cipher
has ends the call before it has begun. -/
def aes (s : Session) (way : Way) (data kek : Input) (output : Output) : Session × Reply :=
  match Aes.KeySize.ofBytes? kek.length with
  | some size => named s way (some size.name) 0 data kek output
  | none => (s, ⟨.invalidKeyLength, output⟩)

/-! ## Keys with a header -/

/-- The result of a service under BelT. -/
def serveHeaded (service : BeltKek.Service) (kek header data : Bytes) : Except Error Bytes := do
  let k ← BeltKek.create kek
  service.run (.ok k.cipher) data header

/-- Wraps or unwraps a key with a header, which is a pointer without a length. The output is memory apart from the data,
the header and the key encryption key, which can still be read after it was wiped. -/
def headed (s : Session) (way : Way) (kek : Input) (header : Option Bytes) (data : Input) (output : Output) :
    Session × Reply :=
  match header with
  | some header =>
    if kek.isNull ∨ data.isNull ∨ output.length.isNone then (s.forget, ⟨.nullPointer, output⟩)
    else
      let output := way.prepare output
      s.guarded way.headedCall output do
        let header := header.take Headed.headerLength
        let bytes ← fault (serveHeaded way.headedService kek.bytes header data.bytes)
        return output.deliver bytes
  | none => (s.forget, ⟨.nullPointer, output⟩)

/-! ## Calls that leave the message alone -/

/-- Compares two ranges of one length. -/
def compareRanges (x y : Bytes) : Status := if x.constantTimeEqual y then .success else .invalidInput

/-- The version of this interface. -/
def apiVersion : UInt32 := 20250101

/-- Whether an interface version is supported: only this one is. -/
def supports (version : UInt32) : Status := if version = apiVersion then .success else .invalidInput

/-! ## All calls -/

/-- A foreign call with its arguments. -/
inductive Call where
  | hexEncode (input : Input) (letters : Hex.LetterCase) (buffer : Option Bytes)
  | hexDecode (text : Input) (output : Output)
  | named (way : Way) (cipher : Option String) (padded : Int) (data kek : Input) (output : Output)
  /-- Wraps or unwraps under the AES cipher for the key encryption key. -/
  | aes (way : Way) (data kek : Input) (output : Output)
  | headed (way : Way) (kek : Input) (header : Option Bytes) (data : Input) (output : Output)
  | compare (x y : Bytes)
  | scrub (buffer : Bytes) (length : Nat)
  | supports (version : UInt32)
  deriving DecidableEq, Repr

/-- What a call does to the session, and its reply. -/
def Call.perform (s : Session) : Call → Session × Reply
  | .hexEncode input letters buffer => Foreign.hexEncode s input letters buffer
  | .hexDecode text output => Foreign.hexDecode s text output
  | .named way cipher padded data kek output => Foreign.named s way cipher padded data kek output
  | .aes way data kek output => Foreign.aes s way data kek output
  | .headed way kek header data output => Foreign.headed s way kek header data output
  | .compare x y => (s, ⟨compareRanges x y, .none⟩)
  | .scrub buffer length => (s, ⟨.success, ⟨some (buffer.wipeFront length), none⟩⟩)
  | .supports version => (s, ⟨Foreign.supports version, .none⟩)

/-- The session after a run of calls, and the replies in order. -/
def Session.run (s : Session) : List Call → Session × List Reply
  | [] => (s, [])
  | call :: calls =>
    let (s, reply) := call.perform s
    let (s, replies) := s.run calls
    (s, reply :: replies)

end KeyWrapping.Foreign
