import KeyWrapping.Proofs.FailedUnwraps
import Mathlib.Data.List.Induction

/-!
# Whose message is the last one

A call that reports its failures (`Call.Reports`) leaves a message of its own: that of the error that the library came
to inside the call (`Call.raised?`), or none. Only a call under AES whose key encryption key has a length that no AES
cipher has (`Call.RefusesLength`) ends before it touches the message. So the message after a run is that of the last
call which left one (`lastMessage_run`), and after such a refusal it is still that of an earlier call, if that one
failed by an error.
-/

namespace KeyWrapping.Foreign

/-! ## Errors inside calls -/

/-- The error of the work under a named cipher, which is begun if no pointer is null and the padding means something. -/
def namedError? (way : Way) (cipher : Option String) (padded : Int) (data kek : Input) (output : Output) :
    Option Error :=
  match cipher with
  | none => none
  | some cipher =>
    if data.isNull ∨ kek.isNull ∨ output.length.isNone then none
    else if padded ≠ 0 ∧ padded ≠ 1 then none
    else failure? (serve (way.service (padded == 1)) (Message.untilNul cipher) kek.bytes data.bytes)

/-- The error of the work with a header, which is begun if no pointer is null. -/
def headedError? (way : Way) (kek : Input) (header : Option Bytes) (data : Input) (output : Output) : Option Error :=
  match header with
  | none => none
  | some header =>
    if kek.isNull ∨ data.isNull ∨ output.length.isNone then none
    else failure? (serveHeaded way.headedService kek.bytes (header.take Headed.headerLength) data.bytes)

namespace Call

/-- The error that the library comes to inside the call, if the call asks it for anything. -/
def raised? : Call → Option Error
  | hexDecode text _ => if 0 < text.length ∧ text.isNull then none else failure? (Hex.decode true text.bytes)
  | named way cipher padded data kek output => namedError? way cipher padded data kek output
  | aes way data kek output =>
    (Aes.KeySize.ofBytes? kek.length).bind fun size => namedError? way (some size.name) 0 data kek output
  | headed way kek header data output => headedError? way kek header data output
  | hexEncode _ _ _ | compare _ _ | scrub _ _ | supports _ => none

/-- The message of the error inside the call, and none if there is no error. -/
def ownMessage (call : Call) : String := (call.raised?.map Error.message).getD ""

/-- The call is one that reports its failures by the message, too. -/
def Reports : Call → Prop
  | hexEncode _ _ _ | hexDecode _ _ | named _ _ _ _ _ _ | aes _ _ _ _ | headed _ _ _ _ _ => True
  | compare _ _ | scrub _ _ | supports _ => False

/-- There has to be an AES cipher for the key encryption key, and none has keys of its length. -/
def RefusesLength : Call → Prop
  | aes _ _ kek _ => kek.length ∉ [16, 24, 32]
  | hexEncode _ _ _ | hexDecode _ _ | named _ _ _ _ _ _ | headed _ _ _ _ _ | compare _ _ | scrub _ _ | supports _ =>
    False

instance : DecidablePred Reports
  | hexEncode _ _ _ | hexDecode _ _ | named _ _ _ _ _ _ | aes _ _ _ _ | headed _ _ _ _ _ => .isTrue trivial
  | compare _ _ | scrub _ _ | supports _ => .isFalse id

instance : DecidablePred RefusesLength
  | aes _ _ kek _ => inferInstanceAs (Decidable (kek.length ∉ [16, 24, 32]))
  | hexEncode _ _ _ | hexDecode _ _ | named _ _ _ _ _ _ | headed _ _ _ _ _ | compare _ _ | scrub _ _ | supports _ =>
    .isFalse id

/-- The message that the call leaves, if it does not leave the message alone. -/
def message? (call : Call) : Option String := if call.Reports ∧ ¬ call.RefusesLength then some call.ownMessage else none

end Call

/-! ## One call -/

/-- The message is that of the error, and the status tells its kind; without an error there is no message. -/
structure Reported (raised : Option Error) (result : Session × Reply) : Prop where
  lastMessage : result.1.lastMessage = (raised.map Error.message).getD ""
  status : ∀ e, raised = some e → result.2.status = .ofKind e.kind

section Calls

variable (s : Session) (way : Way) (data kek : Input) (output : Output)

/-- A guarded call that does not fail by an error leaves no message. -/
theorem reported_guarded_ok (name : String) (result : Status × Output) :
    Reported none (s.guarded name output (.ok result)) where
  lastMessage := s.lastMessage_guarded name output (.ok result)
  status := nofun

/-- A guarded call reports the error of its work. -/
theorem reported_work (name : String) (result : Except Error Bytes) :
    Reported (failure? result) (s.guarded name output (fault result >>= fun bytes => .ok (output.deliver bytes))) := by
  cases result with
  | ok bytes => exact reported_guarded_ok s output name (output.deliver bytes)
  | error e =>
    refine ⟨s.lastMessage_guarded name output (.error (.error e)), ?_⟩
    rintro _ ⟨⟩
    rfl

/-- A call that a null pointer ends leaves no message. -/
theorem reported_null : Reported none (s.forget, ⟨.nullPointer, output⟩) where
  lastMessage := rfl
  status := nofun

/-- Where a call ends early without an error, it leaves no message. -/
theorem reported_guarded_ite {p : Prop} [Decidable p] {name : String} {raised : Option Error} {result : Status × Output}
    {body : Except Fault (Status × Output)} (h : Reported raised (s.guarded name output body)) :
    Reported (if p then none else raised) (s.guarded name output (if p then .ok result else body)) := by
  split
  · exact reported_guarded_ok s output name result
  · exact h

theorem reported_hexEncode (input : Input) (letters : Hex.LetterCase) (buffer : Option Bytes) :
    Reported none (hexEncode s input letters buffer) := by
  unfold hexEncode
  split <;> exact reported_guarded_ok s _ _ _

theorem reported_hexDecode (text : Input) : Reported (Call.hexDecode text output).raised? (hexDecode s text output) :=
  reported_guarded_ite s output (reported_work s output _ _)

theorem reported_named (cipher : Option String) (padded : Int) :
    Reported (namedError? way cipher padded data kek output) (named s way cipher padded data kek output) := by
  cases cipher with
  | none => exact reported_null s output
  | some cipher =>
    simp only [named, namedError?]
    split
    · exact reported_null s output
    · exact reported_guarded_ite s _ (reported_work s _ _ _)

theorem reported_headed (header : Option Bytes) :
    Reported (headedError? way kek header data output) (headed s way kek header data output) := by
  cases header with
  | none => exact reported_null s output
  | some header =>
    simp only [headed, headedError?]
    split
    · exact reported_null s output
    · exact reported_work s _ _ _

/-- A call that refuses the length leaves the message alone, and raises no error. -/
theorem perform_of_refusesLength {call : Call} (h : call.RefusesLength) :
    (call.perform s).1 = s ∧ call.raised? = none := by
  cases call with
  | aes way data kek output =>
    constructor
    · rw [Call.perform, aes_of_length_notMem s h]
    · rw [Call.raised?, (ofBytes?_eq_none_iff kek.length).mpr h]
      rfl
  | _ => exact h.elim

/-- Every other call that reports failures reports its own. -/
theorem reported_perform {call : Call} (h : call.Reports) (hlength : ¬ call.RefusesLength) :
    Reported call.raised? (call.perform s) := by
  cases call with
  | hexEncode input letters buffer => exact reported_hexEncode s input letters buffer
  | hexDecode text output => exact reported_hexDecode s output text
  | named way cipher padded data kek output => exact reported_named s way data kek output cipher padded
  | headed way kek header data output => exact reported_headed s way data kek output header
  | aes way data kek output =>
    obtain ⟨size, hsize⟩ : ∃ size, Aes.KeySize.ofBytes? kek.length = some size := by
      rw [← Option.ne_none_iff_exists']
      exact fun hnone => hlength ((ofBytes?_eq_none_iff kek.length).mp hnone)
    rw [Call.perform, aes, Call.raised?, hsize]
    exact reported_named s way data kek output (some size.name) 0
  | compare x y => exact h.elim
  | scrub buffer length => exact h.elim
  | supports version => exact h.elim

theorem perform_of_not_reports {call : Call} (h : ¬ call.Reports) : (call.perform s).1 = s := by
  cases call with
  | compare x y => rfl
  | scrub buffer length => rfl
  | supports version => rfl
  | _ => exact absurd trivial h

theorem lastMessage_perform (call : Call) : (call.perform s).1.lastMessage = call.message?.getD s.lastMessage := by
  unfold Call.message?
  split
  · next h => exact (reported_perform s h.1 h.2).lastMessage
  · next h =>
    by_cases hreports : call.Reports
    · rw [(perform_of_refusesLength s (by simpa [hreports] using h)).1]
      rfl
    · rw [perform_of_not_reports s hreports]
      rfl

end Calls

/-! ## Runs of calls -/

theorem Session.run_append (s : Session) (calls later : List Call) :
    (s.run (calls ++ later)).1 = ((s.run calls).1.run later).1 := by
  induction calls generalizing s with
  | nil => rfl
  | cons call calls ih => exact ih _

theorem Session.run_concat (s : Session) (calls : List Call) (call : Call) :
    (s.run (calls ++ [call])).1 = (call.perform (s.run calls).1).1 := s.run_append calls [call]

/-- The message after a run is that of the last call which left one. -/
theorem lastMessage_run (s : Session) (calls : List Call) :
    (s.run calls).1.lastMessage = (calls.reverse.findSome? Call.message?).getD s.lastMessage := by
  induction calls using List.reverseRecOn with
  | nil => rfl
  | append_singleton calls call ih =>
    rw [Session.run_concat, lastMessage_perform, List.reverse_concat, List.findSome?_cons]
    cases call.message? with
    | none => exact ih
    | some message => rfl

/-- **After a call that reports failures, the message is its own exactly if it does not refuse the length**, or there
was no message before. The message before was that of the last call which left one, and an error inside the call shows
in its status. -/
theorem message_is_own_iff (setting : Option String) (calls : List Call) {call : Call} (h : call.Reports) :
    let before := ((Session.start setting).run calls).1
    let after := ((Session.start setting).run (calls ++ [call])).1
    (after.lastMessage = call.ownMessage ↔ ¬ call.RefusesLength ∨ before.lastMessage = "") ∧
      before.lastMessage = (calls.reverse.findSome? Call.message?).getD "" ∧
      ∀ e, call.raised? = some e →
        (call.perform before).2.status = .ofKind e.kind ∧ Status.ofKind e.kind ≠ .success := by
  intro before after
  have hafter : after = (call.perform before).1 := Session.run_concat _ calls call
  refine ⟨?_, lastMessage_run _ calls, ?_⟩
  · by_cases hlength : call.RefusesLength
    · obtain ⟨hsame, hnone⟩ := perform_of_refusesLength before hlength
      have hown : call.ownMessage = "" := by
        rw [Call.ownMessage, hnone]
        rfl
      rw [hafter, hsame, hown]
      simp [hlength]
    · rw [hafter, (reported_perform before h hlength).lastMessage]
      exact iff_of_true rfl (Or.inl hlength)
  · intro e he
    have hlength : ¬ call.RefusesLength := by
      intro hlength
      rw [(perform_of_refusesLength before hlength).2] at he
      cases he
    exact ⟨(reported_perform before h hlength).status e he, Status.ofKind_ne_success e.kind⟩

/-- After a failure to read hex, data of 15 bytes are what a call under AES-128 complains of. -/
theorem message_is_own_iff_short_data :
    let calls : List Call := [.hexDecode ⟨some (Bytes.ofText "4x"), 2⟩ ⟨none, some 0⟩]
    let call : Call := .aes .wrap ⟨some (.zeros 15), 15⟩ ⟨some (.zeros 16), 16⟩ ⟨none, some 0⟩
    call.Reports ∧ ((Session.start none).run calls).1.lastMessage = "hex_decode: invalid character 'x'" ∧
      ((Session.start none).run (calls ++ [call])).1.lastMessage =
        "NIST key wrap cannot process an input of length 15" := by
  intro calls call
  have h : call.Reports := trivial
  obtain ⟨hiff, -, -⟩ := message_is_own_iff none calls h
  exact ⟨h, rfl, (hiff.mpr (Or.inl (by decide))).trans rfl⟩

/-- After a failure to read hex, a call under AES with a key encryption key of 17 bytes fails without an error, and the
message is still that of the failure to read hex. -/
theorem refused_length_shows_old_message :
    let calls : List Call := [.hexDecode ⟨some (Bytes.ofText "4x"), 2⟩ ⟨none, some 0⟩]
    let call : Call := .aes .wrap ⟨some (.zeros 16), 16⟩ ⟨some (.zeros 17), 17⟩ ⟨none, some 0⟩
    call.Reports ∧ call.raised? = none ∧ call.ownMessage = "" ∧
      (call.perform ((Session.start none).run calls).1).2.status = .invalidKeyLength ∧
      ((Session.start none).run (calls ++ [call])).1.lastMessage = "hex_decode: invalid character 'x'" :=
  ⟨trivial, rfl, rfl, rfl, rfl⟩

end KeyWrapping.Foreign
