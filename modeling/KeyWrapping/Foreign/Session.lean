import KeyWrapping.Foreign.Memory

/-!
# Sessions of foreign calls

The calls of one thread share a message, that of the last failure. A guarded call forgets the message when it starts, so
that afterwards the message is either that of a failure inside the call or empty (`Session.guarded`). When failures are
traced, each leaves a line.
-/

namespace KeyWrapping.Foreign

/-- What can go wrong inside a call. -/
inductive Fault where
  | error (e : Error)
  | outOfMemory
  /-- A failure with a message that is none of this library's errors. -/
  | other (message : String)
  | unknown
  deriving DecidableEq, Repr

namespace Fault

/-- The status for a fault. -/
def status : Fault → Status
  | error e => .ofKind e.kind
  | outOfMemory => .outOfMemory
  | other _ => .otherFailure
  | unknown => .unknownError

/-- The message of a fault. -/
def message : Fault → String
  | error e => e.message
  | outOfMemory => "bad_alloc"
  | other message => Message.untilNul message
  | unknown => "unknown exception"

end Fault

/-- What the calls of one thread share. -/
structure Session where
  lastMessage : String
  tracing : Bool
  trace : String
  deriving DecidableEq, Repr

/-- How a call ended, and what it left in the caller's memory. -/
structure Reply where
  status : Status
  output : Output
  deriving DecidableEq, Repr

namespace Session

/-- A session in which nothing has failed yet. Failures are traced if the setting for it is there and not empty. -/
def start (setting : Option String) : Session := ⟨"", !(setting.getD "").isEmpty, ""⟩

/-- The session without a message. -/
def forget (s : Session) : Session := { s with lastMessage := "" }

/-- The session after a fault in the named call. -/
def record (s : Session) (name : String) (fault : Fault) : Session :=
  let line := s!"{name}: caught '{fault.message}', returning {fault.status.code}\n"
  { s with
    lastMessage := fault.message
    trace := if s.tracing then s.trace ++ line else s.trace }

/-- Runs the body of the named call. `atFault` is what the caller's memory holds if the body ends in a fault. -/
def guarded (s : Session) (name : String) (atFault : Output) (body : Except Fault (Status × Output)) :
    Session × Reply :=
  match body with
  | .ok (status, output) => (s.forget, ⟨status, output⟩)
  | .error fault => (s.forget.record name fault, ⟨fault.status, atFault⟩)

/-- After a guarded call the message is that of the fault inside it, or empty. -/
theorem lastMessage_guarded (s : Session) (name : String) (atFault : Output)
    (body : Except Fault (Status × Output)) :
    (s.guarded name atFault body).1.lastMessage = match body with
      | .ok _ => ""
      | .error fault => fault.message := by
  cases body <;> rfl

end Session

end KeyWrapping.Foreign
