import KeyWrapping.Message

/-!
# Errors

An error is its cause. What callers see of it are functions of the cause: its kind and the kind's number (`Error.kind`,
`ErrorKind.number`), the code it carries from below (`Error.code`), and its message (`Error.message`). Kinds overlap in
two families: a bad length and a short buffer are bad arguments, and a missing key is a bad state.
-/

namespace KeyWrapping

/-- The kinds of error that callers can tell apart by number. -/
inductive ErrorKind where
  | unknown | outOfMemory | internal | backend
  | invalidState | keyNotSet | invalidArgument | invalidKeyLength | invalidDataLength | lookup | invalidTag
  | bufferTooSmall
  deriving DecidableEq, Repr

namespace ErrorKind

/-- The number of a kind: general kinds count from 1, kinds of this library from 100. -/
def number : ErrorKind → Nat
  | unknown => 1
  | outOfMemory => 2
  | internal => 3
  | backend => 4
  | invalidState => 100
  | keyNotSet => 101
  | invalidArgument => 102
  | invalidKeyLength => 103
  | invalidDataLength => 104
  | lookup => 105
  | invalidTag => 106
  | bufferTooSmall => 107

/-- Every kind, in the order of the numbers. -/
def all : List ErrorKind :=
  [unknown, outOfMemory, internal, backend, invalidState, keyNotSet, invalidArgument, invalidKeyLength,
    invalidDataLength, lookup, invalidTag, bufferTooSmall]

/-- The kind with a number, if there is one. -/
def ofNumber? (n : Int) : Option ErrorKind := all.find? fun k => (k.number : Int) == n

theorem ofNumber?_number (k : ErrorKind) : ofNumber? k.number = some k := by
  cases k <;> rfl

end ErrorKind

/-- Why an operation failed. -/
inductive Error where
  | invalidArgument (message : String)
  | invalidKeyLength (algorithm : String) (length : Nat)
  | invalidDataLength (algorithm : String) (length : Nat)
  | bufferTooSmall (algorithm : String) (required provided : Nat)
  | invalidState (message : String)
  | keyNotSet (algorithm : String)
  /-- Nothing of this name is on offer, or not from this provider; an empty provider stands for any. -/
  | unavailable (service algorithm provider : String)
  | invalidTag (message : String)
  | internal (message : String)
  | backend (step : String) (code : UInt64)
  deriving DecidableEq, Repr

namespace Error

/-- The kind of an error. -/
def kind : Error → ErrorKind
  | invalidArgument _ => .invalidArgument
  | invalidKeyLength .. => .invalidKeyLength
  | invalidDataLength .. => .invalidDataLength
  | bufferTooSmall .. => .bufferTooSmall
  | invalidState _ => .invalidState
  | keyNotSet _ => .keyNotSet
  | unavailable .. => .lookup
  | invalidTag _ => .invalidTag
  | internal _ => .internal
  | backend .. => .backend

/-- Whether the error says that an argument was bad. -/
def isArgumentError : Error → Bool
  | invalidArgument _ | invalidKeyLength .. | invalidDataLength .. | bufferTooSmall .. => true
  | _ => false

/-- Whether the error says that an object was in a bad state. -/
def isStateError : Error → Bool
  | invalidState _ | keyNotSet _ => true
  | _ => false

/-- Whether the error says that the input is not authentic. -/
def isForgery : Error → Bool
  | invalidTag _ => true
  | _ => false

theorem isForgery_eq_true_iff (e : Error) : e.isForgery = true ↔ e.kind = .invalidTag := by
  cases e <;> simp [isForgery, kind]

/-- The backend's code as a signed 32-bit number, and zero for errors that carry none. -/
def code : Error → Int
  | backend _ code => (code.toBitVec.setWidth 32).toInt
  | _ => 0

/-- A number in upper-case hex, with at least eight digits. -/
def hexCode (n : Nat) : String :=
  let digits := (Nat.toDigits 16 n).map Char.toUpper
  String.ofList (List.replicate (8 - digits.length) '0' ++ digits)

/-- The backend's way to write a code it has no words for: bits 23 to 30 name a library, the bits below a reason. -/
def codeText (code : UInt64) : String :=
  let n := code.toNat
  s!"error:{hexCode n}:lib({(n >>> 23) % 256})::reason({n % 0x800000})"

/-- The words for an error, which may go on behind a NUL. -/
def wording : Error → String
  | invalidArgument message => message
  | invalidKeyLength algorithm length => s!"{algorithm} cannot accept a key of length {length}"
  | invalidDataLength algorithm length => s!"{algorithm} cannot process an input of length {length}"
  | bufferTooSmall algorithm required provided =>
    s!"{algorithm} needs {required} bytes of output space, got {provided}"
  | invalidState message => message
  | keyNotSet algorithm => s!"Key not set in {algorithm}"
  | unavailable service algorithm provider =>
    if provider.isEmpty then s!"Unavailable {service} {algorithm}"
    else s!"Unavailable {service} {algorithm} for provider {provider}"
  | invalidTag message => s!"Invalid authentication tag: {message}"
  | internal message => s!"Internal error: {message}"
  | backend step code => s!"OpenSSL {step} failed: {codeText code}"

/-- The message of an error. -/
def message (e : Error) : String := Message.untilNul e.wording

/-! ## Failed checks -/

/-- An argument failed a check in the named place. -/
def failedArgument (complaint place file : String) : Error :=
  .invalidArgument s!"{Message.untilNul complaint} in {Message.untilNul place}:{Message.untilNul file}"

/-- The state of an object failed a check in the named place. -/
def failedState (condition place file : String) : Error :=
  let origin := s!"{Message.untilNul place}:{Message.untilNul file}"
  .invalidState s!"Invalid state: {Message.untilNul condition} does not hold in {origin}"

/-- An assertion failed in the named place; the statement it was made for comes first if there is one. -/
def failedAssertion (condition : String) (statement : Option String) (place file : String) (line : Int) : Error :=
  let condition := Message.untilNul condition
  let statement := Message.untilNul (statement.getD "")
  let what := if statement.isEmpty then condition else s!"'{statement}' ({condition})"
  .internal s!"failed assertion {what} in {Message.untilNul place} at {Message.untilNul file}:{line}"

end Error

/-- Goes on if the condition holds, and fails with the error otherwise. -/
def ensure (condition : Bool) (e : Error) : Except Error Unit := if condition then .ok () else .error e

@[simp] theorem ensure_true (e : Error) : ensure true e = .ok () := rfl

/-- What follows a check is reached only if the check goes well. -/
theorem ensure_bind {α : Type} (condition : Bool) (e : Error) (next : Unit → Except Error α) :
    (ensure condition e >>= next) = if condition then next () else .error e := by
  cases condition <;> rfl

theorem ensure_eq_ok_iff {condition : Bool} {e : Error} {u : Unit} :
    ensure condition e = .ok u ↔ condition = true := by
  cases condition <;> simp [ensure]

/-- The error that a computation ends in, if it ends in one. -/
def failure? {α : Type} : Except Error α → Option Error
  | .ok _ => none
  | .error e => some e

theorem failure?_eq_some_iff {α : Type} {x : Except Error α} {e : Error} : failure? x = some e ↔ x = .error e := by
  cases x <;> simp [failure?]

end KeyWrapping
