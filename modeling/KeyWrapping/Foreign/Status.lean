import KeyWrapping.Error

/-!
# Status numbers

Callers that cannot receive errors as values get a status number. Every kind of error has a status (`Status.ofKind`),
and every status has a short description; a number that belongs to no status is described as an unknown error.
-/

namespace KeyWrapping.Foreign

/-- How a call ended. -/
inductive Status where
  | success | invalidInput | badTag | shortBuffer | otherFailure | outOfMemory | backendFailure | internalError
  | nullPointer | badParameter | keyNotSet | invalidKeyLength | invalidState | notImplemented | unknownError
  deriving DecidableEq, Repr

namespace Status

/-- The number of a status. -/
def code : Status → Int
  | success => 0
  | invalidInput => -1
  | badTag => -2
  | shortBuffer => -10
  | otherFailure => -20
  | outOfMemory => -21
  | backendFailure => -22
  | internalError => -23
  | nullPointer => -31
  | badParameter => -32
  | keyNotSet => -33
  | invalidKeyLength => -34
  | invalidState => -35
  | notImplemented => -40
  | unknownError => -100

/-- Every status. -/
def all : List Status :=
  [success, invalidInput, badTag, shortBuffer, otherFailure, outOfMemory, backendFailure, internalError, nullPointer,
    badParameter, keyNotSet, invalidKeyLength, invalidState, notImplemented, unknownError]

/-- The status with a number; a number of no status counts as an unknown error. -/
def ofCode (code : Int) : Status := (all.find? fun s => s.code == code).getD unknownError

/-- A few words about a status. -/
def description : Status → String
  | success => "OK"
  | invalidInput => "Invalid input"
  | badTag => "Invalid authentication code"
  | shortBuffer => "Insufficient buffer space"
  | otherFailure => "Exception thrown"
  | outOfMemory => "Out of memory"
  | backendFailure => "Error in the underlying crypto library"
  | internalError => "Internal error"
  | nullPointer => "Null pointer argument"
  | badParameter => "Bad parameter"
  | keyNotSet => "Key not set on object"
  | invalidKeyLength => "Invalid key length"
  | invalidState => "Invalid object state"
  | notImplemented => "Not implemented"
  | unknownError => "Unknown error"

/-- The status for a kind of error. -/
def ofKind : ErrorKind → Status
  | .outOfMemory => outOfMemory
  | .internal => internalError
  | .backend => backendFailure
  | .invalidState => invalidState
  | .keyNotSet => keyNotSet
  | .invalidArgument => badParameter
  | .invalidKeyLength => invalidKeyLength
  | .invalidDataLength => invalidInput
  | .lookup => notImplemented
  | .invalidTag => badTag
  | .bufferTooSmall => shortBuffer
  | .unknown => unknownError

/-- The status for the number of a kind of error; a number of no kind counts as an unknown error. -/
def ofKindNumber (n : Int) : Status := ((ErrorKind.ofNumber? n).map ofKind).getD unknownError

/-- No error looks like a success. -/
theorem ofKind_ne_success (k : ErrorKind) : ofKind k ≠ success := by
  cases k <;> decide

end Status

end KeyWrapping.Foreign
