import KeyWrapping.Bytes
import KeyWrapping.Error

/-!
# Messages written to a stream

Filling a format byte by byte. The format is written up to its next marker, then the argument, and so on with what
stands behind the marker; without a marker or an argument, all that is left of the format is written as it is. A marker
is only looked for in what is left of the format, never in what has been written.
-/

namespace KeyWrapping

namespace Message

/-! ## Arguments -/

/-- A number in decimal digits. -/
def decimal (n : Int) : String := (if n < 0 then "-" else "") ++ String.ofList (Nat.toDigits 10 n.natAbs)

/-- What can take the place of a marker. -/
inductive Argument where
  | text (bytes : Bytes)
  | number (n : Int)
  deriving DecidableEq, Repr

namespace Argument

/-- What is written for an argument. -/
def shown : Argument → Bytes
  | text bytes => bytes
  | number n => Bytes.ofText (decimal n)

end Argument

/-! ## Writing -/

/-- The marker, a pair of braces. -/
def marker : Bytes := [0x7B, 0x7D]

/-- Where the first marker begins. -/
def markerAt? (format : Bytes) : Option Nat :=
  (List.range format.length).find? fun i => marker.isPrefixOf (format.drop i)

/-- Writes a format behind what has been written, with arguments in the place of its markers. -/
def write (written format : Bytes) : List Argument → Bytes
  | [] => written ++ format
  | arg :: args =>
    match markerAt? format with
    | none => written ++ format
    | some i => write (written ++ format.take i ++ arg.shown) (format.drop (i + marker.length)) args

/-- What a format and arguments make. -/
def fillBytes (format : Bytes) (args : List Argument) : Bytes := write [] format args

end Message

/-! ## Formats of errors -/

open Message in
/-- The format and the arguments that make the words for an error; some errors come with words of their own. -/
def Error.format? : Error → Option (String × List String)
  | invalidArgument _ | invalidState _ => none
  | invalidKeyLength algorithm length =>
    some ("\x7b\x7d cannot accept a key of length \x7b\x7d", [algorithm, decimal length])
  | invalidDataLength algorithm length =>
    some ("\x7b\x7d cannot process an input of length \x7b\x7d", [algorithm, decimal length])
  | bufferTooSmall algorithm required provided =>
    some ("\x7b\x7d needs \x7b\x7d bytes of output space, got \x7b\x7d",
      [algorithm, decimal required, decimal provided])
  | keyNotSet algorithm => some ("Key not set in \x7b\x7d", [algorithm])
  | unavailable service algorithm provider =>
    if provider.isEmpty then some ("Unavailable \x7b\x7d \x7b\x7d", [service, algorithm])
    else some ("Unavailable \x7b\x7d \x7b\x7d for provider \x7b\x7d", [service, algorithm, provider])
  | invalidTag message => some ("\x7b\x7d \x7b\x7d", ["Invalid authentication tag:", message])
  | internal message => some ("\x7b\x7d \x7b\x7d", ["Internal error:", message])
  | backend step code => some ("OpenSSL \x7b\x7d failed: \x7b\x7d", [step, codeText code])

end KeyWrapping
