import KeyWrapping.Error
import KeyWrapping.Mask

/-!
# Hex text

Text is the bytes of its characters. Key material passes through here, so a digit is written and read by arithmetic on
masks, without a table and without a branch on the data (`Hex.digit`, `Hex.nibble`).

Reading is one scan (`Hex.scan`) that pairs digits up and stops at the first problem: a character that has no place in
hex text, a pair for which there is no room, or, at the end of the text, a digit without a partner. The bytes of the
pairs completed before the problem are part of the answer, as `Hex.decodeInto` leaves them in the caller's buffer.
-/

namespace KeyWrapping.Hex

/-- Which letters stand for the digits from ten on. -/
inductive LetterCase where
  | upper | lower
  deriving DecidableEq, Repr

/-- The code of the digit ten. -/
def LetterCase.ten : LetterCase → BitVec 8
  | upper => 0x41
  | lower => 0x61

/-! ## Writing -/

/-- The code of the digit for a number below sixteen. -/
def digit (letters : LetterCase) (n : BitVec 8) : BitVec 8 :=
  (Mask.isAtLeast n 10).select (letters.ten + n - 10) (0x30 + n)

/-- Two digits for each byte, the high half first. -/
def encode (letters : LetterCase) (bytes : Bytes) : Bytes :=
  bytes.flatMap fun (b : UInt8) =>
    [UInt8.ofBitVec (digit letters (b.toBitVec >>> 4)), UInt8.ofBitVec (digit letters (b.toBitVec &&& 0x0F))]

/-- Text made of one-byte characters. -/
def asText (text : Bytes) : String := String.ofList (text.map fun b => Char.ofNat b.toNat)

/-- The bytes in upper-case hex, as a string. -/
def upperText (bytes : Bytes) : String := asText (encode .upper bytes)

/-! ## Reading one character -/

/-- What `nibble` answers for a blank. -/
def blank : BitVec 8 := 0x80

/-- What `nibble` answers for a character that is neither a digit nor a blank. -/
def stray : BitVec 8 := 0xFF

/-- The number that a digit stands for, or `blank` or `stray`. -/
def nibble (c : BitVec 8) : BitVec 8 :=
  let r := (Mask.isWithin c 0x30 0x39).select (c - 0x30) stray
  let r := (Mask.isWithin c 0x61 0x66).select (c - 0x61 + 10) r
  let r := (Mask.isWithin c 0x41 0x46).select (c - 0x41 + 10) r
  (Mask.isAnyOf c [0x20, 0x09, 0x0A, 0x0D]).select blank r

/-! ## Reading text -/

/-- What can be wrong with hex text. -/
inductive Problem where
  | strayCharacter (c : UInt8)
  /-- A pair of digits beyond the room for the result. -/
  | noRoom
  | missingDigit
  deriving DecidableEq, Repr

/-- A character of hex text as it is shown: itself if it is printable, and its code otherwise. -/
def shown (c : UInt8) : String :=
  if 0x20 ≤ c ∧ c < 0x7F then asText [c] else s!"0x{upperText [c]}"

/-- The words for a problem. -/
def Problem.message : Problem → String
  | strayCharacter c => s!"hex_decode: invalid character '{shown c}'"
  | noRoom => "hex_decode: output buffer too small"
  | missingDigit => "hex_decode: input did not have full bytes"

/-- A problem is a bad argument. -/
def Problem.error (p : Problem) : Error := .invalidArgument p.message

/-- The bytes of the digit pairs completed before the first problem, and that problem if there is one.

`pending` is a first digit that waits for its partner, and `room` the number of bytes that may still be produced. -/
def scan (skipBlanks : Bool) (room : Nat) (pending : Option (BitVec 8)) : Bytes → Bytes × Option Problem
  | [] => ([], pending.map fun _ => .missingDigit)
  | c :: text =>
    let n := nibble c.toBitVec
    if n = blank ∧ skipBlanks then scan skipBlanks room pending text
    else if 0x0F < n then ([], some (.strayCharacter c))
    else
      match pending, room with
      | none, _ => scan skipBlanks room (some n) text
      | some _, 0 => ([], some .noRoom)
      | some high, room + 1 =>
        let (bytes, problem) := scan skipBlanks room none text
        (UInt8.ofBitVec (high <<< 4 ||| n) :: bytes, problem)

/-- The bytes that hex text stands for. -/
def decode (skipBlanks : Bool) (text : Bytes) : Except Error Bytes :=
  match scan skipBlanks (text.length / 2) none text with
  | (bytes, none) => .ok bytes
  | (_, some p) => .error p.error

/-- Reads hex text into the caller's buffer: the number of bytes written or the problem, and the buffer afterwards. -/
def decodeInto (skipBlanks : Bool) (text buffer : Bytes) : Except Error Nat × Bytes :=
  let (bytes, problem) := scan skipBlanks buffer.length none text
  (match problem with | none => .ok bytes.length | some p => .error p.error, buffer.overwrite bytes)

end KeyWrapping.Hex
