import KeyWrapping.Block
import KeyWrapping.Hex

/-!
# Reading hex text into memory

Reading as the memory of the caller sees it. A cursor goes over the text once. It counts the digits, which tells it
whether a digit is the first of a pair or the second, and on the second it writes a byte to the place that it has come
to. What it has written before a problem stays.
-/

namespace KeyWrapping.Hex

/-- Where reading stands. -/
structure Cursor where
  memory : Bytes
  /-- How many bytes have been written, so also where the next one goes. -/
  written : Nat
  /-- How many digits have been read. -/
  digits : Nat
  /-- The number of the last digit that was the first of a pair. -/
  high : BitVec 8

namespace Cursor

/-- Nothing has been read. -/
def start (memory : Bytes) : Cursor := ⟨memory, 0, 0, 0#8⟩

/-- Takes in a digit for the number `n`. -/
def digit (cursor : Cursor) (n : BitVec 8) : Except Problem Cursor :=
  if cursor.digits % 2 = 0 then .ok { cursor with high := n, digits := cursor.digits + 1 }
  else if cursor.written = cursor.memory.length then .error .noRoom
  else
    let byte := UInt8.ofBitVec (cursor.high <<< 4 ||| n)
    .ok { cursor with
      memory := cursor.memory.set cursor.written byte, written := cursor.written + 1, digits := cursor.digits + 1 }

/-- Takes in a character. -/
def read (skipBlanks : Bool) (cursor : Cursor) (c : UInt8) : Except Problem Cursor :=
  let n := nibble c.toBitVec
  if n = blank ∧ skipBlanks then .ok cursor
  else if 0x0F < n then .error (.strayCharacter c)
  else cursor.digit n

/-- Takes in a text, up to the first problem. -/
def run (skipBlanks : Bool) (cursor : Cursor) : Bytes → Option Problem × Cursor
  | [] => (if cursor.digits % 2 = 0 then none else some .missingDigit, cursor)
  | c :: text =>
    match cursor.read skipBlanks c with
    | .ok next => next.run skipBlanks text
    | .error p => (some p, cursor)

end Cursor

/-- Reads hex text into fresh memory of half as many bytes as there are characters, and keeps what was written. -/
def decodeFresh (skipBlanks : Bool) (text : Bytes) (memory : Block (text.length / 2)) : Except Error Bytes :=
  let (outcome, memory) := decodeInto skipBlanks text memory.toList
  outcome.map fun n => memory.take n

end KeyWrapping.Hex
