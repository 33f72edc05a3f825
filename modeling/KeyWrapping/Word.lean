import KeyWrapping.Block

/-!
# Words and their bytes

A word of `w` bits is a `BitVec w`. It is loaded from and stored to bytes in either order: `loadBE` and `storeBE` keep
the most significant byte first, `loadLE` and `storeLE` the least significant one. `loadBEAt` and `loadLEAt` pick a
word out of a row of words by its index, and `rotl`, `rotr` turn a word around. A stored word has `w / 8` bytes
(`length_storeBE`, `length_storeLE`).
-/

namespace KeyWrapping.Word

variable {w : Nat}

/-! ## Loading -/

/-- The word whose most significant byte comes first. -/
def loadBE (w : Nat) (bytes : Bytes) : BitVec w :=
  bytes.foldl (fun word byte => word <<< 8 ||| byte.toBitVec.setWidth w) 0#w

/-- The word whose least significant byte comes first. -/
def loadLE (w : Nat) (bytes : Bytes) : BitVec w :=
  bytes.foldr (fun byte word => word <<< 8 ||| byte.toBitVec.setWidth w) 0#w

/-- The bytes of the word with index `i` in a row of words of `w` bits. -/
def slice (w i : Nat) (bytes : Bytes) : Bytes := (bytes.drop (i * (w / 8))).take (w / 8)

/-- The word with index `i` in a row of words, most significant byte first. -/
def loadBEAt (w i : Nat) (bytes : Bytes) : BitVec w := loadBE w (slice w i bytes)

/-- The word with index `i` in a row of words, least significant byte first. -/
def loadLEAt (w i : Nat) (bytes : Bytes) : BitVec w := loadLE w (slice w i bytes)

/-- Every whole word of a row of words, least significant byte first. -/
def loadRowLE (w : Nat) (bytes : Bytes) : List (BitVec w) :=
  (bytes.blocks (w / 8)).map fun b => loadLE w b.toList

/-! ## Storing -/

/-- Byte `i` of a word, counted from the most significant one. -/
def byte (i : Nat) (word : BitVec w) : UInt8 := UInt8.ofBitVec ((word >>> (w - 8 * (i + 1))).setWidth 8)

/-- The bytes of a word, most significant first. -/
def storeBE (word : BitVec w) : Bytes := (List.range (w / 8)).map fun i => byte i word

/-- The bytes of a word, least significant first. -/
def storeLE (word : BitVec w) : Bytes :=
  (List.range (w / 8)).map fun i => UInt8.ofBitVec ((word >>> (8 * i)).setWidth 8)

/-- The bytes of a row of words, each least significant first. -/
def storeRowLE (words : List (BitVec w)) : Bytes := words.flatMap storeLE

@[simp] theorem length_storeBE (word : BitVec w) : (storeBE word).length = w / 8 := by
  simp [storeBE]

@[simp] theorem length_storeLE (word : BitVec w) : (storeLE word).length = w / 8 := by
  simp [storeLE]

/-! ## Turning -/

/-- The word turned left by `r` bits: what leaves at the top comes in at the bottom. -/
def rotl (r : Nat) (word : BitVec w) : BitVec w := word <<< r ||| word >>> (w - r)

/-- The word turned right by `r` bits. -/
def rotr (r : Nat) (word : BitVec w) : BitVec w := word >>> r ||| word <<< (w - r)

end KeyWrapping.Word
