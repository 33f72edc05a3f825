import KeyWrapping.Word

/-!
# Blocks as four words

A block of sixteen bytes is four 32-bit words, most or least significant byte first. Substitution acts on the bytes of a
word one by one (`mapBytes`).
-/

namespace KeyWrapping

/-- Four 32-bit words. -/
structure Quad where
  a : UInt32
  b : UInt32
  c : UInt32
  d : UInt32
  deriving DecidableEq, Repr

namespace Quad

/-- The words of a block, read by `load`. -/
def ofBlock (load : Bytes → BitVec 32) (block : Block 16) : Quad :=
  let word i := UInt32.ofBitVec (load (Word.slice 32 i block.toList))
  ⟨word 0, word 1, word 2, word 3⟩

/-- The words as a block, most significant byte first. -/
def toBlockBE (q : Quad) : Block 16 :=
  Block.ofList (Word.storeBE q.a.toBitVec ++ Word.storeBE q.b.toBitVec ++ Word.storeBE q.c.toBitVec
    ++ Word.storeBE q.d.toBitVec) (by simp)

/-- The words as a block, least significant byte first. -/
def toBlockLE (q : Quad) : Block 16 :=
  Block.ofList (Word.storeLE q.a.toBitVec ++ Word.storeLE q.b.toBitVec ++ Word.storeLE q.c.toBitVec
    ++ Word.storeLE q.d.toBitVec) (by simp)

/-- Word by word exclusive or. -/
def xor (p q : Quad) : Quad := ⟨p.a ^^^ q.a, p.b ^^^ q.b, p.c ^^^ q.c, p.d ^^^ q.d⟩

/-- One function applied to the four words. -/
def map (f : UInt32 → UInt32) (q : Quad) : Quad := ⟨f q.a, f q.b, f q.c, f q.d⟩

end Quad

namespace Word

/-- A 32-bit word turned left by `r` bits, for `r` from 1 to 31. -/
def rotl32 (r word : UInt32) : UInt32 := word <<< r ||| word >>> (32 - r)

/-- A 32-bit word with `f` applied to each of its bytes. -/
def mapBytes (f : UInt8 → UInt8) (word : UInt32) : UInt32 :=
  (f (word >>> 24).toUInt8).toUInt32 <<< 24 ||| (f (word >>> 16).toUInt8).toUInt32 <<< 16
    ||| (f (word >>> 8).toUInt8).toUInt32 <<< 8 ||| (f word.toUInt8).toUInt32

end Word

end KeyWrapping
