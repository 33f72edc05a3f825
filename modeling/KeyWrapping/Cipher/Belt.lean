import KeyWrapping.Cipher.Basic
import KeyWrapping.Cipher.Quad

/-!
# The block cipher BelT

Eight rounds over four 32-bit words, least significant byte first. A key of 32 bytes is eight words, and a block uses
them in turn, seven words a round (`Belt.roundKey`). Decryption runs the same mixing (`Belt.mix`) with the keys of a
round and the rounds themselves in the opposite order; only the way the words change places differs.
-/

namespace KeyWrapping.Belt

set_option maxRecDepth 2000 in
/-- The substitution of bytes. -/
def substitution : Vector UInt8 256 := #v[
  0xB1, 0x94, 0xBA, 0xC8, 0x0A, 0x08, 0xF5, 0x3B, 0x36, 0x6D, 0x00, 0x8E, 0x58, 0x4A, 0x5D, 0xE4,
  0x85, 0x04, 0xFA, 0x9D, 0x1B, 0xB6, 0xC7, 0xAC, 0x25, 0x2E, 0x72, 0xC2, 0x02, 0xFD, 0xCE, 0x0D,
  0x5B, 0xE3, 0xD6, 0x12, 0x17, 0xB9, 0x61, 0x81, 0xFE, 0x67, 0x86, 0xAD, 0x71, 0x6B, 0x89, 0x0B,
  0x5C, 0xB0, 0xC0, 0xFF, 0x33, 0xC3, 0x56, 0xB8, 0x35, 0xC4, 0x05, 0xAE, 0xD8, 0xE0, 0x7F, 0x99,
  0xE1, 0x2B, 0xDC, 0x1A, 0xE2, 0x82, 0x57, 0xEC, 0x70, 0x3F, 0xCC, 0xF0, 0x95, 0xEE, 0x8D, 0xF1,
  0xC1, 0xAB, 0x76, 0x38, 0x9F, 0xE6, 0x78, 0xCA, 0xF7, 0xC6, 0xF8, 0x60, 0xD5, 0xBB, 0x9C, 0x4F,
  0xF3, 0x3C, 0x65, 0x7B, 0x63, 0x7C, 0x30, 0x6A, 0xDD, 0x4E, 0xA7, 0x79, 0x9E, 0xB2, 0x3D, 0x31,
  0x3E, 0x98, 0xB5, 0x6E, 0x27, 0xD3, 0xBC, 0xCF, 0x59, 0x1E, 0x18, 0x1F, 0x4C, 0x5A, 0xB7, 0x93,
  0xE9, 0xDE, 0xE7, 0x2C, 0x8F, 0x0C, 0x0F, 0xA6, 0x2D, 0xDB, 0x49, 0xF4, 0x6F, 0x73, 0x96, 0x47,
  0x06, 0x07, 0x53, 0x16, 0xED, 0x24, 0x7A, 0x37, 0x39, 0xCB, 0xA3, 0x83, 0x03, 0xA9, 0x8B, 0xF6,
  0x92, 0xBD, 0x9B, 0x1C, 0xE5, 0xD1, 0x41, 0x01, 0x54, 0x45, 0xFB, 0xC9, 0x5E, 0x4D, 0x0E, 0xF2,
  0x68, 0x20, 0x80, 0xAA, 0x22, 0x7D, 0x64, 0x2F, 0x26, 0x87, 0xF9, 0x34, 0x90, 0x40, 0x55, 0x11,
  0xBE, 0x32, 0x97, 0x13, 0x43, 0xFC, 0x9A, 0x48, 0xA0, 0x2A, 0x88, 0x5F, 0x19, 0x4B, 0x09, 0xA1,
  0x7E, 0xCD, 0xA4, 0xD0, 0x15, 0x44, 0xAF, 0x8C, 0xA5, 0x84, 0x50, 0xBF, 0x66, 0xD2, 0xE8, 0x8A,
  0xA2, 0xD7, 0x46, 0x52, 0x42, 0xA8, 0xDF, 0xB3, 0x69, 0x74, 0xC5, 0x51, 0xEB, 0x23, 0x29, 0x21,
  0xD4, 0xEF, 0xD9, 0xB4, 0x3A, 0x62, 0x28, 0x75, 0x91, 0x14, 0x10, 0xEA, 0x77, 0x6C, 0xDA, 0x1D]

/-- Every byte of a word substituted, and the word turned left by `r` bits. -/
def turned (r word : UInt32) : UInt32 := Word.rotl32 r (Word.mapBytes (fun b => substitution.get b.toFin) word)

/-- The words of a key. -/
def expand (key : Bytes) : Schedule := (Word.loadRowLE 32 key).map UInt32.ofBitVec

/-- The key words are used over and over again. -/
def roundKey (schedule : Schedule) (i : Nat) : UInt32 := schedule.getD (i % 8) 0

/-- The mixing of one round, under the round's seven keys and a number that tells the rounds apart. -/
def mix (key : Nat → UInt32) (tweak : UInt32) (q : Quad) : Quad :=
  let b := q.b ^^^ turned 5 (q.a + key 0)
  let c := q.c ^^^ turned 21 (q.d + key 1)
  let a := q.a - turned 13 (b + key 2)
  let e := turned 21 (b + c + key 3) ^^^ tweak
  let b := b + e
  let c := c - e
  let d := q.d + turned 13 (c + key 4)
  ⟨a, b ^^^ turned 21 (a + key 5), c ^^^ turned 5 (d + key 6), d⟩

/-- How the words change places after a round of encryption. -/
def forward (q : Quad) : Quad := ⟨q.b, q.d, q.a, q.c⟩

/-- How the words change places after a round of decryption. -/
def backward (q : Quad) : Quad := ⟨q.c, q.a, q.d, q.b⟩

/-- Round `i` of encryption, counted from zero. -/
def encryptRound (schedule : Schedule) (q : Quad) (i : Nat) : Quad :=
  forward (mix (fun j => roundKey schedule (7 * i + j)) (UInt32.ofNat (i + 1)) q)

/-- The round of decryption that undoes round `i` of encryption. -/
def decryptRound (schedule : Schedule) (q : Quad) (i : Nat) : Quad :=
  backward (mix (fun j => roundKey schedule (7 * i + (6 - j))) (UInt32.ofNat (i + 1)) q)

/-- Encrypts one block. -/
def encryptBlock (schedule : Schedule) (block : Block 16) : Block 16 :=
  (forward ((List.range 8).foldl (encryptRound schedule) (Quad.ofBlock (Word.loadLE 32) block))).toBlockLE

/-- Decrypts one block. -/
def decryptBlock (schedule : Schedule) (block : Block 16) : Block 16 :=
  (backward ((List.range 8).reverse.foldl (decryptRound schedule) (Quad.ofBlock (Word.loadLE 32) block))).toBlockLE

/-- What a schedule does to blocks. -/
def permutation (schedule : Schedule) : Permutation 16 := ⟨encryptBlock schedule, decryptBlock schedule⟩

/-- BelT as an algorithm. -/
def algorithm : Algorithm where
  name := "BelT"
  provider := .base
  blockSize := 16
  keyLengths := .exactly 32
  expand := expand
  permutation := permutation

end KeyWrapping.Belt
