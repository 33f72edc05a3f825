import KeyWrapping.Cipher.Basic
import KeyWrapping.Cipher.Field
import KeyWrapping.Cipher.Quad

/-!
# The block cipher AES

A block is four columns of four bytes, and a column is a word with its first byte on top. The substitution of bytes is
inversion in the field of 256 elements followed by an affine map; it is tabulated once in each direction. A schedule
holds four words for each round and four more, and the rounds take them off its front (`Aes.encryptRounds`);
decryption reads the schedule backwards (`Aes.decryptRounds`).

The algorithms are those of the external backend, which takes less than 2³¹ bytes at a time.
-/

namespace KeyWrapping.Aes

/-! ## Bytes -/

/-- The substitution of bytes. -/
def substitution : Vector UInt8 256 :=
  Vector.ofFn fun i =>
    let b := Field.inverse (UInt8.ofNat i)
    b ^^^ Field.rotl8 1 b ^^^ Field.rotl8 2 b ^^^ Field.rotl8 3 b ^^^ Field.rotl8 4 b ^^^ 0x63

/-- The opposite substitution. -/
def inverseSubstitution : Vector UInt8 256 :=
  Vector.ofFn fun i =>
    let b := UInt8.ofNat i
    Field.inverse (Field.rotl8 1 b ^^^ Field.rotl8 3 b ^^^ Field.rotl8 6 b ^^^ 0x05)

/-- Every byte of a word substituted. -/
def subWord (word : UInt32) : UInt32 := Word.mapBytes (fun b => substitution.get b.toFin) word

/-- Every byte of a word substituted the opposite way. -/
def invSubWord (word : UInt32) : UInt32 := Word.mapBytes (fun b => inverseSubstitution.get b.toFin) word

/-! ## Columns and rows -/

/-- Multiplication by `x` in each byte of a word. -/
def doubleWord (word : UInt32) : UInt32 := Word.mapBytes Field.double word

/-- A column multiplied by the polynomial `3x³ + x² + x + 2`. -/
def mixColumn (word : UInt32) : UInt32 :=
  let doubled := doubleWord word
  doubled ^^^ Word.rotl32 8 (doubled ^^^ word) ^^^ Word.rotl32 16 word ^^^ Word.rotl32 24 word

/-- A column multiplied by the polynomial `11x³ + 13x² + 9x + 14`, which is `mixColumn` after one by `4x² + 5`. -/
def invMixColumn (word : UInt32) : UInt32 :=
  mixColumn (word ^^^ doubleWord (doubleWord (word ^^^ Word.rotl32 16 word)))

/-- The column made of the first byte of `p`, the second of `q`, the third of `r` and the fourth of `s`. -/
def diagonal (p q r s : UInt32) : UInt32 :=
  p &&& 0xFF000000 ||| q &&& 0x00FF0000 ||| r &&& 0x0000FF00 ||| s &&& 0x000000FF

/-- Row `i` turned left by `i` places. -/
def shiftRows (s : Quad) : Quad :=
  ⟨diagonal s.a s.b s.c s.d, diagonal s.b s.c s.d s.a, diagonal s.c s.d s.a s.b, diagonal s.d s.a s.b s.c⟩

/-- Row `i` turned right by `i` places. -/
def invShiftRows (s : Quad) : Quad :=
  ⟨diagonal s.a s.d s.c s.b, diagonal s.b s.a s.d s.c, diagonal s.c s.b s.a s.d, diagonal s.d s.c s.b s.a⟩

/-! ## Rounds -/

/-- The rounds of encryption, after the first key has been added. -/
def encryptRounds : Schedule → Quad → Quad
  | [k₀, k₁, k₂, k₃], s => (shiftRows (s.map subWord)).xor ⟨k₀, k₁, k₂, k₃⟩
  | k₀ :: k₁ :: k₂ :: k₃ :: keys, s =>
    encryptRounds keys (((shiftRows (s.map subWord)).map mixColumn).xor ⟨k₀, k₁, k₂, k₃⟩)
  | _, s => s

/-- Encrypts one block. -/
def encryptBlock (schedule : Schedule) (block : Block 16) : Block 16 :=
  let s := Quad.ofBlock (Word.loadBE 32) block
  match schedule with
  | k₀ :: k₁ :: k₂ :: k₃ :: keys => (encryptRounds keys (s.xor ⟨k₀, k₁, k₂, k₃⟩)).toBlockBE
  | _ => block

/-- The rounds of decryption under the reversed schedule, after the last key has been added. -/
def decryptRounds : Schedule → Quad → Quad
  | [k₃, k₂, k₁, k₀], s => ((invShiftRows s).map invSubWord).xor ⟨k₀, k₁, k₂, k₃⟩
  | k₃ :: k₂ :: k₁ :: k₀ :: keys, s =>
    decryptRounds keys ((((invShiftRows s).map invSubWord).xor ⟨k₀, k₁, k₂, k₃⟩).map invMixColumn)
  | _, s => s

/-- Decrypts one block under the reversed schedule. -/
def decryptBlock (reversed : Schedule) (block : Block 16) : Block 16 :=
  let s := Quad.ofBlock (Word.loadBE 32) block
  match reversed with
  | k₃ :: k₂ :: k₁ :: k₀ :: keys => (decryptRounds keys (s.xor ⟨k₀, k₁, k₂, k₃⟩)).toBlockBE
  | _ => block

/-- What a schedule does to blocks. -/
def permutation (schedule : Schedule) : Permutation 16 :=
  let reversed := schedule.reverse
  ⟨encryptBlock schedule, decryptBlock reversed⟩

/-! ## Keys -/

/-- The round constant with number `i`, counted from one. -/
def roundConstant (i : Nat) : UInt32 := ((List.range (i - 1)).foldl (fun b _ => Field.double b) 1).toUInt32 <<< 24

/-- Puts `count` more words in front of a reversed schedule under a key of `size` words. -/
def extend (size : Nat) : Nat → Schedule → Schedule
  | 0, words => words
  | count + 1, words =>
    let i := words.length
    let last := words.headD 0
    let change :=
      if i % size = 0 then subWord (Word.rotl32 8 last) ^^^ roundConstant (i / size)
      else if 6 < size ∧ i % size = 4 then subWord last
      else last
    extend size count ((words.getD (size - 1) 0 ^^^ change) :: words)

/-- The schedule of a key: for a key of `size` words there are `size + 6` rounds. -/
def expand (key : Bytes) : Schedule :=
  let words := (key.blocks 4).map fun b => UInt32.ofBitVec (Word.loadBE 32 b.toList)
  let size := words.length
  (extend size (4 * (size + 7) - size) words.reverse).reverse

/-! ## The three algorithms -/

/-- The sizes of AES keys. -/
inductive KeySize where
  | bits128 | bits192 | bits256
  deriving DecidableEq, Repr

namespace KeySize

/-- The number of bytes in a key. -/
def bytes : KeySize → Nat
  | bits128 => 16
  | bits192 => 24
  | bits256 => 32

/-- The name of the algorithm with keys of this size. -/
def name (size : KeySize) : String := s!"AES-{8 * size.bytes}"

/-- The size of keys of so many bytes, if there is one. -/
def ofBytes? (n : Nat) : Option KeySize := [bits128, bits192, bits256].find? (·.bytes == n)

end KeySize

/-- AES with keys of one size. -/
def algorithm (size : KeySize) : Algorithm where
  name := size.name
  provider := .backend
  blockSize := 16
  keyLengths := .exactly size.bytes
  expand := expand
  permutation := permutation
  callLimit := some (0x7FFFFFFF / 16)

end KeyWrapping.Aes
