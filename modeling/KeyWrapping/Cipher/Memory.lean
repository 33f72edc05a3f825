import KeyWrapping.Cipher.Basic

/-!
# Processing blocks in memory

A cipher that processes blocks is given two addresses, one to read from and one to write to. They may be one and the
same, and then the blocks are replaced. An algorithm that is computed here goes from block to block. An external library
is handed over as many blocks in one call as an `int` can count the bytes of, and says after each call how many bytes it
has written. Sizes are words of 64 bits, and the length that a call is told is a word of 32 bits with a sign, so either
could come out wrong; that neither does rests on the size of a block (`BlockSize`).
-/

namespace KeyWrapping

/-! ## Addresses -/

/-- A memory, the address of the next byte to be read and that of the next byte to be written. -/
structure Pointers where
  memory : Bytes
  source : Nat
  target : Nat

namespace Pointers

/-- Data that are replaced by what is made of them. -/
def inPlace (data : Bytes) : Pointers := ⟨data, 0, 0⟩

/-- The next `n` bytes to be read. -/
def ahead (p : Pointers) (n : Nat) : Bytes := (p.memory.drop p.source).take n

/-- The memory with these bytes written. -/
def written (p : Pointers) (bytes : Bytes) : Bytes :=
  p.memory.take p.target ++ Bytes.overwrite (p.memory.drop p.target) bytes

/-- Writes what was made of the next `n` bytes, and goes on behind them. -/
def advance (p : Pointers) (n : Nat) (bytes : Bytes) : Pointers := ⟨p.written bytes, p.source + n, p.target + n⟩

/-- Processes block by block. -/
def blockwise {n : Nat} (f : Block n → Block n) : (count : Nat) → Pointers → Pointers
  | 0, p => p
  | count + 1, p => blockwise f count (p.advance n (Bytes.mapBlocks f (p.ahead n)))

end Pointers

/-! ## Sizes -/

/-- A number of bytes that a block can have. -/
structure BlockSize where
  bytes : UInt64
  pos : 0 < bytes
  /-- An `int` can count the bytes of one block. -/
  le : bytes ≤ 0x7FFFFFFF

namespace BlockSize

variable (size : BlockSize)

/-- The most blocks that one call takes. -/
def limit : UInt64 := 0x7FFFFFFF / size.bytes

/-- How many blocks the next call takes, with so many left. -/
def taken (left : UInt64) : UInt64 := if left ≤ size.limit then left else size.limit

/-- How many bytes a call for so many blocks is told that it gets. -/
def callLength (taken : UInt64) : Int32 := Int32.ofNat (taken * size.bytes).toNat

theorem toNat_bytes_pos : 0 < size.bytes.toNat := UInt64.lt_iff_toNat_lt.mp size.pos

theorem toNat_bytes_le : size.bytes.toNat ≤ 0x7FFFFFFF := UInt64.le_iff_toNat_le.mp size.le

theorem toNat_limit : size.limit.toNat = 0x7FFFFFFF / size.bytes.toNat := UInt64.toNat_div _ _

theorem toNat_limit_pos : 0 < size.limit.toNat := by
  rw [toNat_limit]
  exact Nat.div_pos size.toNat_bytes_le size.toNat_bytes_pos

theorem toNat_taken (left : UInt64) : (size.taken left).toNat = min left.toNat size.limit.toNat := by
  unfold taken
  split <;> rename_i h <;> rw [UInt64.le_iff_toNat_le] at h <;> omega

theorem toNat_taken_le (left : UInt64) : (size.taken left).toNat ≤ left.toNat := by
  rw [toNat_taken]
  exact Nat.min_le_left _ _

/-- A call takes at least one block. -/
theorem toNat_taken_pos {left : UInt64} (h : 0 < left) : 0 < (size.taken left).toNat := by
  rw [toNat_taken]
  exact Nat.lt_min.mpr ⟨UInt64.lt_iff_toNat_lt.mp h, size.toNat_limit_pos⟩

theorem toNat_left (left : UInt64) : (left - size.taken left).toNat = left.toNat - (size.taken left).toNat :=
  UInt64.toNat_sub_of_le _ _ (UInt64.le_iff_toNat_le.mpr (size.toNat_taken_le left))

/-- With every call, fewer blocks are left. -/
theorem toNat_left_lt {left : UInt64} (h : 0 < left) : (left - size.taken left).toNat < left.toNat := by
  have hpos := size.toNat_taken_pos h
  have hle := size.toNat_taken_le left
  rw [toNat_left]
  omega

end BlockSize

/-! ## External libraries -/

/-- A library that ciphers. What it knows from one call to the next is in a context, and whatever it does may fail with
a code. -/
structure Backend where
  Context : Type
  size : BlockSize
  create : Except UInt64 Context
  /-- Gives a context a direction and a key. -/
  init : Direction → Context → (key : Bytes) → Except UInt64 Context
  /-- Says whether data that end in a partial block are filled up. -/
  setPadding : Context → Bool → Context
  /-- Makes a context like another one. -/
  copy : (context like : Context) → Except UInt64 Context
  /-- Processes so many bytes: the context afterwards, the bytes that are written, and how many they are by the
  library's own account. -/
  update : Context → Bytes → Int32 → Except UInt64 (Context × Bytes × Int32)

/-- What a call was handed over, and how many bytes it was told that these are. -/
structure Call where
  input : Bytes
  length : Int32
  deriving DecidableEq, Repr

/-- What is left of processing: the calls that were made, the memory with the addresses, and why it ended early if it
did. -/
structure Trace where
  calls : List Call
  pointers : Pointers
  failure : Option Error

/-- A trace that begins with one more call. -/
def Trace.after (call : Call) (trace : Trace) : Trace := { trace with calls := call :: trace.calls }

namespace Backend

variable (b : Backend)

/-- A step of the library, by its name. -/
def attempt {α : Type} (step : String) (result : Except UInt64 α) : Except Error α := result.mapError (.backend step)

@[simp] theorem attempt_ok {α : Type} (step : String) (x : α) : attempt step (.ok x) = .ok x := rfl

def newContext : Except Error b.Context := attempt "EVP_CIPHER_CTX_new" b.create

/-- The contexts with a key, one for each direction. They are copied, and never used themselves. -/
structure Keyed where
  encrypting : b.Context
  decrypting : b.Context

/-- The context for a direction. -/
def Keyed.context {b : Backend} (keyed : b.Keyed) : Direction → b.Context
  | .encrypt => keyed.encrypting
  | .decrypt => keyed.decrypting

/-- Gives a key to contexts that do not pad. -/
def setKey (key : Bytes) : Except Error b.Keyed := do
  let encrypting ← b.newContext
  let decrypting ← b.newContext
  let encrypting ← attempt "EVP_EncryptInit_ex" (b.init .encrypt encrypting key)
  let decrypting ← attempt "EVP_DecryptInit_ex" (b.init .decrypt decrypting key)
  return ⟨b.setPadding encrypting false, b.setPadding decrypting false⟩

/-- A copy of a context. -/
def copied (keyed : b.Context) : Except Error b.Context := do
  let context ← b.newContext
  attempt "EVP_CIPHER_CTX_copy" (b.copy context keyed)

/-- Hands blocks over call by call until none are left. -/
def handOver (left : UInt64) (context : b.Context) (p : Pointers) : Trace :=
  if _h : 0 < left then
    let taken := b.size.taken left
    let length := b.size.callLength taken
    let call : Call := ⟨p.ahead length.toNatClampNeg, length⟩
    match b.update context call.input length with
    | .error code => ⟨[call], p, some (.backend "EVP_CipherUpdate" code)⟩
    | .ok (context, output, written) =>
      if written = length then
        (handOver (left - taken) context (p.advance (taken * b.size.bytes).toNat output)).after call
      else ⟨[call], { p with memory := p.written output }, some Algorithm.blocksMissing⟩
  else ⟨[], p, none⟩
termination_by left.toNat
decreasing_by exact b.size.toNat_left_lt _h

/-- Processes blocks in a copy of the context that has the key. -/
def run (keyed : b.Context) (count : UInt64) (p : Pointers) : Trace :=
  if count = 0 then ⟨[], p, none⟩
  else
    match b.copied keyed with
    | .error e => ⟨[], p, some e⟩
    | .ok context => b.handOver count context p

/-- Processes blocks with a cipher of the library, if it has a key. -/
def processAt (a : Algorithm) (keyed : Option b.Keyed) (direction : Direction) (count : UInt64) (p : Pointers) :
    Trace :=
  match keyed with
  | none => ⟨[], p, some (.keyNotSet a.name)⟩
  | some keyed => b.run (keyed.context direction) count p

end Backend

/-- Processes blocks with a cipher that is computed here, if it has a key. -/
def Cipher.processAt {a : Algorithm} (c : Cipher a) (direction : Direction) (count : UInt64) (p : Pointers) : Trace :=
  match c.permutation with
  | .error e => ⟨[], p, some e⟩
  | .ok permutation => ⟨[], p.blockwise (permutation.run direction) count.toNat, none⟩

end KeyWrapping
