import KeyWrapping.Block
import KeyWrapping.Cipher.KeyLengths
import KeyWrapping.Error

/-!
# Block ciphers

An algorithm expands a key into a schedule of 32-bit words, and a schedule is a pair of functions on blocks, one for
each direction. A cipher is an algorithm together with the schedule of the key it was given last, if any:
`Cipher.setKey` takes a key of an accepted length, `Cipher.clear` and `Cipher.fresh` give the key up, and nothing is
processed without a key.

Data is processed block by block (`Bytes.mapBlocks`). An algorithm of an external backend hands the blocks over in calls
of limited size (`Algorithm.callSizes`), and asserts after each call that nothing is missing
(`Algorithm.blocksMissing`).

Rounds are undone in the reverse order, for ciphers as for what is built on them (`foldl_reverse_undoes`).
-/

namespace KeyWrapping

/-- Which way a cipher is run. -/
inductive Direction where
  | encrypt | decrypt
  deriving DecidableEq, Repr

/-- The two directions of a cipher under one key. -/
structure Permutation (n : Nat) where
  encrypt : Block n → Block n
  decrypt : Block n → Block n

/-- One direction of a permutation. -/
def Permutation.run {n : Nat} (p : Permutation n) : Direction → Block n → Block n
  | .encrypt => p.encrypt
  | .decrypt => p.decrypt

/-- The two directions undo each other. -/
structure Permutation.Inverse {n : Nat} (p : Permutation n) : Prop where
  decrypt_encrypt : ∀ b, p.decrypt (p.encrypt b) = b
  encrypt_decrypt : ∀ b, p.encrypt (p.decrypt b) = b

/-- What takes back one step takes back a run of them, from the last step to the first. The states of the run and of the
way back need not be the same: `R` relates them, and has to hold at the far end only. -/
theorem foldl_reverse_undoes {σ τ ι : Type} {R : τ → σ → Prop} (forth : σ → ι → σ) (back : τ → ι → τ)
    (undo : ∀ t s i, R t (forth s i) → R (back t i) s) :
    ∀ (steps : List ι) {t : τ} {s : σ}, R t (steps.foldl forth s) → R (steps.reverse.foldl back t) s
  | [], _, _, h => h
  | i :: steps, t, s, h => by
    rw [List.reverse_cons, List.foldl_append]
    exact undo _ _ i (foldl_reverse_undoes forth back undo steps h)

/-- The words that a key expands to. -/
abbrev Schedule := List UInt32

/-- Who computes an algorithm. -/
inductive Provider where
  | base
  | backend
  deriving DecidableEq, Repr

/-- The name of a provider. -/
def Provider.name : Provider → String
  | base => "base"
  | backend => "openssl"

/-- A block cipher algorithm. -/
structure Algorithm where
  name : String
  provider : Provider
  blockSize : Nat
  keyLengths : KeyLengths
  expand : Bytes → Schedule
  permutation : Schedule → Permutation blockSize
  /-- The schedule that is in force without a key, for an algorithm that needs none. -/
  keyless : Option Schedule := none
  /-- The most blocks that one call of an external backend takes. -/
  callLimit : Option Nat := none

/-! ## Processing blocks -/

/-- A function applied to every whole block; a shorter rest is dropped. -/
def Bytes.mapBlocks {n : Nat} (f : Block n → Block n) (bytes : Bytes) : Bytes :=
  Bytes.ofBlocks ((bytes.blocks n).map f)

namespace Algorithm

/-- How many blocks each call takes when `count` blocks are handed over and no call takes more than `limit`. -/
def callSizes (limit count : Nat) : List Nat :=
  if _h : 0 < limit ∧ 0 < count then min count limit :: callSizes limit (count - min count limit) else []
termination_by count

/-- The error if a call leaves blocks out, which the backend promises not to do. -/
def blocksMissing : Error :=
  .failedAssertion "written == len" (some "ECB mode without padding processes every block") "run" "openssl_block" 133

/-- Hands blocks over call by call, each call taking as many blocks as its size says. -/
def handOver {n : Nat} (f : Block n → Block n) : List Nat → Bytes → Except Error Bytes
  | [], _ => .ok []
  | size :: sizes, bytes => do
    let processed := Bytes.mapBlocks f (bytes.take (size * n))
    ensure (processed.length == size * n) blocksMissing
    let rest ← handOver f sizes (bytes.drop (size * n))
    return processed ++ rest

/-- The first `count` blocks of the data, each put through `f`. -/
def process (a : Algorithm) (f : Block a.blockSize → Block a.blockSize) (count : Nat) (data : Bytes) :
    Except Error Bytes :=
  match a.callLimit with
  | none => .ok (Bytes.mapBlocks f (data.take (count * a.blockSize)))
  | some limit => handOver f (callSizes limit count) data

end Algorithm

/-! ## Ciphers with keys -/

/-- A cipher object of an algorithm. -/
structure Cipher (a : Algorithm) where
  schedule : Option Schedule

namespace Cipher

variable {a : Algorithm}

/-- A cipher that was given no key. -/
def fresh (a : Algorithm) : Cipher a := ⟨a.keyless⟩

/-- Whether the cipher can process data. -/
def isKeyed (c : Cipher a) : Bool := c.schedule.isSome

/-- The cipher with a new key, which has to be of an accepted length. -/
def setKey (_ : Cipher a) (key : Bytes) : Except Error (Cipher a) := do
  ensure (a.keyLengths.accepts key.length) (.invalidKeyLength a.name key.length)
  return ⟨some (a.expand key)⟩

/-- The cipher without its key. -/
def clear (_ : Cipher a) : Cipher a := fresh a

/-- What the cipher does to blocks, once it has a key. -/
def permutation (c : Cipher a) : Except Error (Permutation a.blockSize) :=
  match c.schedule with
  | none => .error (.keyNotSet a.name)
  | some schedule => .ok (a.permutation schedule)

/-- The first `count` blocks of the data, processed. -/
def processBlocks (c : Cipher a) (direction : Direction) (count : Nat) (data : Bytes) : Except Error Bytes := do
  let p ← c.permutation
  a.process (p.run direction) count data

/-- The data with its whole blocks processed in place; a partial block at the end stays. -/
def process (c : Cipher a) (direction : Direction) (data : Bytes) : Except Error Bytes := do
  let processed ← c.processBlocks direction (data.length / a.blockSize) data
  return data.overwrite processed

/-- What can be asked of a cipher. -/
inductive Action where
  | setKey (key : Bytes)
  | clear
  /-- To make way for a cipher without a key. -/
  | renew
  | process (direction : Direction) (data : Bytes)
  | processBlocks (direction : Direction) (count : Nat) (data : Bytes)
  deriving DecidableEq, Repr

/-- The cipher after an action, and the bytes that the action gives or the reason why it failed. -/
def perform (c : Cipher a) : Action → Cipher a × Except Error Bytes
  | .setKey key =>
    match c.setKey key with
    | .ok c => (c, .ok [])
    | .error e => (c, .error e)
  | .clear => (c.clear, .ok [])
  | .renew => (fresh a, .ok [])
  | .process direction data => (c, c.process direction data)
  | .processBlocks direction count data => (c, c.processBlocks direction count data)

/-- The cipher after a run of actions. -/
def after (c : Cipher a) (actions : List Action) : Cipher a := actions.foldl (fun c action => (c.perform action).1) c

/-- What a cipher of 128-bit blocks does to them; `h` says that it is one. -/
def permutation128 (c : Cipher a) (h : a.blockSize = 16) : Except Error (Permutation 16) := do
  let p ← c.permutation
  return h ▸ p

end Cipher

end KeyWrapping
