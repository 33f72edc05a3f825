import KeyWrapping.Cipher.Quad
import KeyWrapping.Proofs.Words
import Mathlib.Tactic.IntervalCases

/-!
# Blocks, their words, and the bytes of a word

Four words are laid out as a block and read back from it, in either order of bytes (`Quad.ofBlock_toBlockLE`,
`Quad.ofBlock_toBlockBE` and their converses): all that counts is that loading and storing a word are inverse.

A word is determined by its four bytes (`Word.eq_of_byte_eq`), and the operations of ciphers on words are known by what
they do to bytes: substitution acts on each of them (`Word.byte_mapBytes`), turning a word by whole bytes moves them
(`Word.byte_rotl32`), and exclusive or goes byte by byte (`Word.byte_xor`).
-/

namespace KeyWrapping

/-! ## Words of a block -/

namespace Quad

section Order

variable {load : Bytes → BitVec 32} {store : BitVec 32 → Bytes} (hl : ∀ v, (store v).length = 32 / 8)
include hl

/-- What was stored word by word is read back word by word. -/
theorem ofBlock_eq (hload : ∀ v, load (store v) = v) {q : Quad} {b : Block 16}
    (hb : b.toList = store q.a.toBitVec ++ store q.b.toBitVec ++ store q.c.toBitVec ++ store q.d.toBitVec) :
    ofBlock load b = q := by
  -- with nothing behind it, the last word is found like the others
  rw [← List.append_nil (_ ++ store q.d.toBitVec)] at hb
  simp only [List.append_assoc] at hb
  simp only [ofBlock, hb, Word.slice_succ_append (hl _), Word.slice_zero_append (hl _), hload]

omit hl in
/-- Words that are read from a block are stored as what they were read from. -/
theorem toList_eq (hstore : ∀ bytes : Bytes, bytes.length = 4 → store (load bytes) = bytes) (b : Block 16) :
    store (ofBlock load b).a.toBitVec ++ store (ofBlock load b).b.toBitVec ++ store (ofBlock load b).c.toBitVec ++
      store (ofBlock load b).d.toBitVec = b.toList := by
  have word {i : Nat} (hi : i < 4) : store (load (Word.slice 32 i b.toList)) = Word.slice 32 i b.toList :=
    hstore _ (Word.length_slice (by simp; omega))
  have hs := Word.flatMap_slice 32 4 b.toList
  rw [List.take_of_length_le (by simp)] at hs
  simp only [ofBlock]
  rw [word (by decide), word (by decide), word (by decide), word (by decide)]
  simpa [List.range_succ] using hs

end Order

theorem ofBlock_toBlockLE (q : Quad) : ofBlock (Word.loadLE 32) q.toBlockLE = q :=
  ofBlock_eq Word.length_storeLE (Word.loadLE_storeLE (by decide)) (Block.toList_ofList _ _)

theorem toBlockLE_ofBlock (b : Block 16) : (ofBlock (Word.loadLE 32) b).toBlockLE = b := by
  rw [← Vector.toList_inj]
  exact toList_eq (fun _ h => Word.storeLE_loadLE (by decide) h) b

theorem ofBlock_toBlockBE (q : Quad) : ofBlock (Word.loadBE 32) q.toBlockBE = q :=
  ofBlock_eq Word.length_storeBE (Word.loadBE_storeBE (by decide)) (Block.toList_ofList _ _)

theorem toBlockBE_ofBlock (b : Block 16) : (ofBlock (Word.loadBE 32) b).toBlockBE = b := by
  rw [← Vector.toList_inj]
  exact toList_eq (fun _ h => Word.storeBE_loadBE (by decide) h) b

end Quad

/-! ## Bytes of a word -/

namespace Word

theorem eq_of_byte_eq {v w : UInt32} (h : ∀ i < 4, byte i v.toBitVec = byte i w.toBitVec) : v = w := by
  have hs : storeBE v.toBitVec = storeBE w.toBitVec := List.map_congr_left fun i hi => h i (List.mem_range.mp hi)
  rw [← UInt32.toBitVec_inj, ← loadBE_storeBE (by decide) v.toBitVec, hs, loadBE_storeBE (by decide)]

theorem byte_eq_iff {i : Nat} {v : BitVec 32} {b : UInt8} :
    byte i v = b ↔ ∀ j < 8, v.getLsbD (32 - 8 * (i + 1) + j) = b.toBitVec.getLsbD j := by
  rw [← UInt8.toBitVec_inj]
  constructor
  · intro h j hj
    rw [← h, getLsbD_byte]
    simp [hj]
  · intro h
    apply BitVec.eq_of_getLsbD_eq
    intro j hj
    rw [getLsbD_byte, ← h j hj]
    simp [hj]

theorem byte_xor (i : Nat) (v w : UInt32) :
    byte i (v ^^^ w).toBitVec = byte i v.toBitVec ^^^ byte i w.toBitVec := by
  rw [byte_eq_iff]
  intro j hj
  rw [UInt8.toBitVec_xor, BitVec.getLsbD_xor, getLsbD_byte, getLsbD_byte]
  simp [hj]

theorem byte_mapBytes (f : UInt8 → UInt8) (w : UInt32) {i : Nat} (h : i < 4) :
    byte i (mapBytes f w).toBitVec = f (byte i w.toBitVec) := by
  have h0 : (w >>> 24).toUInt8 = byte 0 w.toBitVec := rfl
  have h1 : (w >>> 16).toUInt8 = byte 1 w.toBitVec := rfl
  have h2 : (w >>> 8).toUInt8 = byte 2 w.toBitVec := rfl
  have h3 : w.toUInt8 = byte 3 w.toBitVec := rfl
  rw [byte_eq_iff]
  intro j hj
  rw [mapBytes, h0, h1, h2, h3]
  -- which of the four bytes a bit comes from depends on its place
  interval_cases i <;> interval_cases j <;> simp

/-- A word turned left by `m` bytes. -/
theorem byte_rotl32 {m i : Nat} (hm : m ∈ [1, 2, 3]) (h : i < 4) (w : UInt32) :
    byte i (rotl32 (UInt32.ofNat (8 * m)) w).toBitVec = byte ((i + m) % 4) w.toBitVec := by
  rw [byte_eq_iff]
  intro j hj
  rw [getLsbD_byte]
  simp only [List.mem_cons, List.not_mem_nil, or_false] at hm
  obtain rfl | rfl | rfl := hm <;> interval_cases i <;> interval_cases j <;> simp [rotl32]

theorem mapBytes_mapBytes (f g : UInt8 → UInt8) (w : UInt32) :
    mapBytes f (mapBytes g w) = mapBytes (fun b => f (g b)) w :=
  eq_of_byte_eq fun i hi => by rw [byte_mapBytes f _ hi, byte_mapBytes g w hi, byte_mapBytes _ w hi]

/-- Bytes that stay the same leave the word as it is. -/
theorem mapBytes_of_forall_eq {f : UInt8 → UInt8} (h : ∀ b, f b = b) (w : UInt32) : mapBytes f w = w :=
  eq_of_byte_eq fun i hi => by rw [byte_mapBytes f w hi, h]

/-- A function that is additive on bytes is additive on words. -/
theorem mapBytes_xor {f : UInt8 → UInt8} (h : ∀ a b, f (a ^^^ b) = f a ^^^ f b) (v w : UInt32) :
    mapBytes f (v ^^^ w) = mapBytes f v ^^^ mapBytes f w :=
  eq_of_byte_eq fun i hi => by
    rw [byte_mapBytes f _ hi, byte_xor, h, byte_xor, byte_mapBytes f v hi, byte_mapBytes f w hi]

theorem byte_rotl32_8 {i : Nat} (h : i < 4) (w : UInt32) :
    byte i (rotl32 8 w).toBitVec = byte ((i + 1) % 4) w.toBitVec := byte_rotl32 (m := 1) (by decide) h w

theorem rotl32_8_xor (v w : UInt32) : rotl32 8 (v ^^^ w) = rotl32 8 v ^^^ rotl32 8 w :=
  eq_of_byte_eq fun i hi => by
    rw [byte_rotl32_8 hi, byte_xor, byte_xor, byte_rotl32_8 hi, byte_rotl32_8 hi]

theorem mapBytes_rotl32_8 (f : UInt8 → UInt8) (w : UInt32) : mapBytes f (rotl32 8 w) = rotl32 8 (mapBytes f w) :=
  eq_of_byte_eq fun i hi => by
    rw [byte_mapBytes f _ hi, byte_rotl32_8 hi, byte_rotl32_8 hi, byte_mapBytes f w (Nat.mod_lt _ (by decide))]

theorem rotl32_16_eq (w : UInt32) : rotl32 16 w = rotl32 8 (rotl32 8 w) :=
  eq_of_byte_eq fun i hi => by
    have h16 := byte_rotl32 (m := 2) (by decide) hi w
    rw [byte_rotl32_8 hi, byte_rotl32_8 (Nat.mod_lt _ (by decide)), Nat.mod_add_mod]
    exact h16

theorem rotl32_24_eq (w : UInt32) : rotl32 24 w = rotl32 8 (rotl32 16 w) :=
  eq_of_byte_eq fun i hi => by
    have h24 := byte_rotl32 (m := 3) (by decide) hi w
    have h16 := byte_rotl32 (m := 2) (by decide) (Nat.mod_lt (i + 1) (by decide)) w
    rw [Nat.mod_add_mod] at h16
    rw [byte_rotl32_8 hi]
    exact h24.trans h16.symm

/-- Four turns by a byte are a whole turn. -/
theorem rotl32_16_16 (w : UInt32) : rotl32 16 (rotl32 16 w) = w :=
  eq_of_byte_eq fun i hi => by
    have h (v : UInt32) {j : Nat} (hj : j < 4) : byte j (rotl32 16 v).toBitVec = byte ((j + 2) % 4) v.toBitVec :=
      byte_rotl32 (m := 2) (by decide) hj v
    have hwhole : ((i + 2) % 4 + 2) % 4 = i := by omega
    rw [h _ hi, h _ (Nat.mod_lt _ (by decide)), hwhole]

end Word

end KeyWrapping
