import KeyWrapping.Proofs.MaskFormulas
import KeyWrapping.Proofs.Words
import KeyWrapping.Word.Register

/-!
# Words in memory

After some bytes were read, the word so far is the word of these bytes (`Word.Register.fold_loadBE`,
`Word.Register.fold_loadLE`), and after some were written, the memory holds them at their places and is as before
elsewhere (`fold_set_up`, `fold_set_down`). So what is computed byte by byte in registers is what the words are, and the
laws of words hold of it: loading and storing undo each other, for single words and for rows (`Word.RowsExact`), a word
in memory is made of the bytes of its place (`Word.ReadsPlace`), and turning undoes turning (`Word.conversions_exact`).
-/

namespace KeyWrapping

/-! ## Writing place by place -/

section Writing

variable {α : Type} (f : Nat → α)

/-- Writing upwards from a place on. -/
theorem fold_set_up {n target : Nat} {l : List α} (h : target + n ≤ l.length) :
    n.fold (fun i _ l => l.set (target + i) (f i)) l =
      l.take target ++ (List.range n).map f ++ l.drop (target + n) := by
  induction n with
  | zero => simp
  | succ n ih =>
    have hfront : (l.take target ++ (List.range n).map f).length = target + n := by simp; omega
    rw [Nat.fold_succ, ih (by omega), List.set_append_right _ _ (by omega), hfront, Nat.sub_self,
      List.drop_eq_getElem_cons (by omega), List.set_cons_zero, List.range_succ, List.map_append]
    simp [Nat.add_assoc]

/-- Writing downwards to the same places. -/
theorem fold_set_down {n target : Nat} {l : List α} (h : target + n ≤ l.length) :
    n.fold (fun i _ l => l.set (target + (n - 1 - i)) (f i)) l =
      l.take target ++ ((List.range n).map f).reverse ++ l.drop (target + n) := by
  induction n generalizing target with
  | zero => simp
  | succ n ih =>
    -- all but the last write go one place further up
    have hplace : ∀ i, i < n → target + (n + 1 - 1 - i) = target + 1 + (n - 1 - i) := by omega
    have hfold : n.fold (fun i _ l => l.set (target + (n + 1 - 1 - i)) (f i)) l =
        n.fold (fun i _ l => l.set (target + 1 + (n - 1 - i)) (f i)) l := by
      congr 1
      funext i hi l
      rw [hplace i hi]
    have hfront : (l.take target).length = target := List.length_take_of_le (by omega)
    have hlast : target + (n + 1 - 1 - n) = target := by omega
    have hbehind : target + 1 + n = target + (n + 1) := by omega
    rw [Nat.fold_succ, hfold, ih (by omega), List.take_succ_eq_append_getElem (by omega), hlast, hbehind,
      List.append_assoc, List.append_assoc, List.set_append_right _ _ (by omega), hfront, Nat.sub_self]
    simp [List.range_succ]

end Writing

namespace Word

variable {w : Nat}

/-! ## Registers -/

namespace Register

open Mask.Register

theorem cut_shiftLeft (r : BitVec (width w)) (n : Nat) : cut (r <<< n) = cut r <<< n :=
  BitVec.setWidth_shiftLeft_of_le (le_width w)

theorem cut_widenByte (b : UInt8) : cut (widenByte w b) = b.toBitVec.setWidth w :=
  BitVec.setWidth_setWidth_of_le _ (le_width w)

/-- A byte of a widened word is a byte of the word. -/
theorem cutByte_shift (v : BitVec w) (n : Nat) : cutByte (widen v >>> n) = UInt8.ofBitVec ((v >>> n).setWidth 8) := by
  have hbits : ∀ j, (widen v).getLsbD j = v.getLsbD j := by
    intro j
    have := le_width w
    unfold widen
    rw [BitVec.getLsbD_setWidth]
    by_cases h : j < width w
    · simp [h]
    · rw [BitVec.getLsbD_of_ge v j (by omega), Bool.and_false]
  unfold cutByte
  congr 1
  apply BitVec.eq_of_getLsbD_eq
  intro j _
  simp only [BitVec.getLsbD_setWidth, BitVec.getLsbD_ushiftRight, hbits]

end Register

/-! ## Loading -/

theorem loadBE_concat (bytes : Bytes) (b : UInt8) :
    loadBE w (bytes ++ [b]) = loadBE w bytes <<< 8 ||| b.toBitVec.setWidth w := by
  simp [loadBE]

/-- With the least significant byte first, one more byte goes on top. -/
theorem loadLE_concat (bytes : Bytes) (b : UInt8) :
    loadLE w (bytes ++ [b]) = loadLE w bytes ||| b.toBitVec.setWidth w <<< (8 * bytes.length) := by
  induction bytes with
  | nil => simp [loadLE]
  | cons c bytes ih =>
    rw [List.cons_append, loadLE_cons, ih, loadLE_cons, BitVec.shiftLeft_or_distrib, ← BitVec.shiftLeft_add,
      List.length_cons, Nat.mul_succ, BitVec.or_assoc, BitVec.or_assoc,
      BitVec.or_comm (_ <<< _) (c.toBitVec.setWidth w)]

namespace Register

open Mask.Register

variable {memory : Bytes}

/-- Byte after byte, the bytes so far make the word so far. -/
theorem fold_loadBE {n base : Nat} (h : base + n ≤ memory.length) :
    n.fold (fun k hk word => cut (widen word <<< 8 ||| widenByte w (memory.get ⟨base + k, by omega⟩))) 0#w =
      Word.loadBE w ((memory.drop base).take n) := by
  induction n with
  | zero => rfl
  | succ n ih =>
    rw [Nat.fold_succ, ih (by omega), List.take_succ_eq_append_getElem (by simp; omega), loadBE_concat, cut_or,
      cut_shiftLeft, cut_widen, cut_widenByte, List.get_eq_getElem, List.getElem_drop]

theorem fold_loadLE {n base : Nat} (h : base + n ≤ memory.length) :
    n.fold (fun k hk word =>
      let byte : BitVec w := cut (widenByte w (memory.get ⟨base + k, by omega⟩))
      cut (widen word ||| widen (cut (widen byte <<< (8 * k))))) 0#w =
      Word.loadLE w ((memory.drop base).take n) := by
  induction n with
  | zero => rfl
  | succ n ih =>
    have hlength : ((memory.drop base).take n).length = n := by simp; omega
    rw [Nat.fold_succ, ih (by omega), List.take_succ_eq_append_getElem (by simp; omega), loadLE_concat, cut_or,
      cut_widen, cut_widen, cut_shiftLeft, cut_widen, cut_widenByte, List.get_eq_getElem, List.getElem_drop, hlength]

theorem loadBE_eq {i : Nat} (h : (i + 1) * (w / 8) ≤ memory.length) : loadBE w i memory h = loadBEAt w i memory :=
  fold_loadBE (by rwa [Nat.succ_mul] at h)

theorem loadLE_eq {i : Nat} (h : (i + 1) * (w / 8) ≤ memory.length) : loadLE w i memory h = loadLEAt w i memory :=
  fold_loadLE (by rwa [Nat.succ_mul] at h)

end Register

/-! ## Storing -/

namespace Register

open Mask.Register

theorem byte_eq (hw : 8 ∣ w) {i : Nat} (h : i < w / 8) (v : BitVec w) : byte i v = Word.byte i v := by
  have hplace : 8 * (w / 8 - 1 - i) = w - 8 * (i + 1) := by omega
  unfold byte Word.byte
  rw [cutByte_shift, hplace]

theorem storeLE_eq (v : BitVec w) {address : Nat} {memory : Bytes} (h : address + w / 8 ≤ memory.length) :
    storeLE v address memory = memory.take address ++ Word.storeLE v ++ memory.drop (address + w / 8) := by
  unfold storeLE Word.storeLE
  simp only [cutByte_shift]
  exact fold_set_up _ h

theorem storeBE_eq (hw : 8 ∣ w) (v : BitVec w) {address : Nat} {memory : Bytes}
    (h : address + w / 8 ≤ memory.length) :
    storeBE v address memory = memory.take address ++ Word.storeBE v ++ memory.drop (address + w / 8) := by
  rw [storeBE_eq_reverse_storeLE hw]
  unfold storeBE Word.storeLE
  simp only [cutByte_shift]
  exact fold_set_down _ h

end Register

/-! ## Rows -/

/-- The words of a row that is stored are the words of the row. -/
theorem loadRowLE_storeRowLE (hw : 8 ∣ w) (hpos : 0 < w) (words : List (BitVec w)) :
    loadRowLE w (storeRowLE words) = words := by
  have hblocks : storeRowLE words =
      Bytes.ofBlocks (words.map fun v => Block.ofList (storeLE v) (length_storeLE v)) := by
    simp [storeRowLE, Bytes.ofBlocks, List.flatMap_map]
  unfold loadRowLE
  rw [hblocks, Bytes.blocks_ofBlocks (by omega), List.map_map]
  simp [Function.comp_def, loadLE_storeLE hw]

/-- Words that are read from a row of bytes are stored as what they were read from. -/
theorem storeRowLE_loadRowLE (hw : 8 ∣ w) (hpos : 0 < w) {bytes : Bytes} (h : w / 8 ∣ bytes.length) :
    storeRowLE (loadRowLE w bytes) = bytes := by
  have hblock (b : Block (w / 8)) : storeLE (loadLE w b.toList) = b.toList := storeLE_loadLE hw (by simp)
  unfold storeRowLE loadRowLE
  simp only [List.flatMap_map, hblock]
  exact Bytes.ofBlocks_blocks (by omega) h

/-- The words of a row are those that its places hold. -/
theorem loadRowLE_take (hw : 8 ∣ w) (hpos : 0 < w) {count : Nat} {memory : Bytes}
    (h : count * (w / 8) ≤ memory.length) :
    loadRowLE w (memory.take (count * (w / 8))) = (List.range count).map (loadLEAt w · memory) := by
  have hstored : storeRowLE ((List.range count).map (loadLEAt w · memory)) = memory.take (count * (w / 8)) := by
    unfold storeRowLE
    rw [List.flatMap_map, ← flatMap_slice, List.flatMap_def, List.flatMap_def]
    congr 1
    apply List.map_congr_left
    intro i hi
    have hle : (i + 1) * (w / 8) ≤ memory.length :=
      Nat.le_trans (Nat.mul_le_mul_right _ (Nat.succ_le_of_lt (List.mem_range.mp hi))) h
    exact storeLE_loadLE hw (length_slice hle)
  rw [← hstored, loadRowLE_storeRowLE hw hpos]

theorem length_storeRowLE (words : List (BitVec w)) : (storeRowLE words).length = words.length * (w / 8) := by
  induction words with
  | nil => simp [storeRowLE]
  | cons v words ih =>
    unfold storeRowLE at ih ⊢
    rw [List.flatMap_cons, List.length_append, ih, length_storeLE, List.length_cons, Nat.succ_mul, Nat.add_comm]

namespace Register

theorem loadRowLE_eq (hw : 8 ∣ w) (hpos : 0 < w) {count : Nat} {memory : Bytes}
    (h : count * (w / 8) ≤ memory.length) {row : List (BitVec w)} (hrow : count ≤ row.length) :
    loadRowLE memory h row = Word.loadRowLE w (memory.take (count * (w / 8))) ++ row.drop count := by
  unfold loadRowLE
  simp only [loadLE_eq]
  have hset := fold_set_up (loadLEAt w · memory) (show 0 + count ≤ row.length by omega)
  simp only [Nat.zero_add, List.take_zero, List.nil_append] at hset
  rw [hset, loadRowLE_take hw hpos h]

theorem length_take_storeRowLE {count : Nat} {row : List (BitVec w)} (h : count ≤ row.length) :
    (Word.storeRowLE (row.take count)).length = count * (w / 8) := by
  rw [Word.length_storeRowLE, List.length_take_of_le h]

/-- Word after word is stored behind those that were stored before. -/
theorem storeRowLE_eq {count : Nat} {row : List (BitVec w)} (h : count ≤ row.length) {memory : Bytes}
    (hmemory : count * (w / 8) ≤ memory.length) :
    storeRowLE row h memory = memory.overwrite (Word.storeRowLE (row.take count)) := by
  unfold storeRowLE
  induction count with
  | zero => rfl
  | succ count ih =>
    rw [Nat.succ_mul] at hmemory
    have hstored : (Word.storeRowLE (row.take count)).length = count * (w / 8) := length_take_storeRowLE (by omega)
    have hroom : (memory.overwrite (Word.storeRowLE (row.take count))).length = memory.length :=
      Bytes.length_overwrite (by omega)
    have hmore : Word.storeRowLE (row.take (count + 1)) =
        Word.storeRowLE (row.take count) ++ Word.storeLE row[count] := by
      unfold Word.storeRowLE
      rw [List.take_succ_eq_append_getElem (by omega), List.flatMap_append, List.flatMap_singleton]
    rw [Nat.fold_succ, ih (by omega) (by omega), storeLE_eq _ (by omega), hmore, ← hstored, Bytes.take_overwrite]
    simp [Bytes.overwrite, List.drop_append]

theorem length_loadRowLE_take (hw : 8 ∣ w) (hpos : 0 < w) {count : Nat} {memory : Bytes}
    (h : count * (w / 8) ≤ memory.length) : (Word.loadRowLE w (memory.take (count * (w / 8)))).length = count := by
  rw [loadRowLE_take hw hpos h]
  simp

theorem length_loadRowLE (hw : 8 ∣ w) (hpos : 0 < w) {count : Nat} {memory : Bytes}
    (h : count * (w / 8) ≤ memory.length) {row : List (BitVec w)} (hrow : count ≤ row.length) :
    (loadRowLE memory h row).length = row.length := by
  rw [loadRowLE_eq hw hpos h hrow, List.length_append, length_loadRowLE_take hw hpos h, List.length_drop]
  omega

/-- Storing the words that were loaded puts the bytes back that they were loaded from. -/
theorem storeRowLE_loadRowLE (hw : 8 ∣ w) (hpos : 0 < w) {count : Nat} {memory : Bytes}
    (h : count * (w / 8) ≤ memory.length) {row : List (BitVec w)} (hrow : count ≤ row.length) {target : Bytes}
    (htarget : count * (w / 8) ≤ target.length) :
    storeRowLE (loadRowLE memory h row) (Nat.le_trans hrow (Nat.le_of_eq (length_loadRowLE hw hpos h hrow).symm))
        target =
      target.overwrite (memory.take (count * (w / 8))) := by
  have hfront : (loadRowLE memory h row).take count = Word.loadRowLE w (memory.take (count * (w / 8))) := by
    rw [loadRowLE_eq hw hpos h hrow]
    exact List.take_left' (length_loadRowLE_take hw hpos h)
  have hwhole : w / 8 ∣ (memory.take (count * (w / 8))).length := by
    rw [List.length_take_of_le h]
    exact Nat.dvd_mul_left _ _
  rw [storeRowLE_eq _ htarget, hfront, Word.storeRowLE_loadRowLE hw hpos hwhole]

theorem length_storeRowLE {count : Nat} {row : List (BitVec w)} (h : count ≤ row.length) {memory : Bytes}
    (hmemory : count * (w / 8) ≤ memory.length) : (storeRowLE row h memory).length = memory.length := by
  rw [storeRowLE_eq h hmemory, Bytes.length_overwrite (by rwa [length_take_storeRowLE h])]

/-- Loading what was stored puts the words back. -/
theorem loadRowLE_storeRowLE (hw : 8 ∣ w) (hpos : 0 < w) {count : Nat} {row : List (BitVec w)}
    (h : count ≤ row.length) {memory : Bytes} (hmemory : count * (w / 8) ≤ memory.length)
    {target : List (BitVec w)} (htarget : count ≤ target.length) :
    loadRowLE (storeRowLE row h memory) (Nat.le_trans hmemory (Nat.le_of_eq (length_storeRowLE h hmemory).symm))
        target =
      row.take count ++ target.drop count := by
  have hstored : (storeRowLE row h memory).take (count * (w / 8)) = Word.storeRowLE (row.take count) := by
    rw [storeRowLE_eq h hmemory, ← length_take_storeRowLE h, Bytes.take_overwrite]
  rw [loadRowLE_eq hw hpos _ htarget, hstored, Word.loadRowLE_storeRowLE hw hpos]

end Register

/-! ## Turning -/

namespace Register

open Mask.Register

theorem rotl_eq (r : Nat) (v : BitVec w) : rotl r v = Word.rotl r v := by
  unfold rotl Word.rotl
  rw [cut_or, cut_shiftLeft, cut_widen, cut_shift]

theorem rotr_eq (r : Nat) (v : BitVec w) : rotr r v = Word.rotr r v := by
  unfold rotr Word.rotr
  rw [cut_or, cut_shiftLeft, cut_widen, cut_shift]

end Register

theorem getLsbD_rotl {r : Nat} (hr : r < w) (v : BitVec w) {i : Nat} (hi : i < w) :
    (rotl r v).getLsbD i = if i < r then v.getLsbD (w - r + i) else v.getLsbD (i - r) := by
  unfold rotl
  rw [BitVec.getLsbD_or, BitVec.getLsbD_shiftLeft, BitVec.getLsbD_ushiftRight]
  by_cases h : i < r
  · simp [h, hi]
  · have hout : v.getLsbD (w - r + i) = false := BitVec.getLsbD_of_ge v _ (by omega)
    simp [h, hi, hout]

theorem rotr_eq_rotl {r : Nat} (hr : r ≤ w) (v : BitVec w) : rotr r v = rotl (w - r) v := by
  unfold rotr rotl
  rw [BitVec.or_comm, Nat.sub_sub_self hr]

/-- The rest of a whole turn takes back the first part of it. -/
theorem rotl_rotl {r : Nat} (h0 : 0 < r) (hr : r < w) (v : BitVec w) : rotl (w - r) (rotl r v) = v := by
  apply BitVec.eq_of_getLsbD_eq
  intro i hi
  rw [getLsbD_rotl (by omega) _ hi]
  split
  · rw [getLsbD_rotl hr _ (by omega), if_neg (by omega)]
    congr 1
    omega
  · rw [getLsbD_rotl hr _ (by omega), if_pos (by omega)]
    congr 1
    omega

theorem rotr_rotl {r : Nat} (h0 : 0 < r) (hr : r < w) (v : BitVec w) : rotr r (rotl r v) = v := by
  rw [rotr_eq_rotl (by omega), rotl_rotl h0 hr]

theorem rotl_rotr {r : Nat} (h0 : 0 < r) (hr : r < w) (v : BitVec w) : rotl r (rotr r v) = v := by
  have hback := rotl_rotl (r := w - r) (by omega) (by omega) v
  rwa [Nat.sub_sub_self (by omega), ← rotr_eq_rotl (by omega)] at hback

/-! ## Conversions -/

theorem getElem?_slice {i k : Nat} {memory : Bytes} (hk : k < w / 8) :
    (slice w i memory)[k]? = memory[i * (w / 8) + k]? := by
  unfold slice
  rw [List.getElem?_take_of_lt hk, List.getElem?_drop]

/-- Memories that agree in the bytes of a word hold the same bytes there, and only such memories do. -/
theorem slice_eq_iff {i : Nat} {memory memory' : Bytes} :
    slice w i memory = slice w i memory' ↔ ∀ k < w / 8, memory[i * (w / 8) + k]? = memory'[i * (w / 8) + k]? := by
  constructor
  · intro h k hk
    rw [← getElem?_slice hk, h, getElem?_slice hk]
  · intro h
    apply List.ext_getElem?
    intro k
    by_cases hk : k < w / 8
    · rw [getElem?_slice hk, getElem?_slice hk, h k hk]
    · have hout (bytes : Bytes) : (slice w i bytes)[k]? = none :=
        List.getElem?_eq_none (by unfold slice; rw [List.length_take]; omega)
      rw [hout, hout]

/-- What is loaded from memory is made of the bytes of one place, all of them and no others. -/
structure ReadsPlace (load : Nat → Bytes → BitVec w) (store : BitVec w → Bytes) : Prop where
  store_load : ∀ {i memory}, (i + 1) * (w / 8) ≤ memory.length →
    ∀ {k}, k < w / 8 → (store (load i memory))[k]? = memory[i * (w / 8) + k]?
  /-- Two memories give the same word if and only if they agree in these bytes. -/
  load_eq_iff : ∀ {i memory memory'}, (i + 1) * (w / 8) ≤ memory.length → (i + 1) * (w / 8) ≤ memory'.length →
    (load i memory = load i memory' ↔ ∀ k < w / 8, memory[i * (w / 8) + k]? = memory'[i * (w / 8) + k]?)

theorem readsPlace_of {load : Bytes → BitVec w} {store : BitVec w → Bytes}
    (h : ∀ {bytes : Bytes}, bytes.length = w / 8 → store (load bytes) = bytes) :
    ReadsPlace (fun i memory => load (slice w i memory)) store where
  store_load hroom _ hk := by rw [h (length_slice hroom), getElem?_slice hk]
  load_eq_iff hroom hroom' := by
    rw [← slice_eq_iff]
    constructor
    · intro heq
      rw [← h (length_slice hroom), heq, h (length_slice hroom')]
    · intro heq
      rw [heq]

/-- What is computed byte by byte in registers is what the words are. -/
structure ComputedInRegisters (w : Nat) : Prop where
  loadBE_eq : ∀ {i memory} (h : (i + 1) * (w / 8) ≤ memory.length), Register.loadBE w i memory h = loadBEAt w i memory
  loadLE_eq : ∀ {i memory} (h : (i + 1) * (w / 8) ≤ memory.length), Register.loadLE w i memory h = loadLEAt w i memory
  byte_eq : ∀ {i}, i < w / 8 → ∀ v : BitVec w, Register.byte i v = byte i v
  /-- The bytes around a stored word stay as they were. -/
  storeBE_eq : ∀ (v : BitVec w) {address memory}, address + w / 8 ≤ memory.length →
    Register.storeBE v address memory = memory.take address ++ storeBE v ++ memory.drop (address + w / 8)
  storeLE_eq : ∀ (v : BitVec w) {address memory}, address + w / 8 ≤ memory.length →
    Register.storeLE v address memory = memory.take address ++ storeLE v ++ memory.drop (address + w / 8)
  loadRowLE_eq : ∀ {count memory} (h : count * (w / 8) ≤ memory.length) {row : List (BitVec w)}, count ≤ row.length →
    Register.loadRowLE memory h row = loadRowLE w (memory.take (count * (w / 8))) ++ row.drop count
  storeRowLE_eq : ∀ {count} {row : List (BitVec w)} (h : count ≤ row.length) {memory},
    count * (w / 8) ≤ memory.length → Register.storeRowLE row h memory = memory.overwrite (storeRowLE (row.take count))
  rotl_eq : ∀ (r : Nat) (v : BitVec w), Register.rotl r v = rotl r v
  rotr_eq : ∀ (r : Nat) (v : BitVec w), Register.rotr r v = rotr r v

/-- Rows of words go to bytes and back, and so do the first words of a row in memory, with what stands behind them left
alone. -/
structure RowsExact (w : Nat) : Prop where
  storeRowLE_loadRowLE : ∀ {bytes : Bytes}, w / 8 ∣ bytes.length → storeRowLE (loadRowLE w bytes) = bytes
  loadRowLE_storeRowLE : ∀ words : List (BitVec w), loadRowLE w (storeRowLE words) = words
  bytes_kept : ∀ {count memory} (h : count * (w / 8) ≤ memory.length) {row : List (BitVec w)}, count ≤ row.length →
    ∀ {target : Bytes}, count * (w / 8) ≤ target.length →
    ∃ hloaded : count ≤ (Register.loadRowLE memory h row).length,
      Register.storeRowLE (Register.loadRowLE memory h row) hloaded target =
        target.overwrite (memory.take (count * (w / 8)))
  words_kept : ∀ {count} {row : List (BitVec w)} (h : count ≤ row.length) {memory}, count * (w / 8) ≤ memory.length →
    ∀ {target : List (BitVec w)}, count ≤ target.length →
    ∃ hstored : count * (w / 8) ≤ (Register.storeRowLE row h memory).length,
      Register.loadRowLE (Register.storeRowLE row h memory) hstored target =
        row.take count ++ target.drop count

/-- Words of `w` bits and their bytes say the same, in either order of bytes. -/
structure ConvertsExactly (w : Nat) : Prop where
  loadBE_storeBE : ∀ v : BitVec w, loadBE w (storeBE v) = v
  loadLE_storeLE : ∀ v : BitVec w, loadLE w (storeLE v) = v
  storeBE_loadBE : ∀ {bytes : Bytes}, bytes.length = w / 8 → storeBE (loadBE w bytes) = bytes
  storeLE_loadLE : ∀ {bytes : Bytes}, bytes.length = w / 8 → storeLE (loadLE w bytes) = bytes
  storeBE_eq_reverse : ∀ v : BitVec w, storeBE v = (storeLE v).reverse
  getElem?_storeBE : ∀ (v : BitVec w) {i}, i < w / 8 → (storeBE v)[i]? = some (byte i v)
  readsBE : ReadsPlace (loadBEAt w) storeBE
  readsLE : ReadsPlace (loadLEAt w) storeLE
  rows : RowsExact w
  rotr_rotl : ∀ {r}, 0 < r → r < w → ∀ v : BitVec w, rotr r (rotl r v) = v
  rotl_rotr : ∀ {r}, 0 < r → r < w → ∀ v : BitVec w, rotl r (rotr r v) = v
  registers : ComputedInRegisters w

theorem computedInRegisters (hw : 8 ∣ w) (hpos : 0 < w) : ComputedInRegisters w where
  loadBE_eq h := Register.loadBE_eq h
  loadLE_eq h := Register.loadLE_eq h
  byte_eq h v := Register.byte_eq hw h v
  storeBE_eq v _ _ h := Register.storeBE_eq hw v h
  storeLE_eq v _ _ h := Register.storeLE_eq v h
  loadRowLE_eq h _ hrow := Register.loadRowLE_eq hw hpos h hrow
  storeRowLE_eq h _ hmemory := Register.storeRowLE_eq h hmemory
  rotl_eq r v := Register.rotl_eq r v
  rotr_eq r v := Register.rotr_eq r v

theorem rowsExact (hw : 8 ∣ w) (hpos : 0 < w) : RowsExact w where
  storeRowLE_loadRowLE h := storeRowLE_loadRowLE hw hpos h
  loadRowLE_storeRowLE words := loadRowLE_storeRowLE hw hpos words
  bytes_kept h _ hrow _ htarget := ⟨_, Register.storeRowLE_loadRowLE hw hpos h hrow htarget⟩
  words_kept h _ hmemory _ htarget := ⟨_, Register.loadRowLE_storeRowLE hw hpos h hmemory htarget⟩

/-- **Words and bytes convert exactly**: for words of whole bytes, loading and storing undo each other in both orders of
bytes, each order is the other one backwards, a word in memory is made of the bytes of its place and no others, rows of
words go to bytes and back, and turning a word left and right undo each other; all of this is what the machine computes
byte by byte in registers. -/
theorem conversions_exact (hw : 8 ∣ w) (hpos : 0 < w) : ConvertsExactly w where
  loadBE_storeBE v := loadBE_storeBE hw v
  loadLE_storeLE v := loadLE_storeLE hw v
  storeBE_loadBE h := storeBE_loadBE hw h
  storeLE_loadLE h := storeLE_loadLE hw h
  storeBE_eq_reverse v := storeBE_eq_reverse_storeLE hw v
  getElem?_storeBE v i h := by
    have hi : i < (storeBE v).length := by rwa [length_storeBE]
    rw [List.getElem?_eq_getElem hi, getElem_storeBE]
  readsBE := readsPlace_of fun h => storeBE_loadBE hw h
  readsLE := readsPlace_of fun h => storeLE_loadLE hw h
  rows := rowsExact hw hpos
  rotr_rotl h0 hr v := rotr_rotl h0 hr v
  rotl_rotr h0 hr v := rotl_rotr h0 hr v
  registers := computedInRegisters hw hpos

/-- Words of 16 bits with high bits set: one is read from the middle of a memory, one is stored there, and one is turned
there and back. -/
theorem conversions_exact_sixteen : 8 ∣ 16 ∧ 0 < 16 ∧
    Register.loadBE 16 1 [0x00, 0x11, 0xFE, 0xDC, 0x44] (by decide) = 0xFEDC#16 ∧
      Register.storeLE 0xFEDC#16 1 [0x00, 0x11, 0x22, 0x33] = [0x00, 0xDC, 0xFE, 0x33] ∧
        loadLE 16 (storeLE 0xFEDC#16) = 0xFEDC#16 ∧ rotr 15 (rotl 15 0xFEDC#16) = 0xFEDC#16 := by
  have hw : 8 ∣ 16 := by decide
  have hpos : 0 < 16 := by decide
  have h := conversions_exact hw hpos
  refine ⟨hw, hpos, ?_, ?_, h.loadLE_storeLE _, h.rotr_rotl (by decide) (by decide) _⟩
  · rw [h.registers.loadBE_eq]
    decide
  · rw [h.registers.storeLE_eq _ (by decide)]
    decide

end Word

end KeyWrapping
