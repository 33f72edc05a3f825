import KeyWrapping.Proofs.CipherRuns
import KeyWrapping.Proofs.WideBlockRuns

/-!
# Blocks that do not depend on one another

A cipher goes over the blocks of its data one by one, and block `i` of the result is what it makes of block `i` alone
(`Bytes.blockAt_mapBlocks`). So whatever undoes it on single blocks undoes it on all data of whole blocks
(`Bytes.mapBlocks_mapBlocks`). The two directions of BelT do so under every key (`Belt.directions_undo`).
-/

namespace KeyWrapping

/-! ## Blocks by their number -/

namespace Bytes

variable {n : Nat}

/-- Block number `i` of the data, counted from zero. -/
def blockAt (n i : Nat) (data : Bytes) : Bytes := (data.drop (i * n)).take n

/-- What is done to all blocks is done to each of them alone. -/
theorem blockAt_mapBlocks (hn : 0 < n) (f : Block n → Block n) {i : Nat} {data : Bytes}
    (h : (i + 1) * n ≤ data.length) : blockAt n i (mapBlocks f data) = mapBlocks f (blockAt n i data) := by
  rw [Nat.add_mul, Nat.one_mul] at h
  have hbefore : (mapBlocks f (data.take (i * n))).length = i * n := length_mapBlocks_take f hn (by omega)
  have hblock : (mapBlocks f ((data.drop (i * n)).take n)).length = n := by
    have hle : 1 * n ≤ (data.drop (i * n)).length := by
      rw [List.length_drop]
      omega
    have hone := length_mapBlocks_take f hn hle
    rwa [Nat.one_mul] at hone
  have hsplit : mapBlocks f data = mapBlocks f (data.take (i * n)) ++
      (mapBlocks f ((data.drop (i * n)).take n) ++ mapBlocks f ((data.drop (i * n)).drop n)) := by
    rw [← mapBlocks_append f hn, List.take_append_drop, ← mapBlocks_append f hn, List.take_append_drop]
    · rw [length_take_blocks (by omega)]
      exact Nat.dvd_mul_left n i
    · rw [List.length_take_of_le (by rw [List.length_drop]; omega)]
  rw [hsplit, blockAt, List.drop_left' hbefore, List.take_left' hblock, blockAt]

/-- The blocks of the data are put through the function one by one. -/
theorem mapBlocks_take_eq_flatMap (hn : 0 < n) (f : Block n → Block n) {count : Nat} {data : Bytes}
    (h : count * n ≤ data.length) :
    mapBlocks f (data.take (count * n)) = (List.range count).flatMap fun i => mapBlocks f (data.blockAt n i) := by
  induction count with
  | zero => simp
  | succ count ih =>
    have hfront : count * n ≤ data.length := Nat.le_trans (Nat.mul_le_mul_right n (Nat.le_succ count)) h
    rw [mapBlocks_take_add f hn hfront, ih hfront, List.range_succ, List.flatMap_append, List.flatMap_singleton,
      Nat.one_mul, blockAt]

/-- Functions that undo each other on blocks undo each other on data of whole blocks. -/
theorem mapBlocks_mapBlocks (hn : 0 < n) {f g : Block n → Block n} (h : ∀ b, g (f b) = b) {data : Bytes}
    (hd : n ∣ data.length) : mapBlocks g (mapBlocks f data) = data := by
  have hmap : ((data.blocks n).map f).map g = data.blocks n := by
    rw [List.map_map]
    exact List.map_id'' h _
  rw [mapBlocks, mapBlocks, blocks_ofBlocks hn, hmap, ofBlocks_blocks hn hd]

end Bytes

/-- The other direction takes back what a direction does to a block. -/
theorem Permutation.Inverse.run_opposite {n : Nat} {p : Permutation n} (hp : p.Inverse) (direction : Direction)
    (b : Block n) : p.run direction.opposite (p.run direction b) = b := by
  cases direction with
  | encrypt => exact hp.decrypt_encrypt b
  | decrypt => exact hp.encrypt_decrypt b

/-! ## Data under a key -/

namespace Cipher

variable {a : Algorithm} (direction : Direction) (key : Bytes) {count : Nat} {data : Bytes}

/-- The other direction takes back what a direction does to data of whole blocks. -/
theorem processedUnder_opposite (ha : a.Fit) (hp : (a.permutation (a.expand key)).Inverse)
    (hdata : data.length = count * a.blockSize) :
    processedUnder a key direction.opposite count (processedUnder a key direction count data) = data := by
  have hlength : (processedUnder a key direction count data).length = count * a.blockSize :=
    length_processedUnder direction key ha (Nat.le_of_eq hdata.symm)
  rw [processedUnder, List.take_of_length_le (Nat.le_of_eq hlength), processedUnder,
    List.take_of_length_le (Nat.le_of_eq hdata)]
  refine Bytes.mapBlocks_mapBlocks ha.blockSize_pos (hp.run_opposite direction) ?_
  rw [hdata]
  exact Nat.dvd_mul_left _ _

/-- Each block of the result is the result for that block of the data. -/
theorem blockAt_processedUnder (ha : a.Fit) (hdata : data.length = count * a.blockSize) {i : Nat} (hi : i < count) :
    (processedUnder a key direction count data).blockAt a.blockSize i =
      processedUnder a key direction 1 (data.blockAt a.blockSize i) := by
  have hle : (i + 1) * a.blockSize ≤ data.length := hdata ▸ Nat.mul_le_mul_right _ hi
  have hone : (data.blockAt a.blockSize i).length ≤ 1 * a.blockSize := by
    rw [Nat.one_mul]
    exact List.length_take_le _ _
  rw [processedUnder, List.take_of_length_le (Nat.le_of_eq hdata), Bytes.blockAt_mapBlocks ha.blockSize_pos _ hle,
    processedUnder, List.take_of_length_le hone]

end Cipher

/-! ## BelT -/

/-- BelT is on offer, and so it is fit for use. -/
theorem Belt.fit : algorithm.Fit := by
  have hoffer : Catalogue.find? "BelT" "" = some algorithm := rfl
  exact Catalogue.fit_of_find? hoffer

/-- **BelT's two directions undo each other**: an object that is given a key of 32 bytes puts any number of blocks
through either direction, each block for itself, and the other direction gives the blocks back. It makes no difference
whether the result goes to a buffer or takes the place of the data. -/
theorem Belt.directions_undo {key : Bytes} (hkey : key.length = 32) (c : Cipher algorithm) :
    ∃ c', c.setKey key = .ok c' ∧ ∀ (direction : Direction) (count : Nat) (data : Bytes), data.length = count * 16 →
      ∃ processed, c'.processBlocks direction count data = .ok processed ∧ processed.length = data.length ∧
        c'.processBlocks direction.opposite count processed = .ok data ∧
        (∀ i < count, c'.processBlocks direction 1 (data.blockAt 16 i) = .ok (processed.blockAt 16 i)) ∧
        (∀ buffer, c'.processInto direction count data buffer = ⟨.ok data.length, buffer.overwrite processed⟩) ∧
        c'.processInPlace direction data = ⟨.ok data.length, processed⟩ := by
  refine ⟨keyed key, setKey_fresh hkey, ?_⟩
  intro direction count data hdata
  have hle : count * algorithm.blockSize ≤ data.length := Nat.le_of_eq hdata.symm
  have hlength : (Cipher.processedUnder algorithm key direction count data).length = data.length := by
    rw [hdata]
    exact Bytes.length_mapBlocks_take _ fit.blockSize_pos hle
  refine ⟨_, Cipher.processBlocks_under direction key fit hle, hlength, ?_, ?_, ?_, ?_⟩
  · have hback := Cipher.processBlocks_under direction.opposite key fit (hlength ▸ hle)
    rwa [Cipher.processedUnder_opposite direction key fit (permutation_inverse _) hdata] at hback
  · intro i hi
    have hone : 1 * algorithm.blockSize ≤ (data.blockAt 16 i).length := by
      rw [Bytes.blockAt, List.length_take_of_le]
      · exact Nat.le_refl 16
      · rw [List.length_drop]
        omega
    have hblock := Cipher.blockAt_processedUnder direction key fit hdata hi
    exact (Cipher.processBlocks_under direction key fit hone).trans (congrArg Except.ok hblock.symm)
  · intro buffer
    rw [hdata]
    exact Cipher.processInto_under direction key fit hle buffer
  · have hcount : data.length / algorithm.blockSize = count := by
      rw [hdata]
      exact Nat.mul_div_cancel count (by decide)
    have hplace := Cipher.processInPlace_under direction data key fit
    rw [hcount, Bytes.overwrite_of_length_eq hlength] at hplace
    rwa [hdata]

/-- With the key of 32 zero bytes, two blocks come back from both directions. -/
theorem Belt.directions_undo_two_blocks :
    (Bytes.zeros 32).length = 32 ∧ ∃ c, (Cipher.fresh algorithm).setKey (.zeros 32) = .ok c ∧
      ∀ direction : Direction, ∃ processed, c.processBlocks direction 2 (List.replicate 32 0x5A) = .ok processed ∧
        c.processBlocks direction.opposite 2 processed = .ok (List.replicate 32 0x5A) := by
  have hkey : (Bytes.zeros 32).length = 32 := Bytes.length_zeros 32
  obtain ⟨c, hc, h⟩ := directions_undo hkey (Cipher.fresh algorithm)
  refine ⟨hkey, c, hc, ?_⟩
  intro direction
  obtain ⟨processed, hprocessed, -, hback, -⟩ := h direction 2 (List.replicate 32 0x5A) List.length_replicate
  exact ⟨processed, hprocessed, hback⟩

end KeyWrapping
