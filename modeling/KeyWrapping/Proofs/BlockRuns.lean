import KeyWrapping.Cipher.Catalogue
import KeyWrapping.Cipher.Delivery
import KeyWrapping.Proofs.Exactness
import Mathlib.Algebra.GroupWithZero.Nat

/-!
# Runs of blocks

However many calls the blocks are handed over in, each block is put through the cipher once and in its place: with
enough data, the calls take all the blocks (`Algorithm.sum_callSizes`), none of them misses a block, and together they
give what one call would (`Algorithm.handOver_eq`, `Algorithm.handOverInto_eq`). So a cipher of an algorithm fit for use
(`Algorithm.Fit`), as all on offer are, puts into a caller's buffer what it gives without one (`Cipher.processInto_eq`,
`Cipher.whole_processInPlace`).
-/

namespace KeyWrapping

/-! ## Blocks of data put together -/

namespace Bytes

variable {n : Nat}

theorem blocks_append (hn : 0 < n) {front : Bytes} (h : n ∣ front.length) (rest : Bytes) :
    blocks n (front ++ rest) = blocks n front ++ blocks n rest := by
  have hfront := blocks_ofBlocks_append_eq hn (blocks n front) rest
  rwa [ofBlocks_blocks hn h] at hfront

variable (f : Block n → Block n)

@[simp] theorem mapBlocks_nil : mapBlocks f [] = [] := by
  rw [mapBlocks, blocks, dif_neg (by simp; omega), List.map_nil, ofBlocks_nil]

/-- Blocks do not depend on one another. -/
theorem mapBlocks_append (hn : 0 < n) {front : Bytes} (h : n ∣ front.length) (rest : Bytes) :
    mapBlocks f (front ++ rest) = mapBlocks f front ++ mapBlocks f rest := by
  rw [mapBlocks, blocks_append hn h, List.map_append, ofBlocks_append]
  rfl

theorem length_take_blocks {count : Nat} {data : Bytes} (h : count * n ≤ data.length) :
    (data.take (count * n)).length = count * n := by
  rw [List.length_take, Nat.min_eq_left h]

theorem length_mapBlocks_take (hn : 0 < n) {count : Nat} {data : Bytes} (h : count * n ≤ data.length) :
    (mapBlocks f (data.take (count * n))).length = count * n := by
  rw [mapBlocks, length_ofBlocks, List.length_map, length_blocks hn, length_take_blocks h, Nat.mul_div_cancel _ hn]

/-- The blocks of two stretches, one behind the other. -/
theorem mapBlocks_take_add (hn : 0 < n) {count : Nat} {data : Bytes} (h : count * n ≤ data.length) (more : Nat) :
    mapBlocks f (data.take ((count + more) * n)) =
      mapBlocks f (data.take (count * n)) ++ mapBlocks f ((data.drop (count * n)).take (more * n)) := by
  have hfront : n ∣ (data.take (count * n)).length := by
    rw [length_take_blocks h]
    exact Nat.dvd_mul_left n count
  rw [← mapBlocks_append f hn hfront, Nat.add_mul, List.take_add]

end Bytes

/-! ## Call by call -/

namespace Algorithm

/-- The calls take all the blocks. -/
theorem sum_callSizes {limit : Nat} (h : 0 < limit) (count : Nat) : (callSizes limit count).sum = count := by
  fun_induction callSizes limit count with
  | case1 count hpos ih =>
    rw [List.sum_cons, ih]
    omega
  | case2 count hpos =>
    have hzero : count = 0 := by omega
    rw [hzero, List.sum_nil]

variable {n : Nat} (f : Block n → Block n)

/-- Data for all the calls are data for the first call and, behind it, for the others. -/
theorem enough_cons {size : Nat} {sizes : List Nat} {data : Bytes} (h : (size :: sizes).sum * n ≤ data.length) :
    size * n ≤ data.length ∧ sizes.sum * n ≤ (data.drop (size * n)).length := by
  rw [List.sum_cons, Nat.add_mul] at h
  rw [List.length_drop]
  omega

/-- With enough data, the calls together give what one call would. -/
theorem handOver_eq (hn : 0 < n) {sizes : List Nat} {data : Bytes} (h : sizes.sum * n ≤ data.length) :
    handOver f sizes data = .ok (Bytes.mapBlocks f (data.take (sizes.sum * n))) := by
  induction sizes generalizing data with
  | nil => simp [handOver]
  | cons size sizes ih =>
    obtain ⟨hsize, hrest⟩ := enough_cons h
    have hcall := Bytes.length_mapBlocks_take f hn hsize
    rw [handOver, ensure_bind, if_pos (by simpa using hcall), ih hrest, ok_bind, List.sum_cons,
      Bytes.mapBlocks_take_add f hn hsize]
    rfl

/-- With enough data, the calls together put into the buffer what one call would, and leave what is behind it. -/
theorem handOverInto_eq (hn : 0 < n) {sizes : List Nat} {data : Bytes} (h : sizes.sum * n ≤ data.length)
    (buffer : Bytes) :
    handOverInto f sizes data buffer = .ofResult (.ok (Bytes.mapBlocks f (data.take (sizes.sum * n)))) id buffer := by
  induction sizes generalizing data buffer with
  | nil => simp [handOverInto]
  | cons size sizes ih =>
    obtain ⟨hsize, hrest⟩ := enough_cons h
    have hcall := Bytes.length_mapBlocks_take f hn hsize
    rw [handOverInto, hcall, beq_self_eq_true, ensure_true, ih hrest, List.sum_cons,
      Bytes.mapBlocks_take_add f hn hsize]
    simp [Bytes.overwrite, hcall, Except.map]

/-- The algorithm is fit for use: it needs a key, and neither its blocks nor its calls are empty. -/
structure Fit (a : Algorithm) : Prop where
  keyless : a.keyless = none
  blockSize_pos : 0 < a.blockSize
  callLimit_pos : ∀ limit, a.callLimit = some limit → 0 < limit

variable {a : Algorithm} (g : Block a.blockSize → Block a.blockSize) {count : Nat} {data : Bytes}

theorem process_eq (ha : a.Fit) (h : count * a.blockSize ≤ data.length) :
    a.process g count data = .ok (Bytes.mapBlocks g (data.take (count * a.blockSize))) := by
  unfold process
  split
  case h_1 => rfl
  case h_2 limit hlimit =>
    have hsum := sum_callSizes (ha.callLimit_pos limit hlimit) count
    rw [handOver_eq g ha.blockSize_pos (by rwa [hsum]), hsum]

theorem processInto_eq (ha : a.Fit) (h : count * a.blockSize ≤ data.length) (buffer : Bytes) :
    a.processInto g count data buffer = .ofResult (a.process g count data) id buffer := by
  rw [process_eq g ha h]
  unfold processInto
  split
  case h_1 => rfl
  case h_2 limit hlimit =>
    have hsum := sum_callSizes (ha.callLimit_pos limit hlimit) count
    rw [handOverInto_eq g ha.blockSize_pos (by rwa [hsum]), hsum]

end Algorithm

/-- Every algorithm on offer is fit for use. -/
theorem Catalogue.fit_of_find? {name provider : String} {a : Algorithm} (h : find? name provider = some a) : a.Fit := by
  obtain ⟨hlookup, -⟩ := Option.filter_eq_some_iff.mp h
  obtain ⟨before, behind, hentries, -⟩ := List.lookup_eq_some_iff.mp hlookup
  have hmem : (name, a) ∈ entries := by simp [hentries]
  simp only [entries, List.mem_cons, Prod.mk.injEq, List.not_mem_nil, or_false] at hmem
  rcases hmem with ⟨-, rfl⟩ | ⟨-, rfl⟩ | ⟨-, rfl⟩ | ⟨-, rfl⟩ | ⟨-, rfl⟩
  all_goals exact ⟨rfl, by decide, by rintro _ ⟨⟩ <;> decide⟩

/-! ## Keyed and unkeyed ciphers -/

namespace Cipher

variable {a : Algorithm} {c : Cipher a} (direction : Direction) {count : Nat} {data : Bytes}

theorem permutation_of_not_isKeyed (h : c.isKeyed = false) : c.permutation = .error (.keyNotSet a.name) := by
  have hnone : c.schedule = none := by simpa [isKeyed] using h
  rw [permutation, hnone]

/-- In a caller's buffer there is the result at the front, or the error costs it nothing. -/
theorem processInto_eq (ha : a.Fit) (h : count * a.blockSize ≤ data.length) (buffer : Bytes) :
    c.processInto direction count data buffer = .ofResult (c.processBlocks direction count data) id buffer := by
  cases hp : c.permutation with
  | error e =>
    have hresult : c.processBlocks direction count data = .error e := by
      rw [processBlocks, hp]
      rfl
    rw [processInto, hp, hresult, Delivery.ofResult, id, ite_self]
  | ok p =>
    rw [processInto, hp, processBlocks, hp, ok_bind]
    exact Algorithm.processInto_eq _ ha h buffer

/-- In place, the data are replaced by the result. -/
theorem whole_processInPlace (ha : a.Fit) : (c.processInPlace direction data).whole = c.process direction data := by
  rw [processInPlace, processInto_eq direction ha (Nat.div_mul_le_self _ _), process]
  cases c.processBlocks direction (data.length / a.blockSize) data <;> rfl

end Cipher

end KeyWrapping
