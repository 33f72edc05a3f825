import KeyWrapping.Proofs.BlocksInMemory
import KeyWrapping.Proofs.IndependentBlocks

/-!
# Block by block

However a cipher on offer gets at its blocks, the result is made of what it makes of each block alone, in order
(`Cipher.BlockByBlock`). This is so whether it goes from block to block itself or an external library is handed over
many of them in one call, for every number of blocks that can be asked for (`Catalogue.blocks_one_by_one`).
-/

namespace KeyWrapping

namespace Cipher

variable {a : Algorithm}

/-- The cipher processes block by block in one direction. -/
structure BlockByBlock (c : Cipher a) (direction : Direction) : Prop where
  /-- The result is made of the results for the single blocks, in order, wherever it goes. -/
  one_by_one : ∀ {count data}, count * a.blockSize ≤ data.length → ∃ processed : Nat → Bytes,
    (∀ i < count, (processed i).length = a.blockSize ∧
      c.processBlocks direction 1 (data.blockAt a.blockSize i) = .ok (processed i)) ∧
    c.processBlocks direction count data = .ok ((List.range count).flatMap processed) ∧
    ∀ buffer, c.processInto direction count data buffer =
      ⟨.ok (count * a.blockSize), (List.range count).flatMap processed ++ buffer.drop (count * a.blockSize)⟩
  /-- Some blocks and then others are all of them at once. -/
  in_two_parts : ∀ {m n data}, (m + n) * a.blockSize ≤ data.length → ∃ front back,
    c.processBlocks direction m data = .ok front ∧
    c.processBlocks direction n (data.drop (m * a.blockSize)) = .ok back ∧
    c.processBlocks direction (m + n) data = .ok (front ++ back)
  /-- In place, the whole blocks are processed and a partial block behind them stays. -/
  in_place : ∀ data : Bytes,
    let whole := data.length / a.blockSize * a.blockSize
    ∃ processed, c.processBlocks direction (data.length / a.blockSize) (data.take whole) = .ok processed ∧
      processed.length = whole ∧
      c.processInPlace direction data = ⟨.ok whole, processed ++ data.drop whole⟩

/-- Blocks in memory are processed as the cipher says. -/
structure DoneBy (c : Cipher a) (processAt : Direction → UInt64 → Pointers → Trace) : Prop where
  finishes : ∀ direction count {p}, p.Room (count.toNat * a.blockSize) → ∃ processed,
    c.processBlocks direction count.toNat (p.ahead (count.toNat * a.blockSize)) = .ok processed ∧
    (processAt direction count p).Finishes (p.advance (count.toNat * a.blockSize) processed)
  /-- Data whose size is a word of 64 bits are processed in place. -/
  in_place : ∀ direction {data : Bytes}, data.length < 2 ^ 64 →
    let trace := processAt direction (UInt64.ofNat (data.length / a.blockSize)) (.inPlace data)
    trace.failure = none ∧ trace.pointers.memory = (c.processInPlace direction data).buffer

/-! ## Under a key -/

section Key

variable (direction : Direction) (key : Bytes) {count : Nat}

theorem processedUnder_eq_flatMap (ha : a.Fit) {data : Bytes} (h : count * a.blockSize ≤ data.length) :
    processedUnder a key direction count data =
      (List.range count).flatMap fun i => processedUnder a key direction 1 (data.blockAt a.blockSize i) := by
  rw [processedUnder, Bytes.mapBlocks_take_eq_flatMap ha.blockSize_pos _ h]
  congr 1
  funext i
  rw [processedUnder, Bytes.blockAt, Nat.one_mul, List.take_take, Nat.min_self]

/-- No other bytes matter than those of the blocks. -/
theorem processedUnder_take (data : Bytes) :
    processedUnder a key direction count (data.take (count * a.blockSize)) =
      processedUnder a key direction count data := by
  rw [processedUnder, List.take_take, Nat.min_self, processedUnder]

theorem processedUnder_add (ha : a.Fit) {m n : Nat} {data : Bytes} (h : m * a.blockSize ≤ data.length) :
    processedUnder a key direction (m + n) data =
      processedUnder a key direction m data ++ processedUnder a key direction n (data.drop (m * a.blockSize)) :=
  Bytes.mapBlocks_take_add _ ha.blockSize_pos h n

theorem blockByBlock_under (ha : a.Fit) : (⟨some (a.expand key)⟩ : Cipher a).BlockByBlock direction := by
  constructor
  case one_by_one =>
    intro count data h
    refine ⟨fun i => processedUnder a key direction 1 (data.blockAt a.blockSize i), ?_, ?_, ?_⟩
    · intro i hi
      have hblock : 1 * a.blockSize ≤ (data.blockAt a.blockSize i).length := by
        have hle : (i + 1) * a.blockSize ≤ data.length := Nat.le_trans (Nat.mul_le_mul_right _ hi) h
        rw [Nat.add_mul, Nat.one_mul] at hle
        rw [Bytes.blockAt, List.length_take, List.length_drop]
        omega
      refine ⟨?_, processBlocks_under direction key ha hblock⟩
      rw [length_processedUnder direction key ha hblock, Nat.one_mul]
    · rw [processBlocks_under direction key ha h, processedUnder_eq_flatMap direction key ha h]
    · intro buffer
      rw [processInto_under direction key ha h, Bytes.overwrite, length_processedUnder direction key ha h,
        processedUnder_eq_flatMap direction key ha h]
  case in_two_parts =>
    intro m n data h
    have hall := h
    rw [Nat.add_mul] at h
    have hfront : m * a.blockSize ≤ data.length := by omega
    have hback : n * a.blockSize ≤ (data.drop (m * a.blockSize)).length := by
      rw [List.length_drop]
      omega
    refine ⟨_, _, processBlocks_under direction key ha hfront, processBlocks_under direction key ha hback, ?_⟩
    rw [processBlocks_under direction key ha hall, processedUnder_add direction key ha hfront]
  case in_place =>
    intro data whole
    have hwhole : whole ≤ data.length := Nat.div_mul_le_self _ _
    have hlength := length_processedUnder direction key ha hwhole
    refine ⟨_, processBlocks_under direction key ha (Nat.le_of_eq (Bytes.length_take_blocks hwhole).symm), ?_, ?_⟩
    · rw [processedUnder_take, hlength]
    · rw [processInPlace_under direction data key ha, Bytes.overwrite, hlength, processedUnder_take]

/-- Whoever leaves in memory what the cipher makes of the blocks at once does what the cipher says. -/
theorem doneBy_under (ha : a.Fit) {processAt : Direction → UInt64 → Pointers → Trace}
    (h : ∀ direction count {p}, p.Room (count.toNat * a.blockSize) → (processAt direction count p).Finishes
      (p.atOnce ((a.permutation (a.expand key)).run direction) count.toNat)) :
    (⟨some (a.expand key)⟩ : Cipher a).DoneBy processAt := by
  constructor
  case finishes =>
    intro direction count p hroom
    have hahead := Pointers.length_ahead hroom
    refine ⟨_, processBlocks_under direction key ha (Nat.le_of_eq hahead.symm), ?_⟩
    rw [processedUnder, List.take_of_length_le (Nat.le_of_eq hahead)]
    exact h direction count hroom
  case in_place =>
    intro direction data hdata trace
    have hcount : (UInt64.ofNat (data.length / a.blockSize)).toNat = data.length / a.blockSize :=
      UInt64.toNat_ofNat_of_lt' (Nat.lt_of_le_of_lt (Nat.div_le_self _ _) hdata)
    have hwhole := Nat.div_mul_le_self data.length a.blockSize
    have hroom : (Pointers.inPlace data).Room ((UInt64.ofNat (data.length / a.blockSize)).toNat * a.blockSize) := by
      rw [hcount]
      exact ⟨by simpa [Pointers.inPlace], by simpa [Pointers.inPlace], Or.inl rfl⟩
    have hfinishes := h direction _ hroom
    refine ⟨hfinishes.failure_eq, ?_⟩
    rw [hfinishes.pointers_eq, hcount, processInPlace_under direction data key ha]
    rfl

end Key

end Cipher

/-- **Blocks are processed one by one.** A cipher on offer, with whatever key it accepts, makes of any number of blocks
what it makes of each of them alone, in order; a partial block at the end of data in place stays. In memory this is done
by going from block to block, or by calls to an external library. These get each block once and in its place, and are
told the right number of bytes; so as long as the library processes the whole blocks that it gets, nothing is missing
after any of them, however many blocks there are. -/
theorem Catalogue.blocks_one_by_one {name provider : String} {a : Algorithm} (h : find? name provider = some a)
    {key : Bytes} (hkey : a.keyLengths.accepts key.length = true) (c : Cipher a) :
    ∃ c', c.setKey key = .ok c' ∧ (∀ direction, c'.BlockByBlock direction) ∧
      (a.provider = .base → c'.DoneBy c'.processAt) ∧
      (a.provider = .backend → ∀ (b : Backend) (Ready : Bytes → Direction → b.Context → Prop), b.Ecb a Ready →
        ∃ keyed, b.setKey key = .ok keyed ∧ c'.DoneBy (b.processAt a (some keyed)) ∧
          ∀ direction count p, p.Room (count.toNat * a.blockSize) →
            (b.processAt a (some keyed) direction count p).HandsOver a.blockSize count.toNat p) := by
  have ha : a.Fit := fit_of_find? h
  refine ⟨⟨some (a.expand key)⟩, ?_, ?_, ?_, ?_⟩
  · rw [Cipher.setKey, hkey]
    rfl
  · exact fun direction => Cipher.blockByBlock_under direction key ha
  · intro _
    refine Cipher.doneBy_under key ha ?_
    intro direction count p hroom
    exact ⟨rfl, Pointers.blockwise_eq _ ha.blockSize_pos hroom⟩
  · intro _ b Ready hb
    obtain ⟨keyed, hkeyed, hready⟩ := Backend.exists_setKey hb hkey
    refine ⟨keyed, hkeyed, Cipher.doneBy_under key ha ?_, ?_⟩
    · exact fun direction count p hroom => (Backend.processAt_completes hb (hready direction) hroom).finishes
    · exact fun direction count p hroom => (Backend.processAt_completes hb (hready direction) hroom).hands_over

/-- More bytes than an `int` can count are encrypted in place by two calls, and the five bytes behind the last block are
handed over to neither. -/
theorem Catalogue.blocks_one_by_one_beyond_int :
    let a := Aes.algorithm .bits128
    let b := Backend.keeping a ⟨16, by decide, by decide⟩
    let data := Bytes.zeros (134217729 * 16 + 5)
    find? "AES-128" "openssl" = some a ∧ a.keyLengths.accepts (Bytes.zeros 16).length = true ∧
      ∃ c keyed, (Cipher.fresh a).setKey (.zeros 16) = .ok c ∧ b.setKey (.zeros 16) = .ok keyed ∧
        let trace := b.processAt a (some keyed) .encrypt 134217729 (.inPlace data)
        trace.failure = none ∧ trace.calls.map (·.input.length) = [2147483632, 32] ∧
          trace.pointers.memory = (c.processInPlace .encrypt data).buffer := by
  intro a b data
  have h : find? "AES-128" "openssl" = some a := rfl
  have hkey : a.keyLengths.accepts (Bytes.zeros 16).length = true := by decide
  obtain ⟨c, hc, -, -, hlibrary⟩ := blocks_one_by_one h hkey (Cipher.fresh a)
  obtain ⟨keyed, hkeyed, hdone, hcalls⟩ := hlibrary rfl b _ (Backend.ecb_keeping rfl)
  have hblock : a.blockSize = 16 := rfl
  have hblocks : (134217729 : UInt64).toNat = 134217729 := rfl
  have hlength : data.length = 134217729 * 16 + 5 := Bytes.length_zeros _
  have hroom : (Pointers.inPlace data).Room ((134217729 : UInt64).toNat * a.blockSize) := by
    rw [hblock, hblocks]
    exact ⟨by simp [Pointers.inPlace, hlength], by simp [Pointers.inPlace, hlength], Or.inl rfl⟩
  have hdata : data.length < 2 ^ 64 := by
    rw [hlength]
    decide
  have hcount : data.length / a.blockSize = 134217729 := by
    rw [hlength, hblock]
  have hplace := hdone.in_place .encrypt hdata
  rw [hcount] at hplace
  refine ⟨h, hkey, c, keyed, hc, hkeyed, hplace.1, ?_, hplace.2⟩
  have hsizes : Algorithm.callSizes (0x7FFFFFFF / a.blockSize) (134217729 : UInt64).toNat = [134217727, 2] := by
    rw [hblock, hblocks]
    simp [Algorithm.callSizes]
  rw [(hcalls .encrypt _ _ hroom).sizes_eq, hsizes]
  rfl

end KeyWrapping
