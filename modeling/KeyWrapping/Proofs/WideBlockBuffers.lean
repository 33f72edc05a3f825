import KeyWrapping.Proofs.IndependentBlocks
import KeyWrapping.WideBlock.Buffer

/-!
# The wide block transform in one buffer is that of rows

A buffer of whole blocks holds a row, and block `k` of the row stands at the offset `16 * k`. Reading, writing and
adding at the offset of a block is reading, replacing and adding to that block (`read_ofBlocks`, `write_ofBlocks`,
`add_ofBlocks`). None of the 64-bit words that the transform computes wraps around (`Size.exact`), so its loops go
through the offsets and numbers that they should. Hence a round in the buffer is a round of the row, up to the place
where a missing key is noticed (`encryptRound_ofBlocks`, `decryptRound_ofBlocks`), and the transform in the buffer is
the transform of the row (`run_eq`).
-/

namespace KeyWrapping.WideBlock.Buffer

/-! ## Blocks in memory -/

section Memory

variable (front back : Row) {offset : UInt64} (h : offset.toNat = 16 * front.length)
include h

theorem read_ofBlocks (mid : Row) :
    read (.ofBlocks (front ++ (mid ++ back))) offset (16 * mid.length) = .ofBlocks mid := by
  have hfront : (Bytes.ofBlocks front).length = offset.toNat := by rw [Bytes.length_ofBlocks, h, Nat.mul_comm]
  have hmid : (Bytes.ofBlocks mid).length = 16 * mid.length := by rw [Bytes.length_ofBlocks, Nat.mul_comm]
  rw [read, Bytes.ofBlocks_append, List.drop_left' hfront, Bytes.ofBlocks_append, List.take_left' hmid]

theorem write_ofBlocks {mid mid' : Row} (hlength : mid'.length = mid.length) :
    write (.ofBlocks (front ++ (mid ++ back))) offset (.ofBlocks mid') = .ofBlocks (front ++ (mid' ++ back)) := by
  have hfront : (Bytes.ofBlocks front).length = offset.toNat := by rw [Bytes.length_ofBlocks, h, Nat.mul_comm]
  have hmid : (Bytes.ofBlocks mid).length = (Bytes.ofBlocks mid').length := by
    rw [Bytes.length_ofBlocks, Bytes.length_ofBlocks, hlength]
  rw [write, Bytes.ofBlocks_append, List.take_left' hfront, List.drop_left' hfront, Bytes.ofBlocks_append,
    Bytes.overwrite, List.drop_left' hmid, Bytes.ofBlocks_append, Bytes.ofBlocks_append]

theorem read_block (b : Block 16) : read (.ofBlocks (front ++ b :: back)) offset 16 = b.toList := by
  have hread := read_ofBlocks front back h [b]
  rwa [Bytes.ofBlocks_cons, Bytes.ofBlocks_nil, List.append_nil] at hread

theorem write_block (b b' : Block 16) :
    write (.ofBlocks (front ++ b :: back)) offset b'.toList = .ofBlocks (front ++ b' :: back) := by
  have hlength : [b'].length = [b].length := rfl
  have hwrite := write_ofBlocks front back h hlength
  rwa [Bytes.ofBlocks_cons, Bytes.ofBlocks_nil, List.append_nil] at hwrite

theorem add_ofBlocks (b m : Block 16) :
    add (.ofBlocks (front ++ b :: back)) offset m.toList = .ofBlocks (front ++ (b ^^^ m) :: back) := by
  have hm : m.toList.length = 16 := Vector.length_toList
  have hxor : Bytes.xor b.toList m.toList = (b ^^^ m).toList := (Vector.toList_zipWith ..).symm
  rw [add, hm, read_block front back h, hxor, write_block front back h]

end Memory

/-! ## Sizes and counters -/

namespace Size

variable (size : Size)

theorem two_le_toNat : 32 ≤ size.bytes.toNat := UInt64.le_iff_toNat_le.mp size.two

theorem toNat_last : (size.bytes - 16).toNat = size.bytes.toNat - 16 := by
  have h := size.two_le_toNat
  exact UInt64.toNat_sub_of_le _ _ (UInt64.le_iff_toNat_le.mpr (Nat.le_trans (by decide) h))

theorem toNat_lastButOne : (size.bytes - 32).toNat = size.bytes.toNat - 32 := UInt64.toNat_sub_of_le _ _ size.two

variable {size}

/-- An offset goes on to the next block as long as there is a block at it. -/
theorem toNat_next {i : UInt64} (h : i.toNat + 16 ≤ size.bytes.toNat) : (i + 16).toNat = i.toNat + 16 := by
  have h16 : (16 : UInt64).toNat = 16 := rfl
  have hlt := size.bytes.toNat_lt
  rw [UInt64.toNat_add, h16]
  omega

theorem offsets_of_lt {i : UInt64} (h : i.toNat + 16 < size.bytes.toNat) :
    size.offsets i = i :: size.offsets (i + 16) := by
  have hnext : i + 16 < size.bytes := by rwa [UInt64.lt_iff_toNat_lt, toNat_next (Nat.le_of_lt h)]
  rw [offsets, dif_pos hnext]

theorem offsets_of_eq {i : UInt64} (h : i.toNat + 16 = size.bytes.toNat) : size.offsets i = [] := by
  have hnext : ¬ i + 16 < size.bytes := by
    rw [UInt64.lt_iff_toNat_lt, toNat_next (Nat.le_of_eq h)]
    omega
  rw [offsets, dif_neg hnext]

/-- At every offset of the loop there is a block, and another one behind it. -/
theorem toNat_offset_le {i j : UInt64} (hmod : i.toNat % 16 = 0) (hi : i.toNat + 16 ≤ size.bytes.toNat)
    (hj : j ∈ size.offsets i) : j.toNat + 32 ≤ size.bytes.toNat := by
  have hbytes := size.toNat_bytes_mod
  fun_induction size.offsets i with
  | case1 i h ih =>
    have hnext := toNat_next hi
    rw [UInt64.lt_iff_toNat_lt, hnext] at h
    rcases List.mem_cons.mp hj with rfl | hj
    · omega
    · exact ih (by omega) (by omega) hj
  | case2 i h => cases hj

/-- The numbers of rounds from one on are the numbers that they should be. -/
theorem map_toNat_rounds {round : UInt64} {count : Nat}
    (h : round.toNat + count = 2 * (size.bytes.toNat / 16) + 1) :
    (size.rounds round).map UInt64.toNat = List.range' round.toNat count := by
  have h1 : (1 : UInt64).toNat = 1 := rfl
  have hlt := size.bytes.toNat_lt
  induction count generalizing round with
  | zero =>
    have hstop : ¬ round ≤ 2 * size.blocks := by
      rw [UInt64.le_iff_toNat_le, toNat_twice_blocks]
      omega
    rw [rounds, dif_neg hstop]
    rfl
  | succ count ih =>
    have hgo : round ≤ 2 * size.blocks := by
      rw [UInt64.le_iff_toNat_le, toNat_twice_blocks]
      omega
    have hnext : (round + 1).toNat = round.toNat + 1 := by
      rw [UInt64.toNat_add, h1]
      omega
    rw [rounds, dif_pos hgo, List.map_cons, ih (by omega), hnext, List.range'_succ]

end Size

/-- The numbers of rounds down to one are the numbers that they should be. -/
theorem map_toNat_countdown {round : UInt64} {count : Nat} (h : round.toNat = count) :
    (countdown round).map UInt64.toNat = (List.range' 1 count).reverse := by
  have h1 : (1 : UInt64).toNat = 1 := rfl
  induction count generalizing round with
  | zero =>
    have hstop : ¬ 1 ≤ round := by
      rw [UInt64.le_iff_toNat_le]
      omega
    rw [countdown, dif_neg hstop]
    rfl
  | succ count ih =>
    have hgo : 1 ≤ round := by
      rw [UInt64.le_iff_toNat_le]
      omega
    have hnext : (round - 1).toNat = count := by
      rw [UInt64.toNat_sub_of_le _ _ hgo]
      omega
    rw [countdown, dif_pos hgo, List.map_cons, ih hnext, List.range'_1_concat, List.reverse_append, h, Nat.add_comm]
    rfl

/-! ## No word wraps around -/

/-- The words that the transform computes are the numbers that they stand for. -/
structure Size.Exact (size : Size) : Prop where
  blocks : 16 * size.blocks.toNat = size.bytes.toNat
  twice : (2 * size.blocks).toNat = 2 * size.blocks.toNat
  last : (size.bytes - 16).toNat = size.bytes.toNat - 16
  lastButOne : (size.bytes - 32).toNat = size.bytes.toNat - 32
  /-- Up to the end of its loop, an offset can go on to the next block. -/
  offset : ∀ i ∈ 16 :: (size.offsets 16).map (· + 16), (i + 16).toNat = i.toNat + 16
  round : ∀ r ∈ size.rounds 1, (r + 1).toNat = r.toNat + 1
  countdown : ∀ r ∈ countdown (2 * size.blocks), (r - 1).toNat = r.toNat - 1

theorem Size.exact (size : Size) : size.Exact := by
  have hmod := size.toNat_bytes_mod
  have htwo := size.two_le_toNat
  have hlt := size.bytes.toNat_lt
  have h1 : (1 : UInt64).toNat = 1 := rfl
  have h16 : (16 : UInt64).toNat = 16 := rfl
  constructor
  case blocks =>
    rw [toNat_blocks]
    omega
  case twice => rw [toNat_twice_blocks, toNat_blocks]
  case last => exact size.toNat_last
  case lastButOne => exact size.toNat_lastButOne
  case offset =>
    intro i hi
    refine toNat_next (?_ : i.toNat + 16 ≤ size.bytes.toNat)
    rcases List.mem_cons.mp hi with rfl | hi
    · omega
    · obtain ⟨j, hj, rfl⟩ := List.mem_map.mp hi
      have hle := toNat_offset_le (by rw [h16]) (by omega) hj
      have hnext : j.toNat + 16 ≤ size.bytes.toNat := by omega
      rw [toNat_next hnext]
      omega
  case round =>
    intro r hr
    have hmem := List.mem_map_of_mem (f := UInt64.toNat) hr
    have hcount : (1 : UInt64).toNat + 2 * (size.bytes.toNat / 16) = 2 * (size.bytes.toNat / 16) + 1 := by omega
    rw [map_toNat_rounds hcount, List.mem_range'_1] at hmem
    rw [UInt64.toNat_add, h1]
    omega
  case countdown =>
    intro r hr
    have hmem := List.mem_map_of_mem (f := UInt64.toNat) hr
    rw [map_toNat_countdown rfl, List.mem_reverse, List.mem_range'_1] at hmem
    exact UInt64.toNat_sub_of_le _ _ (UInt64.le_iff_toNat_le.mpr hmem.1)

/-! ## Adding up blocks -/

/-- The loop of a round adds up the blocks between the first and the last, wherever the sum is kept (`keep`). -/
theorem foldl_offsets {size : Size} (f : Bytes → UInt64 → Bytes) (keep : Block 16 → Bytes) (front mid : Row)
    (last : Block 16)
    (hf : ∀ (sum b : Block 16) (before behind : Row) (i : UInt64), front ++ (mid ++ [last]) = before ++ b :: behind →
      i.toNat = 16 * (before.length + 1) → f (keep sum) i = keep (sum ^^^ b))
    (hsize : size.bytes.toNat = 16 * ((front ++ (mid ++ [last])).length + 1)) {i : UInt64}
    (hi : i.toNat = 16 * (front.length + 1)) (sum : Block 16) :
    (size.offsets i).foldl f (keep sum) = keep (sum ^^^ Block.sum mid) := by
  induction mid generalizing front i sum with
  | nil =>
    have hend : i.toNat + 16 = size.bytes.toNat := by
      rw [hsize, hi, List.nil_append, List.length_append, List.length_singleton]
      omega
    rw [Size.offsets_of_eq hend]
    exact congrArg keep (Block.xor_zero sum).symm
  | cons b mid ih =>
    have hsplit : front ++ ((b :: mid) ++ [last]) = (front ++ [b]) ++ (mid ++ [last]) := List.append_cons ..
    have hmore : i.toNat + 16 < size.bytes.toNat := by
      rw [hsize, hi, List.length_append, List.cons_append, List.length_cons, List.length_append, List.length_singleton]
      omega
    have hnext : (i + 16).toNat = 16 * ((front ++ [b]).length + 1) := by
      rw [Size.toNat_next (Nat.le_of_lt hmore), hi, List.length_append, List.length_singleton]
      omega
    rw [Size.offsets_of_lt hmore, List.foldl_cons, hf sum b front (mid ++ [last]) i rfl hi,
      ih (front ++ [b]) (by rwa [← hsplit]) (by rwa [← hsplit]) hnext, Block.sum_cons, Block.xor_assoc]

/-! ## The mask of a round -/

section Mask

variable {c : Cipher Belt.algorithm} {schedule : Schedule}

theorem mapBlocks_toList (f : Block 16 → Block 16) (b : Block 16) : Bytes.mapBlocks f b.toList = (f b).toList := by
  have hone : Bytes.ofBlocks [b] = b.toList := List.append_nil _
  rw [Bytes.mapBlocks, ← hone, Bytes.blocks_ofBlocks (by decide)]
  exact List.append_nil _

theorem processBlocks_one (hs : c.schedule = some schedule) (b : Block 16) :
    c.processBlocks .encrypt 1 b.toList = .ok (Belt.encryptBlock schedule b).toList := by
  have hp : c.permutation = .ok (Belt.algorithm.permutation schedule) := by rw [Cipher.permutation, hs]
  have hlength : b.toList.length = 16 := Vector.length_toList
  have hle : 1 * Belt.algorithm.blockSize ≤ b.toList.length := Nat.le_of_eq hlength.symm
  have htake : b.toList.take (1 * Belt.algorithm.blockSize) = b.toList := List.take_of_length_le (Nat.le_of_eq hlength)
  rw [Cipher.processBlocks, hp, ok_bind, Algorithm.process_eq _ Belt.fit hle, htake]
  exact congrArg Except.ok (mapBlocks_toList (Belt.encryptBlock schedule) b)

theorem xor_zeros (bytes : Bytes) : bytes.xor (.zeros bytes.length) = bytes := by
  induction bytes with
  | nil => rfl
  | cons b bytes ih =>
    rw [List.length_cons, Bytes.zeros, List.replicate_succ, Bytes.xor, List.zipWith_cons_cons, UInt8.xor_zero]
    exact congrArg (b :: ·) ih

/-- To add bytes at the front is to add zeros to the rest. -/
theorem add_front {bytes short : Bytes} (h : short.length ≤ bytes.length) :
    add bytes 0 short = bytes.xor (short ++ .zeros (bytes.length - short.length)) := by
  have hfront : (bytes.take short.length).length = short.length := List.length_take_of_le h
  have hwritten : (Bytes.xor (bytes.take short.length) short).length = short.length := by
    rw [Bytes.length_xor, hfront, Nat.min_self]
  calc add bytes 0 short
      = Bytes.xor (bytes.take short.length) short ++
          bytes.drop (Bytes.xor (bytes.take short.length) short).length := rfl
    _ = Bytes.xor (bytes.take short.length) short ++
          Bytes.xor (bytes.drop short.length) (.zeros (bytes.drop short.length).length) := by rw [hwritten, xor_zeros]
    _ = Bytes.xor (bytes.take short.length ++ bytes.drop short.length)
          (short ++ .zeros (bytes.drop short.length).length) := (List.zipWith_append hfront).symm
    _ = bytes.xor (short ++ .zeros (bytes.length - short.length)) := by rw [List.take_append_drop, List.length_drop]

/-- The number of a round fits into the eight bytes that it is added to. -/
theorem add_storeLE (b : Block 16) (round : UInt64) :
    add b.toList 0 (Word.storeLE round.toBitVec) = (b ^^^ counter round.toNat).toList := by
  have hlength : (Word.storeLE round.toBitVec).length = 8 := Word.length_storeLE _
  have hblock : b.toList.length = 16 := Vector.length_toList
  have hcounter : (counter round.toNat).toList = Word.storeLE round.toBitVec ++ Bytes.zeros 8 := by
    rw [counter, Block.toList_ofList, ← UInt64.toNat_toBitVec, BitVec.ofNat_toNat, BitVec.setWidth_eq]
  have hxor : (b ^^^ counter round.toNat).toList = Bytes.xor b.toList (counter round.toNat).toList :=
    Vector.toList_zipWith ..
  rw [add_front (by rw [hlength, hblock]; decide), hlength, hblock, hxor, hcounter]

theorem roundMask_eq (hs : c.schedule = some schedule) (moved : Block 16) (round : UInt64) :
    roundMask c moved.toList round =
      .ok (WideBlock.roundMask (Belt.permutation schedule) moved round.toNat).toList := by
  rw [roundMask, processBlocks_one hs, ok_bind, add_storeLE]
  rfl

theorem roundMask_of_not_isKeyed (h : c.isKeyed = false) (moved : Bytes) (round : UInt64) :
    roundMask c moved round = .error (.keyNotSet "BelT") := by
  rw [roundMask, Cipher.processBlocks_of_not_isKeyed _ _ _ h]
  rfl

end Mask

/-! ## One round -/

section Round

variable {size : Size}

/-! ### Encryption -/

section Encrypt

variable {first last : Block 16} {mid : Row} (hsize : size.bytes.toNat = 16 * (first :: (mid ++ [last])).length)
include hsize

/-- All blocks but the last are added up. -/
theorem foldl_moved :
    (size.offsets 16).foldl (fun moved i => add moved 0 (read (.ofBlocks (first :: (mid ++ [last]))) i 16))
      (read (.ofBlocks (first :: (mid ++ [last]))) 0 16) = (first ^^^ Block.sum mid).toList := by
  have hstart : read (.ofBlocks (first :: (mid ++ [last]))) 0 16 = first.toList := read_block [] _ rfl first
  rw [hstart]
  refine foldl_offsets _ Vector.toList [] mid last ?_ hsize rfl first
  intro sum b before behind i hrow hi
  have hb : read (.ofBlocks (first :: (mid ++ [last]))) i 16 = b.toList := by
    rw [← List.nil_append (mid ++ [last]), hrow, ← List.cons_append]
    exact read_block _ _ hi b
  have h0 : (0 : UInt64).toNat = 16 * ([] : Row).length := rfl
  have hadd := add_ofBlocks [] [] h0 sum b
  simp only [List.nil_append, Bytes.ofBlocks_cons, Bytes.ofBlocks_nil, List.append_nil] at hadd
  rw [hb, hadd]

/-- The blocks move one place to the front, and another one comes last. -/
theorem write_moveLeft (moved : Block 16) :
    write (write (.ofBlocks (first :: (mid ++ [last]))) 0
      (read (.ofBlocks (first :: (mid ++ [last]))) 16 (size.bytes - 16).toNat)) (size.bytes - 16) moved.toList =
      .ofBlocks (mid ++ [last, moved]) := by
  have hlast : (size.bytes - 16).toNat = 16 * (mid ++ [last]).length := by
    rw [size.toNat_last, hsize, List.length_cons]
    omega
  have h0 : (0 : UInt64).toNat = 16 * ([] : Row).length := rfl
  have h16 : (16 : UInt64).toNat = 16 * [first].length := rfl
  have hlength : (mid ++ [last]).length = (first :: mid).length := by rw [List.length_append, List.length_cons]; rfl
  have hread := read_ofBlocks [first] [] h16 (mid ++ [last])
  have hwrite := write_ofBlocks [] [last] h0 hlength
  rw [List.append_nil, List.singleton_append, ← hlast] at hread
  rw [List.nil_append, List.nil_append, List.cons_append] at hwrite
  rw [hread, hwrite, write_block _ _ hlast, List.append_assoc]
  rfl

end Encrypt

/-! ### Decryption -/

section Decrypt

variable {last moved : Block 16} {mid : Row} (hsize : size.bytes.toNat = 16 * (mid ++ [last, moved]).length)
include hsize

theorem toNat_last_of_two : (size.bytes - 16).toNat = 16 * (mid ++ [last]).length := by
  rw [size.toNat_last, hsize, List.append_cons, List.length_append, List.length_singleton]
  omega

/-- The last block is the one that moves to the front. -/
theorem read_moved : read (.ofBlocks (mid ++ [last, moved])) (size.bytes - 16) 16 = moved.toList := by
  rw [List.append_cons]
  exact read_block _ [] (toNat_last_of_two hsize) moved

/-- The blocks move one place to the back, and the last one comes first. -/
theorem write_moveRight :
    write (write (.ofBlocks (mid ++ [last, moved])) 16
      (read (.ofBlocks (mid ++ [last, moved])) 0 (size.bytes - 16).toNat)) 0 moved.toList =
      .ofBlocks (moved :: (mid ++ [last])) := by
  have hsplit : mid ++ [last, moved] = (mid ++ [last]) ++ [moved] := List.append_cons ..
  have hread : read (.ofBlocks (mid ++ [last, moved])) 0 (size.bytes - 16).toNat = .ofBlocks (mid ++ [last]) := by
    rw [toNat_last_of_two hsize, hsplit]
    exact read_ofBlocks [] _ rfl (mid ++ [last])
  -- whatever comes first stays for a moment
  obtain ⟨first, rest, hrow⟩ := List.exists_cons_of_ne_nil (l := mid ++ [last, moved]) (by simp)
  have hlength : (mid ++ [last]).length = rest.length := by
    have h := congrArg List.length hrow
    rw [hsplit, List.length_append, List.length_singleton, List.length_cons] at h
    omega
  have h16 : (16 : UInt64).toNat = 16 * [first].length := rfl
  have hwrite := write_ofBlocks [first] [] h16 hlength
  rw [List.append_nil, List.append_nil, List.singleton_append, List.singleton_append, ← hrow] at hwrite
  rw [hread, hwrite]
  exact write_block [] _ rfl first moved

omit hsize in
/-- The blocks between the first and the last are added to the first. -/
theorem foldl_settled (first : Block 16) (hsize : size.bytes.toNat = 16 * (first :: (mid ++ [last])).length) :
    (size.offsets 16).foldl (fun memory i => add memory 0 (read memory i 16)) (.ofBlocks (first :: (mid ++ [last]))) =
      .ofBlocks ((first ^^^ Block.sum mid) :: (mid ++ [last])) := by
  refine foldl_offsets _ (fun first => .ofBlocks (first :: (mid ++ [last]))) [] mid last ?_ hsize rfl first
  intro sum b before behind i hrow hi
  have hb : read (.ofBlocks (sum :: (mid ++ [last]))) i 16 = b.toList := by
    rw [← List.nil_append (mid ++ [last]), hrow, ← List.cons_append]
    exact read_block _ _ hi b
  rw [hb]
  exact add_ofBlocks [] _ rfl sum b

end Decrypt

/-! ### With a key and without -/

variable {c : Cipher Belt.algorithm} {row : Row} (h2 : 2 ≤ row.length) (hsize : size.bytes.toNat = 16 * row.length)
  (round : UInt64)
include h2 hsize

theorem encryptRound_ofBlocks {schedule : Schedule} (hs : c.schedule = some schedule) :
    encryptRound c size (.ofBlocks row) round =
      ⟨none, .ofBlocks (WideBlock.encryptRound (Belt.permutation schedule) row round.toNat)⟩ := by
  obtain ⟨first, mid, last, rfl⟩ := exists_first_last h2
  have hlastButOne : (size.bytes - 32).toNat = 16 * mid.length := by
    rw [size.toNat_lastButOne, hsize, List.length_cons, List.length_append, List.length_singleton]
    omega
  simp only [encryptRound, foldl_moved hsize, write_moveLeft hsize, roundMask_eq hs, add_ofBlocks _ _ hlastButOne]
  rw [WideBlock.encryptRound_eq]

theorem decryptRound_ofBlocks {schedule : Schedule} (hs : c.schedule = some schedule) :
    decryptRound c size (.ofBlocks row) round =
      ⟨none, .ofBlocks (WideBlock.decryptRound (Belt.permutation schedule) row round.toNat)⟩ := by
  obtain ⟨mid, last, moved, rfl⟩ := exists_last_two h2
  have hlast : (size.bytes - 16).toNat = 16 * (moved :: mid).length := by
    rw [toNat_last_of_two hsize, List.length_append]
    rfl
  have hadd (mask : Block 16) : add (.ofBlocks (moved :: (mid ++ [last]))) (size.bytes - 16) mask.toList =
      .ofBlocks (moved :: (mid ++ [last ^^^ mask])) := add_ofBlocks (moved :: mid) [] hlast last mask
  have hsettled (last' : Block 16) :
      (size.offsets 16).foldl (fun memory i => add memory 0 (read memory i 16))
          (.ofBlocks (moved :: (mid ++ [last']))) =
        .ofBlocks ((moved ^^^ Block.sum mid) :: (mid ++ [last'])) := foldl_settled moved (by simpa using hsize)
  simp only [decryptRound, read_moved hsize, write_moveRight hsize, roundMask_eq hs, hadd, hsettled]
  rw [WideBlock.decryptRound_eq]

theorem encryptRound_of_not_isKeyed (hk : c.isKeyed = false) :
    encryptRound c size (.ofBlocks row) round = ⟨some (.keyNotSet "BelT"), .ofBlocks (moveLeft row)⟩ := by
  obtain ⟨first, mid, last, rfl⟩ := exists_first_last h2
  have hmove : moveLeft (first :: (mid ++ [last])) = mid ++ [last, first ^^^ Block.sum mid] := by
    rw [moveLeft, incoming, ← List.cons_append, List.dropLast_concat, Block.sum_cons, List.cons_append, List.tail_cons,
      List.append_assoc]
    rfl
  simp only [encryptRound, foldl_moved hsize, write_moveLeft hsize, roundMask_of_not_isKeyed hk, hmove]

theorem decryptRound_of_not_isKeyed (hk : c.isKeyed = false) :
    decryptRound c size (.ofBlocks row) round = ⟨some (.keyNotSet "BelT"), .ofBlocks (moveRight row)⟩ := by
  obtain ⟨mid, last, moved, rfl⟩ := exists_last_two h2
  have hmove : moveRight (mid ++ [last, moved]) = moved :: (mid ++ [last]) := by
    rw [moveRight, List.append_cons, List.getLastD_concat, List.dropLast_concat]
  simp only [decryptRound, read_moved hsize, write_moveRight hsize, roundMask_of_not_isKeyed hk, hmove]

end Round

/-! ## All rounds -/

/-- Rounds in the buffer that are rounds of the row are so as a run. -/
theorem runRounds_ofBlocks (step : Bytes → UInt64 → InPlace) (f : Row → Nat → Row) {n : Nat}
    (hstep : ∀ (row : Row) round, row.length = n → step (.ofBlocks row) round = ⟨none, .ofBlocks (f row round.toNat)⟩)
    (hkeep : ∀ (row : Row) round, row.length = n → (f row round).length = n) (rounds : List UInt64) {row : Row}
    (hrow : row.length = n) :
    runRounds step rounds (.ofBlocks row) = ⟨none, .ofBlocks ((rounds.map UInt64.toNat).foldl f row)⟩ := by
  induction rounds generalizing row with
  | nil => rfl
  | cons round rounds ih =>
    rw [runRounds, hstep row round hrow]
    exact ih (hkeep row round.toNat hrow)

/-- A run ends with the first round if that one fails. -/
theorem runRounds_of_failing {step : Bytes → UInt64 → InPlace} {memory memory' : Bytes} {e : Error}
    (hstep : ∀ round, step memory round = ⟨some e, memory'⟩) {rounds : List UInt64} (h : rounds ≠ []) :
    runRounds step rounds memory = ⟨some e, memory'⟩ := by
  obtain ⟨round, rounds, rfl⟩ := List.exists_cons_of_ne_nil h
  rw [runRounds, hstep]

section Run

variable {c : Cipher Belt.algorithm} {size : Size} {row : Row} (h2 : 2 ≤ row.length)
  (hsize : size.bytes.toNat = 16 * row.length)
include h2 hsize

omit h2 in
theorem map_toNat_rounds_row : (size.rounds 1).map UInt64.toNat = WideBlock.rounds row.length := by
  have h1 : (1 : UInt64).toNat = 1 := rfl
  have hcount : (1 : UInt64).toNat + 2 * row.length = 2 * (size.bytes.toNat / 16) + 1 := by
    rw [h1, hsize]
    omega
  rw [Size.map_toNat_rounds hcount, h1, WideBlock.rounds]

omit h2 in
theorem map_toNat_countdown_row :
    (countdown (2 * size.blocks)).map UInt64.toNat = (WideBlock.rounds row.length).reverse := by
  have hcount : (2 * size.blocks).toNat = 2 * row.length := by
    rw [size.toNat_twice_blocks, hsize]
    omega
  rw [map_toNat_countdown hcount, WideBlock.rounds]

theorem runRounds_keyed {schedule : Schedule} (hs : c.schedule = some schedule) :
    runRounds (encryptRound c size) (size.rounds 1) (.ofBlocks row) =
        ⟨none, .ofBlocks (transform (Belt.permutation schedule) row .encrypt)⟩ ∧
      runRounds (decryptRound c size) (countdown (2 * size.blocks)) (.ofBlocks row) =
        ⟨none, .ofBlocks (transform (Belt.permutation schedule) row .decrypt)⟩ := by
  have hencrypt := runRounds_ofBlocks (encryptRound c size) (WideBlock.encryptRound (Belt.permutation schedule))
    (n := row.length)
    (fun row' round hrow => encryptRound_ofBlocks (hrow ▸ h2) (hrow ▸ hsize) round hs)
    (fun row' round hrow => by rw [length_encryptRound]; omega) (size.rounds 1) rfl
  have hdecrypt := runRounds_ofBlocks (decryptRound c size) (WideBlock.decryptRound (Belt.permutation schedule))
    (n := row.length)
    (fun row' round hrow => decryptRound_ofBlocks (hrow ▸ h2) (hrow ▸ hsize) round hs)
    (fun row' round hrow => by rw [length_decryptRound]; omega) (countdown (2 * size.blocks)) rfl
  rw [map_toNat_rounds_row hsize] at hencrypt
  rw [map_toNat_countdown_row hsize] at hdecrypt
  exact ⟨hencrypt, hdecrypt⟩

theorem runRounds_of_not_isKeyed (hk : c.isKeyed = false) :
    runRounds (encryptRound c size) (size.rounds 1) (.ofBlocks row) =
        ⟨some (.keyNotSet "BelT"), .ofBlocks (unkeyed row .encrypt)⟩ ∧
      runRounds (decryptRound c size) (countdown (2 * size.blocks)) (.ofBlocks row) =
        ⟨some (.keyNotSet "BelT"), .ofBlocks (unkeyed row .decrypt)⟩ := by
  have hsome : 0 < (WideBlock.rounds row.length).length := by
    rw [WideBlock.rounds, List.length_range']
    omega
  have hrounds : size.rounds 1 ≠ [] := by
    rw [← map_toNat_rounds_row hsize, List.length_map] at hsome
    exact List.ne_nil_of_length_pos hsome
  have hcountdown : countdown (2 * size.blocks) ≠ [] := by
    rw [← List.length_reverse, ← map_toNat_countdown_row hsize, List.length_map] at hsome
    exact List.ne_nil_of_length_pos hsome
  exact ⟨runRounds_of_failing (fun round => encryptRound_of_not_isKeyed h2 hsize round hk) hrounds,
    runRounds_of_failing (fun round => decryptRound_of_not_isKeyed h2 hsize round hk) hcountdown⟩

end Run

/-! ## The transform -/

/-- Two or more whole blocks are transformed, or moved once if the cipher has no key. -/
theorem run_of_isWhole (p : Except Error (Permutation 16)) (direction : Direction) {memory : Bytes}
    (h : IsWhole memory) :
    WideBlock.run p direction memory =
      match p with
      | .ok p => ⟨none, .ofBlocks (transform p (memory.blocks 16) direction)⟩
      | .error e => ⟨some e, .ofBlocks (unkeyed (memory.blocks 16) direction)⟩ := by
  have hlength : ¬ (memory.length < 32 ∨ memory.length % 16 ≠ 0) := by
    rw [IsWhole] at h
    omega
  rw [WideBlock.run]
  exact if_neg hlength

section Transform

variable {memory : Bytes} (h64 : memory.length < 2 ^ 64)
include h64

theorem isWhole_iff : IsWhole memory ↔ 32 ≤ UInt64.ofNat memory.length ∧ UInt64.ofNat memory.length % 16 = 0 := by
  have h16 : (16 : UInt64).toNat = 16 := rfl
  have h32 : (32 : UInt64).toNat = 32 := rfl
  have h0 : (0 : UInt64).toNat = 0 := rfl
  have hlength : (UInt64.ofNat memory.length).toNat = memory.length := by
    rw [UInt64.toNat_ofNat', Nat.mod_eq_of_lt h64]
  rw [IsWhole, UInt64.le_iff_toNat_le, ← UInt64.toNat_inj, UInt64.toNat_mod, hlength, h16, h32, h0]

theorem exists_size (h : IsWhole memory) :
    ∃ size : Size, Size.of? (UInt64.ofNat memory.length) = some size ∧
      size.bytes.toNat = 16 * (memory.blocks 16).length := by
  refine ⟨⟨_, ((isWhole_iff h64).mp h).1, ((isWhole_iff h64).mp h).2⟩, dif_pos ((isWhole_iff h64).mp h), ?_⟩
  have hmod := h.2
  rw [UInt64.toNat_ofNat', Nat.mod_eq_of_lt h64, Bytes.length_blocks (by decide)]
  omega

/-- **The transform in one buffer is that of rows**, in both directions, with a key and without one, for every buffer
that a memory of 64-bit addresses can hold. -/
theorem run_eq (c : Cipher Belt.algorithm) (direction : Direction) :
    Buffer.run c direction memory = WideBlock.run c.permutation direction memory := by
  by_cases h : IsWhole memory
  · obtain ⟨size, hof, hsize⟩ := exists_size h64 h
    have h2 := two_le_length_blocks h.1
    have hmemory : Bytes.ofBlocks (memory.blocks 16) = memory :=
      Bytes.ofBlocks_blocks (by decide) (Nat.dvd_of_mod_eq_zero h.2)
    refine Eq.trans ?_ (run_of_isWhole c.permutation direction h).symm
    rw [Buffer.run, hof]
    cases hs : c.schedule with
    | some schedule =>
      have hp : c.permutation = .ok (Belt.algorithm.permutation schedule) := by rw [Cipher.permutation, hs]
      obtain ⟨hencrypt, hdecrypt⟩ := runRounds_keyed h2 hsize hs
      rw [hmemory] at hencrypt hdecrypt
      rw [hp]
      cases direction with
      | encrypt => exact hencrypt
      | decrypt => exact hdecrypt
    | none =>
      have hk : c.isKeyed = false := by rw [Cipher.isKeyed, hs]; rfl
      obtain ⟨hencrypt, hdecrypt⟩ := runRounds_of_not_isKeyed h2 hsize hk
      rw [hmemory] at hencrypt hdecrypt
      rw [Cipher.permutation_of_not_isKeyed hk]
      cases direction with
      | encrypt => exact hencrypt
      | decrypt => exact hdecrypt
  · refine Eq.trans ?_ (run_of_not_isWhole c.permutation direction h).symm
    have hnone : Size.of? (UInt64.ofNat memory.length) = none := dif_neg (mt (isWhole_iff h64).mpr h)
    rw [Buffer.run, hnone]

end Transform

end KeyWrapping.WideBlock.Buffer
