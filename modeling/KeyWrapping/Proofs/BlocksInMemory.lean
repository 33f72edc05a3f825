import KeyWrapping.Cipher.Memory
import KeyWrapping.Proofs.BlockRuns

/-!
# Blocks in memory

Where there is room (`Pointers.Room`), to write what was made of some bytes leaves what is still to be read as it was
(`Pointers.ahead_advance`), and to write twice is to write once (`Pointers.advance_advance`). So to go from block to
block, or to hand the blocks over call by call, leaves the memory that processing all of them at once would leave
(`Pointers.blockwise_eq`, `Backend.processAt_completes`). The latter is shown for any library that processes the whole
blocks of each call (`Backend.Ecb`), as some do (`Backend.ecb_keeping`), and for every number of blocks: a call is told
the right number of bytes, since it takes no more blocks than an `int` can count the bytes of
(`BlockSize.toInt_callLength`).
-/

namespace KeyWrapping

/-! ## Reading and writing -/

namespace Pointers

variable {p : Pointers} {m k : Nat} {bytes more : Bytes}

/-- There are so many bytes to be read and there is room for as many to be written, in the same place or apart. -/
structure Room (p : Pointers) (total : Nat) : Prop where
  source_le : p.source + total ≤ p.memory.length
  target_le : p.target + total ≤ p.memory.length
  apart : p.source = p.target ∨ p.source + total ≤ p.target ∨ p.target + total ≤ p.source

theorem length_ahead (h : p.Room m) : (p.ahead m).length = m := by
  have hsource := h.source_le
  rw [ahead, List.length_take, List.length_drop]
  omega

theorem Room.mono (h : p.Room (m + k)) : p.Room m := by
  obtain ⟨hsource, htarget, hapart⟩ := h
  constructor <;> omega

/-- What is to be read next is read before what comes behind it. -/
theorem ahead_add (p : Pointers) (m k : Nat) : p.ahead (m + k) = p.ahead m ++ (p.ahead (m + k)).drop m := by
  have hfront : (p.ahead (m + k)).take m = p.ahead m := by
    rw [ahead, List.take_take, Nat.min_eq_left (Nat.le_add_right m k), ahead]
  rw [← hfront, List.take_append_drop]

theorem getElem?_written (h : p.target + bytes.length ≤ p.memory.length) (i : Nat) : (p.written bytes)[i]? =
    if p.target ≤ i ∧ i < p.target + bytes.length then bytes[i - p.target]? else p.memory[i]? := by
  have hfront : (p.memory.take p.target).length = p.target := List.length_take_of_le (by omega)
  rw [written, Bytes.overwrite]
  grind

theorem length_written (h : p.target + bytes.length ≤ p.memory.length) :
    (p.written bytes).length = p.memory.length := by
  rw [written, List.length_append, Bytes.length_overwrite (by rw [List.length_drop]; omega), List.length_take,
    List.length_drop]
  omega

theorem Room.advance (h : p.Room (m + k)) (hbytes : bytes.length = m) : (p.advance m bytes).Room k := by
  obtain ⟨hsource, htarget, hapart⟩ := h
  have hlength : (p.written bytes).length = p.memory.length := length_written (by omega)
  constructor <;> simp only [Pointers.advance] <;> omega

/-- Writing leaves what is still to be read as it was. -/
theorem ahead_advance (h : p.Room (m + k)) (hbytes : bytes.length = m) :
    (p.advance m bytes).ahead k = (p.ahead (m + k)).drop m := by
  obtain ⟨hsource, htarget, hapart⟩ := h
  have hle : p.target + bytes.length ≤ p.memory.length := by omega
  apply List.ext_getElem?
  intro i
  have hwritten := getElem?_written hle (p.source + m + i)
  simp only [ahead, advance, List.getElem?_take, List.getElem?_drop, hwritten]
  grind

/-- To write twice is to write once. -/
theorem advance_advance (h : p.Room (m + k)) (hbytes : bytes.length = m) (hmore : more.length = k) :
    (p.advance m bytes).advance k more = p.advance (m + k) (bytes ++ more) := by
  have htarget := h.target_le
  have hlength : (p.written bytes).length = p.memory.length := length_written (by omega)
  have hmemory : (p.advance m bytes).written more = p.written (bytes ++ more) := by
    apply List.ext_getElem?
    intro i
    rw [getElem?_written (by simp only [advance]; omega), getElem?_written (by rw [List.length_append]; omega)]
    simp only [advance]
    rw [getElem?_written (by omega)]
    grind
  rw [advance, hmemory, advance, advance, Nat.add_assoc, Nat.add_assoc]

/-! ## Blocks one by one -/

section Blocks

variable {n : Nat} (f : Block n → Block n)

/-- Processes so many blocks at once. -/
def atOnce (count : Nat) (p : Pointers) : Pointers :=
  p.advance (count * n) (Bytes.mapBlocks f (p.ahead (count * n)))

theorem atOnce_zero (p : Pointers) : p.atOnce f 0 = p := by
  simp [atOnce, ahead, advance, written]

variable {j k : Nat}

theorem length_mapBlocks_ahead (hn : 0 < n) (h : p.Room (k * n)) :
    (Bytes.mapBlocks f (p.ahead (k * n))).length = k * n := by
  have hsource := h.source_le
  refine Bytes.length_mapBlocks_take f hn ?_
  rw [List.length_drop]
  omega

theorem Room.atOnce (hn : 0 < n) (h : p.Room ((j + k) * n)) : (p.atOnce f j).Room (k * n) := by
  rw [Nat.add_mul] at h
  exact h.advance (length_mapBlocks_ahead f hn h.mono)

/-- Some blocks and then others are all of them at once. -/
theorem atOnce_atOnce (hn : 0 < n) (h : p.Room ((j + k) * n)) :
    (p.atOnce f j).atOnce f k = p.atOnce f (j + k) := by
  rw [Nat.add_mul] at h
  have hfront := length_mapBlocks_ahead f hn h.mono
  have hback := length_mapBlocks_ahead f hn (h.advance hfront)
  have hdvd : n ∣ (p.ahead (j * n)).length := by
    rw [length_ahead h.mono]
    exact Nat.dvd_mul_left n j
  rw [atOnce, atOnce, advance_advance h hfront hback, ahead_advance h hfront, ← Bytes.mapBlocks_append f hn hdvd,
    ← ahead_add, atOnce, Nat.add_mul]

theorem blockwise_eq (hn : 0 < n) {count : Nat} (h : p.Room (count * n)) :
    p.blockwise f count = p.atOnce f count := by
  induction count generalizing p with
  | zero => rw [blockwise, atOnce_zero]
  | succ count ih =>
    have hone : p.advance n (Bytes.mapBlocks f (p.ahead n)) = p.atOnce f 1 := by rw [atOnce, Nat.one_mul]
    rw [Nat.add_comm] at h
    rw [blockwise, hone, ih (h.atOnce f hn), atOnce_atOnce f hn h, Nat.add_comm]

end Blocks

end Pointers

/-! ## What a call is told -/

namespace BlockSize

variable (size : BlockSize) (left : UInt64)

theorem toNat_taken_mul_le : (size.taken left).toNat * size.bytes.toNat ≤ 0x7FFFFFFF := by
  have hlimit : (size.taken left).toNat ≤ 0x7FFFFFFF / size.bytes.toNat := by
    rw [toNat_taken, toNat_limit]
    exact Nat.min_le_right _ _
  exact Nat.le_trans (Nat.mul_le_mul_right _ hlimit) (Nat.div_mul_le_self _ _)

theorem toNat_mul_taken : (size.taken left * size.bytes).toNat = (size.taken left).toNat * size.bytes.toNat := by
  have hle := size.toNat_taken_mul_le left
  rw [UInt64.toNat_mul, Nat.mod_eq_of_lt (by omega)]

/-- The length that a call is told is the number of its bytes. -/
theorem toInt_callLength :
    (size.callLength (size.taken left)).toInt = ((size.taken left).toNat * size.bytes.toNat : Nat) := by
  have hle := size.toNat_taken_mul_le left
  rw [callLength, toNat_mul_taken, Int32.toInt_ofNat_of_lt (by omega)]

theorem toNatClampNeg_callLength :
    (size.callLength (size.taken left)).toNatClampNeg = (size.taken left).toNat * size.bytes.toNat := by
  rw [Int32.toNatClampNeg, toInt_callLength, Int.toNat_natCast]

end BlockSize

/-! ## Call by call -/

/-- What is promised of a library that has an algorithm: once a context was given a key and does not pad, a call puts
each of the whole blocks that it gets through the algorithm, and the context is ready for the next call. -/
structure Backend.Ecb (b : Backend) (a : Algorithm) (Ready : Bytes → Direction → b.Context → Prop) : Prop where
  size_eq : b.size.bytes.toNat = a.blockSize
  exists_new : ∃ context, b.create = .ok context
  init : ∀ {key context} (direction : Direction), a.keyLengths.accepts key.length = true → b.create = .ok context →
    ∃ keyed, b.init direction context key = .ok keyed ∧ Ready key direction (b.setPadding keyed false)
  copy : ∀ {key direction keyed context}, Ready key direction keyed → b.create = .ok context →
    ∃ copied, b.copy context keyed = .ok copied ∧ Ready key direction copied
  update : ∀ {key direction context} {input : Bytes} {length : Int32}, Ready key direction context →
    0 < input.length → a.blockSize ∣ input.length → length.toInt = input.length →
    ∃ later, b.update context input length =
      .ok (later, Bytes.mapBlocks ((a.permutation (a.expand key)).run direction) input, length) ∧
      Ready key direction later

/-- A call is told how many bytes it gets, and these are blocks of `n` bytes, at least one. -/
structure Call.Sound (n : Nat) (call : Call) : Prop where
  pos : 0 < call.length.toInt
  dvd : (n : Int) ∣ call.length.toInt
  length_eq : call.length.toInt = call.input.length

namespace Trace

/-- Nothing went wrong, and this is what processing left. -/
structure Finishes (trace : Trace) (left : Pointers) : Prop where
  failure_eq : trace.failure = none
  pointers_eq : trace.pointers = left

/-- So many blocks of `n` bytes were handed over, each of them once and in its place, by as few calls as there can
be. -/
structure HandsOver (trace : Trace) (n count : Nat) (p : Pointers) : Prop where
  inputs_eq : (trace.calls.map Call.input).flatten = p.ahead (count * n)
  sizes_eq : trace.calls.map (·.input.length) = (Algorithm.callSizes (0x7FFFFFFF / n) count).map (· * n)
  sound : ∀ call ∈ trace.calls, call.Sound n

/-- So many blocks were handed over and processed. -/
structure Completes {n : Nat} (trace : Trace) (f : Block n → Block n) (count : Nat) (p : Pointers) : Prop where
  finishes : trace.Finishes (p.atOnce f count)
  hands_over : trace.HandsOver n count p

variable {n : Nat} {f : Block n → Block n} {p : Pointers} {trace : Trace}

theorem completes_nil : (⟨[], p, none⟩ : Trace).Completes f 0 p where
  finishes := ⟨rfl, (Pointers.atOnce_zero f p).symm⟩
  hands_over := ⟨by simp [Pointers.ahead], by simp [Algorithm.callSizes], by simp⟩

/-- After a call, others complete the blocks behind those that it got. -/
theorem Completes.after (hn : 0 < n) {count taken : Nat} (htaken : taken = min count (0x7FFFFFFF / n))
    (hpos : 0 < taken) (h : p.Room (count * n)) {call : Call} (hinput : call.input = p.ahead (taken * n))
    (hsound : call.Sound n) (hrest : trace.Completes f (count - taken) (p.atOnce f taken)) :
    (trace.after call).Completes f count p := by
  obtain ⟨rest, rfl⟩ : ∃ rest, count = taken + rest := ⟨count - taken, by omega⟩
  rw [Nat.add_sub_cancel_left] at hrest
  obtain ⟨⟨hfailure, hpointers⟩, hinputs, hsizes, hlater⟩ := hrest
  have hsplit := h
  rw [Nat.add_mul] at hsplit
  refine ⟨⟨hfailure, hpointers.trans (Pointers.atOnce_atOnce f hn h)⟩, ?_, ?_, ?_⟩
  · rw [Trace.after, List.map_cons, List.flatten_cons, hinputs, hinput, Pointers.atOnce,
      Pointers.ahead_advance hsplit (Pointers.length_mapBlocks_ahead f hn hsplit.mono), ← Pointers.ahead_add,
      Nat.add_mul]
  · rw [Algorithm.callSizes, dif_pos ⟨by omega, by omega⟩, ← htaken, Nat.add_sub_cancel_left, List.map_cons,
      ← hsizes, Trace.after, List.map_cons, hinput, Pointers.length_ahead hsplit.mono]
  · exact List.forall_mem_cons.mpr ⟨hsound, hlater⟩

end Trace

namespace Backend

variable {b : Backend} {a : Algorithm} {Ready : Bytes → Direction → b.Context → Prop} {key : Bytes}
  {direction : Direction} {p : Pointers}

/-- The next call gets as many blocks as it should, is told so, and processes them. -/
theorem next_call (hb : b.Ecb a Ready) {left : UInt64} (hleft : 0 < left) (h : p.Room (left.toNat * a.blockSize))
    {context : b.Context} (hc : Ready key direction context) :
    let length := b.size.callLength (b.size.taken left)
    let call : Call := ⟨p.ahead length.toNatClampNeg, length⟩
    call.input = p.ahead ((b.size.taken left).toNat * a.blockSize) ∧ call.Sound a.blockSize ∧
      ∃ later, b.update context call.input length =
        .ok (later, Bytes.mapBlocks ((a.permutation (a.expand key)).run direction) call.input, length) ∧
        Ready key direction later := by
  intro length call
  have hlength := b.size.toInt_callLength left
  have hinput : call.input = p.ahead ((b.size.taken left).toNat * a.blockSize) := by
    rw [← hb.size_eq, ← BlockSize.toNatClampNeg_callLength]
  rw [hb.size_eq] at hlength
  have hbytes : call.input.length = (b.size.taken left).toNat * a.blockSize := by
    obtain ⟨rest, hrest⟩ := Nat.exists_eq_add_of_le (b.size.toNat_taken_le left)
    rw [hrest, Nat.add_mul] at h
    rw [hinput, Pointers.length_ahead h.mono]
  have hpos : 0 < call.input.length :=
    hbytes ▸ Nat.mul_pos (b.size.toNat_taken_pos hleft) (hb.size_eq ▸ b.size.toNat_bytes_pos)
  have hdvd : a.blockSize ∣ call.input.length := hbytes ▸ Nat.dvd_mul_left _ _
  rw [← hbytes] at hlength
  refine ⟨hinput, ⟨?_, ?_, hlength⟩, hb.update hc hpos hdvd hlength⟩
  · rwa [hlength, Int.natCast_pos]
  · rwa [hlength, Int.natCast_dvd_natCast]

/-- In a context that is ready, the calls complete the blocks, however many are left. -/
theorem handOver_completes (hb : b.Ecb a Ready) {left : UInt64} {context : b.Context} (hc : Ready key direction context)
    (h : p.Room (left.toNat * a.blockSize)) :
    (b.handOver left context p).Completes ((a.permutation (a.expand key)).run direction) left.toNat p := by
  have hn : 0 < a.blockSize := hb.size_eq ▸ b.size.toNat_bytes_pos
  let f := (a.permutation (a.expand key)).run direction
  fun_induction handOver b left context p with
  | case1 left context p hleft taken length call code hfails =>
    obtain ⟨-, -, later, hupdate, -⟩ := next_call hb hleft h hc
    rw [hupdate] at hfails
    cases hfails
  | case2 left context p hleft taken length call later output hupdate ih =>
    obtain ⟨hinput, hsound, later, hanswer, hlater⟩ := next_call hb hleft h hc
    rw [hanswer] at hupdate
    cases hupdate
    have htaken : taken.toNat = min left.toNat (0x7FFFFFFF / a.blockSize) := by
      rw [BlockSize.toNat_taken, BlockSize.toNat_limit, hb.size_eq]
    have hleft' : (left - taken).toNat = left.toNat - taken.toNat := b.size.toNat_left left
    have hwritten : p.advance (taken * b.size.bytes).toNat (Bytes.mapBlocks f call.input) = p.atOnce f taken.toNat := by
      rw [hinput, BlockSize.toNat_mul_taken, hb.size_eq, Pointers.atOnce]
    rw [hleft', hwritten] at ih
    have hle : taken.toNat ≤ left.toNat := b.size.toNat_taken_le left
    have hroom : (p.atOnce f taken.toNat).Room ((left.toNat - taken.toNat) * a.blockSize) := by
      refine Pointers.Room.atOnce f hn ?_
      rwa [Nat.add_sub_cancel' hle]
    rw [hwritten]
    exact (ih hlater hroom).after hn htaken (b.size.toNat_taken_pos hleft) h hinput hsound
  | case3 left context p hleft taken length call later output written hupdate hmissing =>
    obtain ⟨-, -, later, hanswer, -⟩ := next_call hb hleft h hc
    rw [hanswer] at hupdate
    cases hupdate
    exact absurd rfl hmissing
  | case4 left context p hnone =>
    have hzero : left.toNat = 0 := by
      rw [UInt64.lt_iff_toNat_lt] at hnone
      exact Nat.eq_zero_of_not_pos hnone
    rw [hzero]
    exact Trace.completes_nil

/-- A copy of a context that is ready is ready. -/
theorem exists_copied (hb : b.Ecb a Ready) {keyed : b.Context} (h : Ready key direction keyed) :
    ∃ context, b.copied keyed = .ok context ∧ Ready key direction context := by
  obtain ⟨new, hnew⟩ := hb.exists_new
  obtain ⟨context, hcopy, hready⟩ := hb.copy h hnew
  refine ⟨context, ?_, hready⟩
  rw [copied, newContext, hnew, attempt_ok, ok_bind, hcopy, attempt_ok]

/-- With a key of an accepted length, there are contexts that are ready for both directions. -/
theorem exists_setKey (hb : b.Ecb a Ready) (h : a.keyLengths.accepts key.length = true) :
    ∃ keyed, b.setKey key = .ok keyed ∧ ∀ direction, Ready key direction (keyed.context direction) := by
  obtain ⟨new, hnew⟩ := hb.exists_new
  obtain ⟨encrypting, hencrypting, hencrypt⟩ := hb.init .encrypt h hnew
  obtain ⟨decrypting, hdecrypting, hdecrypt⟩ := hb.init .decrypt h hnew
  refine ⟨⟨b.setPadding encrypting false, b.setPadding decrypting false⟩, ?_, ?_⟩
  · rw [setKey, newContext, hnew, attempt_ok, ok_bind, ok_bind, hencrypting, attempt_ok, ok_bind, hdecrypting,
      attempt_ok, ok_bind]
    rfl
  · rintro (_ | _)
    · exact hencrypt
    · exact hdecrypt

/-- **However many blocks there are, the calls complete them.** -/
theorem processAt_completes (hb : b.Ecb a Ready) {keyed : b.Keyed}
    (hkeyed : Ready key direction (keyed.context direction)) {count : UInt64}
    (h : p.Room (count.toNat * a.blockSize)) : (b.processAt a (some keyed) direction count p).Completes
      ((a.permutation (a.expand key)).run direction) count.toNat p := by
  rw [processAt, run]
  split
  case isTrue hzero =>
    rw [hzero]
    exact Trace.completes_nil
  case isFalse =>
    obtain ⟨context, hcopied, hready⟩ := exists_copied hb hkeyed
    rw [hcopied]
    exact handOver_completes hb hready h

end Backend

/-! ## A library that keeps the promise -/

namespace Backend

/-- What a library may keep: the direction and the key, whether data are filled up, and what it has not yet
processed. -/
structure Memo where
  keyed : Option (Direction × Bytes)
  pads : Bool
  kept : Bytes

/-- A library that keeps back what does not make a whole block and, when it decrypts data that were filled up, the last
block as well. -/
def keeping (a : Algorithm) (size : BlockSize) : Backend where
  Context := Memo
  size := size
  create := .ok ⟨none, true, []⟩
  init direction memo key := .ok { memo with keyed := some (direction, key), kept := [] }
  setPadding memo pads := { memo with pads := pads }
  copy _ like := .ok like
  update memo input _ :=
    match memo.keyed with
    | none => .error 0
    | some (direction, key) =>
      let bytes := memo.kept ++ input
      let whole := (bytes.length - if memo.pads && direction = .decrypt then 1 else 0) / a.blockSize * a.blockSize
      .ok ({ memo with kept := bytes.drop whole },
        Bytes.mapBlocks ((a.permutation (a.expand key)).run direction) (bytes.take whole), Int32.ofNat whole)

theorem ecb_keeping {a : Algorithm} {size : BlockSize} (h : size.bytes.toNat = a.blockSize) :
    (keeping a size).Ecb a fun key direction memo => memo = (⟨some (direction, key), false, []⟩ : Memo) where
  size_eq := h
  exists_new := ⟨_, rfl⟩
  init := by
    rintro key _ direction - ⟨⟩
    exact ⟨_, rfl, rfl⟩
  copy := by
    rintro key direction _ _ rfl -
    exact ⟨_, rfl, rfl⟩
  update := by
    rintro key direction _ input length rfl - hdvd hlength
    have hwhole : Int32.ofNat input.length = length := by
      rw [← Int32.ofInt_eq_ofNat, ← hlength, Int32.ofInt_toInt]
    refine ⟨⟨some (direction, key), false, []⟩, ?_, rfl⟩
    simp [keeping, Nat.div_mul_cancel hdvd, hwhole]

end Backend

end KeyWrapping
