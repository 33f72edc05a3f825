import KeyWrapping.Proofs.PaddedExact
import KeyWrapping.Wrap.Service

/-!
# Wrapping is a shift register

RFC 3394 describes the transform by a shift register: half a block `A` and a queue of half blocks. Step `t` encrypts `A`
together with the first of the queue, adds `t` to the upper half of the result, which becomes `A`, and appends the lower
half to the queue. There are six steps for each half block of the queue.

The wrapping register keeps its semiblocks in their places and goes over them in six passes instead. In the middle of a
pass the queue holds the semiblocks that the pass has still to come to, and behind them those that it has left behind
(`foldl_step_pass`). So a pass turns the queue round once, and six passes are all steps (`run_ofRegister`).
-/

namespace KeyWrapping

/-! ## The shift register -/

namespace ShiftRegister

/-- Half a block in front, and a queue of half blocks. -/
structure State where
  front : Block 8
  queue : List (Block 8)

/-- The block made of two halves. -/
def concat (upper lower : Block 8) : Block 16 := Block.ofList (upper.toList ++ lower.toList) (by simp)

def upperHalf (b : Block 16) : Block 8 := Block.ofList (b.toList.take 8) (by simp)

def lowerHalf (b : Block 16) : Block 8 := Block.ofList (b.toList.drop 8) (by simp)

/-- The number of a step as 64 bits, most significant byte first. -/
def number (t : Nat) : Block 8 := Block.ofList (Word.storeBE (BitVec.ofNat 64 t)) (by simp)

/-- Step `t` under the encryption `E`. -/
def step (E : Block 16 → Block 16) (s : State) (t : Nat) : State :=
  match s.queue with
  | [] => s
  | first :: queue =>
    let b := E (concat s.front first)
    ⟨upperHalf b ^^^ number t, queue ++ [lowerHalf b]⟩

/-- All steps in order, six for each half block of the queue. -/
def run (E : Block 16 → Block 16) (s : State) : State :=
  (List.range' 1 (6 * s.queue.length)).foldl (step E) s

/-- What is in front, and then the queue. -/
def State.toBytes (s : State) : Bytes := s.front.toList ++ Bytes.ofBlocks s.queue

/-- What is in front at the beginning, for a key that is not padded. -/
def plainFront : Block 8 := Vector.replicate 8 0xA6

/-- What is in front at the beginning, for a padded key of `n` bytes. -/
def paddedFront (n : Nat) : Block 8 :=
  Block.ofList ([0xA6, 0x59, 0x59, 0xA6] ++ Word.storeBE (BitVec.ofNat 32 n)) (by simp)

/-- A key filled up with zeros to whole half blocks. -/
def filledUp (key : Bytes) : Bytes := key ++ .zeros (8 * ((key.length + 7) / 8) - key.length)

end ShiftRegister

/-! ## Semiblocks as half blocks -/

namespace Semiblock

theorem toBlock_xor (a b : Semiblock) : (a ^^^ b).toBlock = a.toBlock ^^^ b.toBlock := by
  have hx : (a.toBlock ^^^ b.toBlock).toList = a.toBytes.xor b.toBytes := Vector.toList_zipWith ..
  rw [← Vector.toList_inj, hx, toList_toBlock, toBytes, UInt64.toBitVec_xor, Word.storeBE_xor]
  rfl

/-- The halves of a block are its two semiblocks. -/
theorem upperHalf_eq (b : Block 16) : ShiftRegister.upperHalf b = (split b).1.toBlock := by
  have hb : b.toList = (split b).1.toBytes ++ (split b).2.toBytes := by rw [← toList_join, join_split]
  rw [← Vector.toList_inj, ShiftRegister.upperHalf, Block.toList_ofList, hb, toList_toBlock]
  exact List.take_left' (length_toBytes _)

theorem lowerHalf_eq (b : Block 16) : ShiftRegister.lowerHalf b = (split b).2.toBlock := by
  have hb : b.toList = (split b).1.toBytes ++ (split b).2.toBytes := by rw [← toList_join, join_split]
  rw [← Vector.toList_inj, ShiftRegister.lowerHalf, Block.toList_ofList, hb, toList_toBlock]
  exact List.drop_left' (length_toBytes _)

theorem map_toBlock_ofBytes (bytes : Bytes) : (ofBytes bytes).map toBlock = bytes.blocks 8 := by
  rw [ofBytes, List.map_map]
  simp [Function.comp_def]

end Semiblock

/-! ## The passes as steps -/

namespace ShiftRegister

/-- The shift register with the content of a wrapping register. -/
def ofRegister (r : Register) : State := ⟨r.integrity.toBlock, r.data.map Semiblock.toBlock⟩

theorem toBytes_ofRegister (r : Register) : (ofRegister r).toBytes = r.toBytes := by
  rw [State.toBytes, ofRegister, Register.toBytes, Register.dataBytes, Semiblock.flatMap_toBytes]
  rfl

section Steps

variable (p : Permutation 16)

/-- One step, in terms of semiblocks. -/
theorem step_ofRegister (a s : Semiblock) (data : List Semiblock) (t : Nat) :
    step p.encrypt (ofRegister ⟨a, s :: data⟩) t =
      ofRegister ⟨(Semiblock.split (p.encrypt (Semiblock.join a s))).1 ^^^ UInt64.ofNat t,
        data ++ [(Semiblock.split (p.encrypt (Semiblock.join a s))).2]⟩ := by
  have hb : concat a.toBlock s.toBlock = Semiblock.join a s := rfl
  have hn : number t = Semiblock.toBlock (UInt64.ofNat t) := rfl
  simp only [ofRegister, List.map_cons, step, hb, hn, Semiblock.upperHalf_eq, Semiblock.lowerHalf_eq,
    Semiblock.toBlock_xor, List.map_append, List.map_nil]

/-- As many steps as there are semiblocks in `data` are a pass over them; `done` is what the pass has left behind. -/
theorem foldl_step_pass (t : Nat) (a : Semiblock) (data done : List Semiblock) :
    (List.range' t data.length).foldl (step p.encrypt) (ofRegister ⟨a, data ++ done⟩) =
      ofRegister ⟨(Register.wrapPass p t a data).1, done ++ (Register.wrapPass p t a data).2⟩ := by
  induction data generalizing t a done with
  | nil => simp [Register.wrapPass]
  | cons s data ih =>
    rw [List.length_cons, List.range'_succ, List.foldl_cons, List.cons_append, step_ofRegister, List.append_assoc, ih]
    simp [Register.wrapPass]

/-- The steps with the numbers of a pass are the pass. -/
theorem foldl_step_wrapStep (r : Register) (pass : Nat) :
    (List.range' (Register.firstStep r.data.length pass) r.data.length).foldl (step p.encrypt) (ofRegister r) =
      ofRegister (r.wrapStep p pass) := by
  have h := foldl_step_pass p (Register.firstStep r.data.length pass) r.integrity r.data []
  rwa [List.append_nil, List.nil_append] at h

/-- The first `n * passes` steps are that many passes. -/
theorem foldl_step_passes (r : Register) (passes : Nat) :
    (List.range' 1 (r.data.length * passes)).foldl (step p.encrypt) (ofRegister r) =
      ofRegister ((List.range passes).foldl (Register.wrapStep p) r) := by
  induction passes with
  | zero => rfl
  | succ passes ih =>
    have hn : ((List.range passes).foldl (Register.wrapStep p) r).data.length = r.data.length :=
      Register.length_data_foldl Register.length_data_wrapStep _ r
    have hpass := foldl_step_wrapStep p ((List.range passes).foldl (Register.wrapStep p) r) passes
    rw [hn, Register.firstStep, Nat.add_comm] at hpass
    rw [Nat.mul_succ, ← List.range'_append_1, List.foldl_append, ih, hpass, List.range_succ, List.foldl_append]
    rfl

/-- The six passes are a run of the shift register. -/
theorem run_ofRegister (r : Register) : run p.encrypt (ofRegister r) = ofRegister (r.wrap p) := by
  have hlen : 6 * (ofRegister r).queue.length = r.data.length * 6 := by
    rw [ofRegister, List.length_map, Nat.mul_comm]
  rw [run, hlen, foldl_step_passes]
  rfl

end Steps

/-! ## What wrapping starts from -/

theorem ofRegister_unpadded (key : Bytes) : ofRegister (Unpadded.register key) = ⟨plainFront, key.blocks 8⟩ := by
  have hfront : Semiblock.toBlock Unpadded.integrity = plainFront := by
    rw [← Vector.toList_inj]
    decide
  rw [ofRegister, Unpadded.register, Semiblock.map_toBlock_ofBytes, hfront]

theorem toBlock_integrity {n : Nat} (h : n ≤ max32) : (Padded.integrity n).toBlock = paddedFront n := by
  rw [max32] at h
  have hw : (Padded.integrity n).toBitVec = 0xA65959A6#32 ++ BitVec.ofNat 32 n := by
    apply BitVec.eq_of_toNat_eq
    have hn : (BitVec.ofNat 32 n).toNat = n := by
      rw [BitVec.toNat_ofNat]
      omega
    rw [BitVec.toNat_append, hn, ← Nat.shiftLeft_add_eq_or_of_lt (by omega), Nat.shiftLeft_eq]
    exact Padded.toNat_integrity h
  have hc : Word.storeBE 0xA65959A6#32 = [0xA6, 0x59, 0x59, 0xA6] := by decide
  rw [← Vector.toList_inj, Semiblock.toList_toBlock, Semiblock.toBytes, hw,
    Word.storeBE_append (by decide) (by decide), hc]
  rfl

theorem filledUp_eq (key : Bytes) : filledUp key = key ++ .zeros (Padded.paddingLength key.length) := by
  rw [filledUp, ← Padded.length_padded, Nat.add_sub_cancel_left]

theorem ofRegister_padded {key : Bytes} (h : key.length ≤ max32) :
    ofRegister (Padded.register key) = ⟨paddedFront key.length, (filledUp key).blocks 8⟩ := by
  rw [ofRegister, Padded.register, Semiblock.map_toBlock_ofBytes, toBlock_integrity h, filledUp_eq]

end ShiftRegister

/-! ## What wrapping gives -/

/-- A service gives these bytes, to a caller without a buffer and at the front of every buffer that has room for them.
-/
def Service.Gives {a : Algorithm} (s : Service) (c : Cipher a) (data bytes : Bytes) : Prop :=
  s.run c data = .ok bytes ∧
    ∀ buffer : Bytes, bytes.length ≤ buffer.length →
      s.runInto c data buffer = ⟨.ok bytes.length, buffer.overwrite bytes⟩

namespace ShiftRegister

variable {a : Algorithm} {c : Cipher a} {p : Permutation 16} {key : Bytes}

theorem gives_wrap (hc : c.Keyed128 p) (h16 : 16 ≤ key.length) (h8 : key.length % 8 = 0)
    (hmax : key.length / 8 ≤ max32) : Service.wrap.Gives c key (Register.wrap p (Unpadded.register key)).toBytes := by
  refine ⟨(Unpadded.wrap_eq hc key).trans (if_pos ⟨h16, h8, hmax⟩), ?_⟩
  intro buffer hroom
  have hlen : (Register.wrap p (Unpadded.register key)).toBytes.length = key.length + 8 := by
    rw [Register.length_toBytes, Register.length_data_wrap, Unpadded.length_data_register]
    omega
  change Unpadded.wrapInto c key buffer = _
  rw [Unpadded.wrapInto, Unpadded.wrapWithin_eq hc, if_pos ⟨h16, h8, hmax⟩, if_pos (hlen ▸ hroom), Delivery.ofResult_ok]

theorem gives_wrapPadded (hc : c.Keyed128 p) (h0 : 0 < key.length) (hmax : key.length ≤ max32) :
    Service.wrapPadded.Gives c key (Padded.wrapRegister p (Padded.register key)) := by
  refine ⟨(Padded.wrap_eq hc key).trans (if_pos ⟨h0, hmax⟩), ?_⟩
  intro buffer hroom
  have hlen : (Padded.wrapRegister p (Padded.register key)).length =
      key.length + Padded.paddingLength key.length + 8 := by
    rw [Padded.length_wrapRegister, Padded.length_data_register, Padded.length_padded]
  change Padded.wrapInto c key buffer = _
  rw [Padded.wrapInto, Padded.wrapWithin_eq hc, if_pos ⟨h0, hmax⟩, if_pos (hlen ▸ hroom), Delivery.ofResult_ok]

/-- A padded key of more than one semiblock goes through the shift register. -/
theorem wrapRegister_of_long (h : 8 < key.length) (hmax : key.length ≤ max32) :
    Padded.wrapRegister p (Padded.register key) =
      (run p.encrypt ⟨paddedFront key.length, (filledUp key).blocks 8⟩).toBytes := by
  have hdata : (Padded.register key).data.length ≠ 1 := by
    rw [Padded.length_data_register]
    omega
  rw [Padded.wrapRegister_of_length_ne_one p hdata, ← ofRegister_padded hmax, run_ofRegister, toBytes_ofRegister]

/-- A padded key of one semiblock is encrypted in one block. -/
theorem wrapRegister_of_short (h0 : 0 < key.length) (h : key.length ≤ 8) :
    ∃ b : Block 16, b.toList = (paddedFront key.length).toList ++ filledUp key ∧
      Padded.wrapRegister p (Padded.register key) = (p.encrypt b).toList := by
  have hmax : key.length ≤ max32 := by rw [max32]; omega
  have hdata : (Padded.register key).data.length = 1 := by
    rw [Padded.length_data_register]
    omega
  obtain ⟨i, s, hr⟩ := Padded.exists_eq_single hdata
  have hfront : i.toBlock = paddedFront key.length := by
    rw [← toBlock_integrity hmax]
    exact congrArg (fun r => r.integrity.toBlock) hr.symm
  have hkey : s.toBytes = filledUp key := by
    rw [filledUp_eq, ← Padded.dataBytes_register, hr]
    exact (List.append_nil _).symm
  refine ⟨Semiblock.join i s, ?_, by rw [hr, Padded.wrapRegister_single]⟩
  rw [Semiblock.toList_join, hkey, ← hfront, Semiblock.toList_toBlock]

/-- **Wrapping is the shift register of the standard**: without padding, and with padding for keys of more than one
semiblock; a padded key of one semiblock is encrypted together with its integrity value. -/
theorem wrapping_is_run (hc : c.Keyed128 p) (key : Bytes) :
    (16 ≤ key.length → key.length % 8 = 0 → key.length / 8 ≤ max32 →
      Service.wrap.Gives c key (run p.encrypt ⟨plainFront, key.blocks 8⟩).toBytes) ∧
    (8 < key.length → key.length ≤ max32 →
      Service.wrapPadded.Gives c key (run p.encrypt ⟨paddedFront key.length, (filledUp key).blocks 8⟩).toBytes) ∧
    (0 < key.length → key.length ≤ 8 → ∃ b : Block 16,
      b.toList = (paddedFront key.length).toList ++ filledUp key ∧
        Service.wrapPadded.Gives c key (p.encrypt b).toList) := by
  refine ⟨?_, ?_, ?_⟩
  · intro h16 h8 hmax
    rw [← ofRegister_unpadded, run_ofRegister, toBytes_ofRegister]
    exact gives_wrap hc h16 h8 hmax
  · intro h hmax
    rw [← wrapRegister_of_long h hmax]
    exact gives_wrapPadded hc (by omega) hmax
  · intro h0 h
    obtain ⟨b, hb, hw⟩ := wrapRegister_of_short (p := p) h0 h
    refine ⟨b, hb, ?_⟩
    rw [← hw]
    exact gives_wrapPadded hc h0 (by rw [max32]; omega)

/-- Under BelT with the key of 32 zero bytes, the shift register wraps a key of three semiblocks, and with padding one
of nine bytes; one of five bytes is encrypted in one block. -/
theorem wrapping_is_run_belt :
    (Belt.keyed (.zeros 32)).Keyed128 (Belt.permutation (Belt.expand (.zeros 32))) ∧
      Service.wrap.Gives (Belt.keyed (.zeros 32)) (List.replicate 24 0x5A)
        (run (Belt.encryptBlock (Belt.expand (.zeros 32)))
          ⟨plainFront, Bytes.blocks 8 (List.replicate 24 0x5A)⟩).toBytes ∧
      Service.wrapPadded.Gives (Belt.keyed (.zeros 32)) (List.replicate 9 0x5A)
        (run (Belt.encryptBlock (Belt.expand (.zeros 32)))
          ⟨paddedFront 9, Bytes.blocks 8 (List.replicate 9 0x5A ++ Bytes.zeros 7)⟩).toBytes ∧
      ∃ b : Block 16, b.toList = [0xA6, 0x59, 0x59, 0xA6, 0, 0, 0, 5, 0x5A, 0x5A, 0x5A, 0x5A, 0x5A, 0, 0, 0] ∧
        Service.wrapPadded.Gives (Belt.keyed (.zeros 32)) (List.replicate 5 0x5A)
          (Belt.encryptBlock (Belt.expand (.zeros 32)) b).toList := by
  have hc := Belt.keyed128_keyed (.zeros 32)
  refine ⟨hc, ?_, ?_, ?_⟩
  · exact (wrapping_is_run hc (List.replicate 24 0x5A)).1 (by decide) (by decide) (by decide)
  · exact (wrapping_is_run hc (List.replicate 9 0x5A)).2.1 (by decide) (by decide)
  · exact (wrapping_is_run hc (List.replicate 5 0x5A)).2.2 (by decide) (by decide)

end ShiftRegister

end KeyWrapping
