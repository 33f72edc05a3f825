import KeyWrapping.Proofs.AesSubstitution
import KeyWrapping.Proofs.Exactness

/-!
# AES runs backwards

Columns are mixed by an additive map that commutes with its own square `foldColumn`, and the square of that is the
identity; so mixing and the opposite mixing undo each other (`Aes.invMixColumn_mixColumn`,
`Aes.mixColumn_invMixColumn`). Rows that were turned are turned back (`Aes.invShiftRows_shiftRows`). A schedule of whole
round keys makes encryption a run over them (`Aes.encryptBlock_flatMap`) and decryption a run over the same keys
backwards, one layer of which is always ahead of its key (`Aes.decryptBlock_flatMap`). So AES undoes itself under every
key (`Aes.permutation_inverse`).
-/

namespace KeyWrapping

theorem Quad.xor_xor_cancel (q k : Quad) : (q.xor k).xor k = q := by
  have h (a b : UInt32) : (a ^^^ b) ^^^ b = a := by rw [UInt32.xor_assoc, UInt32.xor_self, UInt32.xor_zero]
  simp only [Quad.xor, h]

theorem Quad.map_map (f g : UInt32 → UInt32) (q : Quad) : (q.map g).map f = q.map fun w => f (g w) := rfl

theorem Quad.map_of_forall_eq {f : UInt32 → UInt32} (h : ∀ w, f w = w) (q : Quad) : q.map f = q := by
  simp only [Quad.map, h]

namespace Aes

/-! ## Columns -/

/-- A column multiplied by the polynomial `4x² + 5`. -/
def foldColumn (w : UInt32) : UInt32 := w ^^^ doubleWord (doubleWord (w ^^^ Word.rotl32 16 w))

theorem invMixColumn_eq (w : UInt32) : invMixColumn w = mixColumn (foldColumn w) := rfl

theorem doubleWord_xor (v w : UInt32) : doubleWord (v ^^^ w) = doubleWord v ^^^ doubleWord w :=
  Word.mapBytes_xor Field.double_xor v w

theorem doubleWord_rotl32_8 (w : UInt32) : doubleWord (Word.rotl32 8 w) = Word.rotl32 8 (doubleWord w) :=
  Word.mapBytes_rotl32_8 Field.double w

theorem xor_self_left (a b : UInt32) : a ^^^ (a ^^^ b) = b := by
  rw [← UInt32.xor_assoc, UInt32.xor_self, UInt32.zero_xor]

theorem xor_left_comm (a b c : UInt32) : a ^^^ (b ^^^ c) = b ^^^ (a ^^^ c) := by
  rw [← UInt32.xor_assoc, UInt32.xor_comm a, UInt32.xor_assoc]

theorem turn_four (w : UInt32) : Word.rotl32 8 (Word.rotl32 8 (Word.rotl32 8 (Word.rotl32 8 w))) = w := by
  rw [← Word.rotl32_16_eq, ← Word.rotl32_16_eq, Word.rotl32_16_16]

/-- A column and the same turned by one byte. -/
def withNext (w : UInt32) : UInt32 := w ^^^ Word.rotl32 8 w

/-- A column turned in all three ways. -/
def turns (w : UInt32) : UInt32 := Word.rotl32 8 w ^^^ Word.rotl32 16 w ^^^ Word.rotl32 24 w

theorem mixColumn_eq (w : UInt32) : mixColumn w = doubleWord (withNext w) ^^^ turns w := by
  simp only [mixColumn, withNext, turns, Word.rotl32_8_xor, doubleWord_xor, doubleWord_rotl32_8]
  ac_rfl

section Additive

variable (v w : UInt32)

theorem withNext_xor : withNext (v ^^^ w) = withNext v ^^^ withNext w := by
  simp only [withNext, Word.rotl32_8_xor]
  ac_rfl

theorem turns_xor : turns (v ^^^ w) = turns v ^^^ turns w := by
  simp only [turns, Word.rotl32_24_eq, Word.rotl32_16_eq, Word.rotl32_8_xor]
  ac_rfl

theorem withNext_doubleWord : withNext (doubleWord w) = doubleWord (withNext w) := by
  simp only [withNext, doubleWord_xor, doubleWord_rotl32_8]

theorem turns_doubleWord : turns (doubleWord w) = doubleWord (turns w) := by
  simp only [turns, Word.rotl32_24_eq, Word.rotl32_16_eq, doubleWord_xor, doubleWord_rotl32_8]

theorem turns_withNext : turns (withNext w) = withNext (turns w) := by
  simp only [turns, withNext, Word.rotl32_24_eq, Word.rotl32_16_eq, Word.rotl32_8_xor]
  ac_rfl

theorem withNext_withNext : withNext (withNext w) = w ^^^ Word.rotl32 16 w := by
  simp only [withNext, Word.rotl32_16_eq, Word.rotl32_8_xor, UInt32.xor_assoc, xor_self_left]

/-- Two turns come to a whole turn in three of the nine ways, and the other six cancel. -/
theorem turns_turns : turns (turns w) = w := by
  simp only [turns, Word.rotl32_24_eq, Word.rotl32_16_eq, Word.rotl32_8_xor, turn_four]
  simp only [UInt32.xor_assoc, UInt32.xor_comm, xor_left_comm, xor_self_left, UInt32.xor_self, UInt32.xor_zero]

end Additive

/-- Mixing twice: the two mixed terms cancel. -/
theorem mixColumn_mixColumn (w : UInt32) : mixColumn (mixColumn w) = foldColumn w := by
  calc mixColumn (mixColumn w)
      = doubleWord (withNext (doubleWord (withNext w) ^^^ turns w)) ^^^
          turns (doubleWord (withNext w) ^^^ turns w) := by
        rw [mixColumn_eq w, mixColumn_eq]
    _ = doubleWord (doubleWord (withNext (withNext w))) ^^^ doubleWord (withNext (turns w)) ^^^
          (doubleWord (withNext (turns w)) ^^^ turns (turns w)) := by
        rw [withNext_xor, turns_xor, doubleWord_xor, withNext_doubleWord, turns_doubleWord, turns_withNext]
    _ = doubleWord (doubleWord (w ^^^ Word.rotl32 16 w)) ^^^ w := by
        rw [withNext_withNext, turns_turns, UInt32.xor_assoc, xor_self_left]
    _ = foldColumn w := UInt32.xor_comm ..

theorem foldColumn_foldColumn (w : UInt32) : foldColumn (foldColumn w) = w := by
  simp only [foldColumn, Word.rotl32_16_eq, Word.rotl32_8_xor, doubleWord_xor, doubleWord_rotl32_8, turn_four]
  simp only [UInt32.xor_assoc, UInt32.xor_comm, xor_left_comm, xor_self_left, UInt32.xor_self, UInt32.xor_zero]

theorem mixColumn_foldColumn (w : UInt32) : mixColumn (foldColumn w) = foldColumn (mixColumn w) := by
  rw [← mixColumn_mixColumn, ← mixColumn_mixColumn]

theorem invMixColumn_mixColumn (w : UInt32) : invMixColumn (mixColumn w) = w := by
  rw [invMixColumn_eq, mixColumn_foldColumn, mixColumn_mixColumn, foldColumn_foldColumn]

theorem mixColumn_invMixColumn (w : UInt32) : mixColumn (invMixColumn w) = w := by
  rw [invMixColumn_eq, mixColumn_mixColumn, foldColumn_foldColumn]

/-! ## Rows -/

/-- A diagonal takes each byte from another word. -/
theorem byte_diagonal (p q r s : UInt32) {i : Nat} (h : i < 4) :
    Word.byte i (diagonal p q r s).toBitVec = Word.byte i ([p, q, r, s].getD i 0).toBitVec := by
  rw [Word.byte_eq_iff]
  intro j hj
  rw [Word.getLsbD_byte]
  interval_cases i <;> interval_cases j <;> simp [diagonal]

/-- A diagonal is the word that it takes all of its bytes from. -/
theorem diagonal_eq {p q r s w : UInt32} (hp : Word.byte 0 p.toBitVec = Word.byte 0 w.toBitVec)
    (hq : Word.byte 1 q.toBitVec = Word.byte 1 w.toBitVec) (hr : Word.byte 2 r.toBitVec = Word.byte 2 w.toBitVec)
    (hs : Word.byte 3 s.toBitVec = Word.byte 3 w.toBitVec) : diagonal p q r s = w := by
  apply Word.eq_of_byte_eq
  intro i hi
  rw [byte_diagonal _ _ _ _ hi]
  interval_cases i
  · exact hp
  · exact hq
  · exact hr
  · exact hs

/-- Each byte of a word stands in another diagonal, and the opposite diagonal takes it from there. -/
theorem invShiftRows_shiftRows (s : Quad) : invShiftRows (shiftRows s) = s := by
  obtain ⟨a, b, c, d⟩ := s
  simp only [invShiftRows, shiftRows, Quad.mk.injEq]
  refine ⟨?_, ?_, ?_, ?_⟩ <;> apply diagonal_eq <;> exact byte_diagonal _ _ _ _ (by decide)

theorem shiftRows_invShiftRows (s : Quad) : shiftRows (invShiftRows s) = s := by
  obtain ⟨a, b, c, d⟩ := s
  simp only [invShiftRows, shiftRows, Quad.mk.injEq]
  refine ⟨?_, ?_, ?_, ?_⟩ <;> apply diagonal_eq <;> exact byte_diagonal _ _ _ _ (by decide)

/-! ## Rounds -/

/-- What a round of encryption does to bytes, wherever they go. -/
def encryptLayer (s : Quad) : Quad := shiftRows (s.map subWord)

/-- What a round of decryption does to bytes, wherever they go. -/
def decryptLayer (s : Quad) : Quad := (invShiftRows s).map invSubWord

/-- A round of encryption that is not the last. -/
def encryptRound (s k : Quad) : Quad := ((encryptLayer s).map mixColumn).xor k

/-- A round of decryption that is not the last. -/
def decryptRound (s k : Quad) : Quad := ((decryptLayer s).xor k).map invMixColumn

theorem decryptLayer_encryptLayer (s : Quad) : decryptLayer (encryptLayer s) = s := by
  rw [decryptLayer, encryptLayer, invShiftRows_shiftRows, Quad.map_map, Quad.map_of_forall_eq invSubWord_subWord]

theorem encryptLayer_decryptLayer (s : Quad) : encryptLayer (decryptLayer s) = s := by
  rw [decryptLayer, encryptLayer, Quad.map_map, Quad.map_of_forall_eq subWord_invSubWord, shiftRows_invShiftRows]

/-- A round of decryption takes back a round of encryption that has another layer on top. -/
theorem decryptRound_undoes (t s k : Quad) (h : t = encryptLayer (encryptRound s k)) :
    decryptRound t k = encryptLayer s := by
  rw [h, decryptRound, decryptLayer_encryptLayer, encryptRound, Quad.xor_xor_cancel, Quad.map_map,
    Quad.map_of_forall_eq invMixColumn_mixColumn]

/-- A round of encryption takes back a round of decryption that has another layer on top. -/
theorem encryptRound_undoes (t s k : Quad) (h : t = decryptLayer (decryptRound s k)) :
    encryptRound t k = decryptLayer s := by
  rw [h, encryptRound, encryptLayer_decryptLayer, decryptRound, Quad.map_map,
    Quad.map_of_forall_eq mixColumn_invMixColumn, Quad.xor_xor_cancel]

/-! ## Schedules of round keys -/

/-- The four words of a round key. -/
def roundWords (k : Quad) : Schedule := [k.a, k.b, k.c, k.d]

theorem encryptRounds_flatMap (ks : List Quad) (k s : Quad) :
    encryptRounds ((ks ++ [k]).flatMap roundWords) s = (encryptLayer (ks.foldl encryptRound s)).xor k := by
  induction ks generalizing s with
  | nil => rfl
  | cons k' ks ih =>
    have hmore : (ks ++ [k]).flatMap roundWords ≠ [] := by simp [roundWords]
    rw [List.foldl_cons, ← ih]
    exact encryptRounds.eq_2 s k'.a k'.b k'.c k'.d _ hmore

theorem decryptRounds_flatMap (ks : List Quad) (k s : Quad) :
    decryptRounds ((ks ++ [k]).flatMap fun k => (roundWords k).reverse) s =
      (decryptLayer (ks.foldl decryptRound s)).xor k := by
  induction ks generalizing s with
  | nil => rfl
  | cons k' ks ih =>
    have hmore : ((ks ++ [k]).flatMap fun k => (roundWords k).reverse) ≠ [] := by simp [roundWords]
    rw [List.foldl_cons, ← ih]
    exact decryptRounds.eq_2 s k'.d k'.c k'.b k'.a _ hmore

section Block

variable (k₀ : Quad) (ks : List Quad) (k : Quad) (b : Block 16)

theorem encryptBlock_flatMap :
    encryptBlock ((k₀ :: (ks ++ [k])).flatMap roundWords) b =
      ((encryptLayer (ks.foldl encryptRound ((Quad.ofBlock (Word.loadBE 32) b).xor k₀))).xor k).toBlockBE :=
  congrArg Quad.toBlockBE (encryptRounds_flatMap ks k _)

theorem decryptBlock_flatMap :
    decryptBlock ((k₀ :: (ks ++ [k])).flatMap roundWords).reverse b =
      ((decryptLayer (ks.reverse.foldl decryptRound ((Quad.ofBlock (Word.loadBE 32) b).xor k))).xor k₀).toBlockBE := by
  have hreverse : ((k₀ :: (ks ++ [k])).flatMap roundWords).reverse =
      (k :: (ks.reverse ++ [k₀])).flatMap fun k => (roundWords k).reverse := by
    simp [List.reverse_flatMap, Function.comp_def]
  rw [hreverse]
  exact congrArg Quad.toBlockBE (decryptRounds_flatMap ks.reverse k₀ _)

theorem decryptBlock_encryptBlock :
    decryptBlock ((k₀ :: (ks ++ [k])).flatMap roundWords).reverse
      (encryptBlock ((k₀ :: (ks ++ [k])).flatMap roundWords) b) = b := by
  have h := foldl_reverse_undoes (R := fun t s => t = encryptLayer s) encryptRound decryptRound decryptRound_undoes ks
    (s := (Quad.ofBlock (Word.loadBE 32) b).xor k₀) rfl
  rw [decryptBlock_flatMap, encryptBlock_flatMap, Quad.ofBlock_toBlockBE, Quad.xor_xor_cancel, h,
    decryptLayer_encryptLayer, Quad.xor_xor_cancel, Quad.toBlockBE_ofBlock]

theorem encryptBlock_decryptBlock :
    encryptBlock ((k₀ :: (ks ++ [k])).flatMap roundWords)
      (decryptBlock ((k₀ :: (ks ++ [k])).flatMap roundWords).reverse b) = b := by
  have h := foldl_reverse_undoes (R := fun t s => t = decryptLayer s) decryptRound encryptRound encryptRound_undoes
    ks.reverse (s := (Quad.ofBlock (Word.loadBE 32) b).xor k) rfl
  rw [List.reverse_reverse] at h
  rw [encryptBlock_flatMap, decryptBlock_flatMap, Quad.ofBlock_toBlockBE, Quad.xor_xor_cancel, h,
    encryptLayer_decryptLayer, Quad.xor_xor_cancel, Quad.toBlockBE_ofBlock]

end Block

/-- Words in groups of four are the words of round keys. -/
theorem exists_flatMap_roundWords (n : Nat) {schedule : Schedule} (h : schedule.length = 4 * n) :
    ∃ ks : List Quad, ks.length = n ∧ ks.flatMap roundWords = schedule := by
  induction n generalizing schedule with
  | zero => exact ⟨[], rfl, (List.length_eq_zero_iff.mp h).symm⟩
  | succ n ih =>
    obtain ⟨a, rest, rfl⟩ := List.exists_cons_of_length_pos (l := schedule) (by omega)
    obtain ⟨b, rest, rfl⟩ := List.exists_cons_of_length_pos (l := rest) (by simp at h; omega)
    obtain ⟨c, rest, rfl⟩ := List.exists_cons_of_length_pos (l := rest) (by simp at h; omega)
    obtain ⟨d, rest, rfl⟩ := List.exists_cons_of_length_pos (l := rest) (by simp at h; omega)
    have hlength : rest.length = 4 * n := by simp at h; omega
    obtain ⟨ks, hn, hks⟩ := ih hlength
    exact ⟨⟨a, b, c, d⟩ :: ks, by rw [List.length_cons, hn], by rw [List.flatMap_cons, hks]; rfl⟩

/-- A schedule of two or more round keys makes a permutation whose two directions undo each other. -/
theorem inverse_of_length {n : Nat} {schedule : Schedule} (h : schedule.length = 4 * (n + 2)) :
    (permutation schedule).Inverse := by
  obtain ⟨keys, hn, rfl⟩ := exists_flatMap_roundWords (n + 2) h
  obtain ⟨k₀, rest, rfl⟩ := List.exists_cons_of_length_pos (l := keys) (by omega)
  obtain rfl | ⟨ks, k, rfl⟩ := List.eq_nil_or_concat rest
  · simp at hn
  · rw [List.concat_eq_append]
    exact ⟨decryptBlock_encryptBlock k₀ ks k, encryptBlock_decryptBlock k₀ ks k⟩

/-! ## Keys -/

theorem length_extend (size count : Nat) (words : Schedule) :
    (extend size count words).length = words.length + count := by
  induction count generalizing words with
  | zero => rfl
  | succ count ih =>
    rw [extend, ih, List.length_cons]
    omega

/-- Whatever its length, a key of `n` words is expanded to `n + 7` round keys. -/
theorem length_expand (key : Bytes) : (expand key).length = 4 * ((key.blocks 4).length + 5 + 2) := by
  simp only [expand, List.length_reverse, length_extend, List.length_map]
  omega

/-- **The two directions of AES undo each other** under every key. -/
theorem permutation_inverse (key : Bytes) : (permutation (expand key)).Inverse := inverse_of_length (length_expand key)

end Aes

end KeyWrapping
