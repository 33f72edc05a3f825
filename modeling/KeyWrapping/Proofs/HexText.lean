import KeyWrapping.Hex
import KeyWrapping.Proofs.Words

/-!
# What hex text stands for

Hex text is a text whose characters are digits, in either case, after the blanks have been left out where they may stand
(`Hex.kept`). It stands for the bytes whose halves are its digits in turn (`Hex.Denotes`), so it stands for something if
and only if it has an even number of characters that count and all of them are digits (`exists_denotes_iff`).

Reading finds these bytes, and nothing else (`scan_eq_ok_iff`, `decode_eq_ok_iff`), and what is written stands for what
it was written for (`denotes_encode`). On the way from one to the other the text is a string, which is harmless because
every character that is written fits one byte (`ofText_upperText`).
-/

namespace KeyWrapping.Hex

/-! ## Digits and blanks -/

/-- Whether a character may stand anywhere in hex text. -/
def isBlank (c : UInt8) : Bool := c ∈ [0x20, 0x09, 0x0A, 0x0D]

/-- The number that a digit stands for. -/
def digit? (c : UInt8) : Option Nat :=
  if 0x30 ≤ c ∧ c ≤ 0x39 then some (c.toNat - 0x30)
  else if 0x41 ≤ c ∧ c ≤ 0x46 then some (c.toNat - 0x41 + 10)
  else if 0x61 ≤ c ∧ c ≤ 0x66 then some (c.toNat - 0x61 + 10)
  else none

/-- The character in upper case. -/
def toUpper (c : UInt8) : UInt8 := if 0x61 ≤ c ∧ c ≤ 0x7A then c - 0x20 else c

/-- The digit that is written for a number below sixteen. -/
def written (letters : LetterCase) (n : Nat) : UInt8 := UInt8.ofBitVec (digit letters (BitVec.ofNat 8 n))

/-- What a computation over all characters shows at once: how each is read, and what is written for a digit. -/
theorem character (c : UInt8) :
    nibble c.toBitVec = ((digit? c).map (BitVec.ofNat 8)).getD (if isBlank c then blank else stray) ∧
      (isBlank c = true → digit? c = none) ∧ ∀ n ∈ digit? c, n < 16 ∧ toUpper c = written .upper n :=
  forall_byte (P := fun c =>
    nibble c.toBitVec = ((digit? c).map (BitVec.ofNat 8)).getD (if isBlank c then blank else stray) ∧
      (isBlank c = true → digit? c = none) ∧ ∀ n ∈ digit? c, n < 16 ∧ toUpper c = written .upper n)
    (by decide +kernel) c

theorem nibble_eq (c : UInt8) :
    nibble c.toBitVec = ((digit? c).map (BitVec.ofNat 8)).getD (if isBlank c then blank else stray) := (character c).1

theorem digit?_of_isBlank {c : UInt8} (h : isBlank c = true) : digit? c = none := (character c).2.1 h

theorem lt_of_digit? {c : UInt8} {n : Nat} (h : digit? c = some n) : n < 16 := ((character c).2.2 n h).1

theorem nibble_of_digit? {c : UInt8} {n : Nat} (h : digit? c = some n) : nibble c.toBitVec = BitVec.ofNat 8 n := by
  rw [nibble_eq, h]
  rfl

/-- The numbers below sixteen are told apart from what stands for no number. -/
theorem ofNat_ne_blank : ∀ n < 16, BitVec.ofNat 8 n ≠ blank ∧ ¬ 0x0F < BitVec.ofNat 8 n := by decide

theorem nibble_eq_blank_iff {c : UInt8} : nibble c.toBitVec = blank ↔ isBlank c = true := by
  cases hc : digit? c with
  | some n =>
    have hblank : isBlank c ≠ true := fun h => by cases (digit?_of_isBlank h).symm.trans hc
    rw [nibble_of_digit? hc]
    exact iff_of_false (ofNat_ne_blank n (lt_of_digit? hc)).1 hblank
  | none =>
    rw [nibble_eq, hc]
    cases isBlank c <;> decide

theorem lt_nibble_iff {c : UInt8} : 0x0F < nibble c.toBitVec ↔ digit? c = none := by
  cases hc : digit? c with
  | some n =>
    rw [nibble_of_digit? hc]
    exact iff_of_false (ofNat_ne_blank n (lt_of_digit? hc)).2 (by simp)
  | none =>
    rw [nibble_eq, hc]
    cases isBlank c <;> decide

theorem toUpper_of_digit? {c : UInt8} {n : Nat} (h : digit? c = some n) : toUpper c = written .upper n :=
  ((character c).2.2 n h).2

theorem digit?_written (letters : LetterCase) {n : Nat} (h : n < 16) : digit? (written letters n) = some n := by
  have hall : ∀ n < 16, digit? (written letters n) = some n := by
    cases letters <;> decide
  exact hall n h

/-- The two halves of every byte. -/
def halves (bytes : Bytes) : List Nat := bytes.flatMap fun b => [b.toNat / 16, b.toNat % 16]

@[simp] theorem length_halves (bytes : Bytes) : (halves bytes).length = 2 * bytes.length := by
  induction bytes with
  | nil => rfl
  | cons b bytes ih =>
    rw [halves, List.flatMap_cons, List.length_append, ← halves, ih, List.length_cons]
    exact (Nat.add_comm _ _)

theorem lt_of_mem_halves {bytes : Bytes} {n : Nat} (h : n ∈ halves bytes) : n < 16 := by
  obtain ⟨b, -, hn⟩ := List.mem_flatMap.mp h
  have hb := b.toNat_lt
  simp only [List.mem_cons, List.not_mem_nil, or_false] at hn
  omega

/-- The byte with two halves. -/
theorem toNat_join {m n : Nat} (hm : m < 16) (hn : n < 16) :
    (UInt8.ofBitVec (BitVec.ofNat 8 m <<< 4 ||| BitVec.ofNat 8 n)).toNat = 16 * m + n := by
  rw [UInt8.toNat_ofBitVec, BitVec.toNat_or, BitVec.toNat_shiftLeft, BitVec.toNat_ofNat, BitVec.toNat_ofNat,
    Nat.shiftLeft_eq, Nat.mod_eq_of_lt (by omega), Nat.mod_eq_of_lt (by omega), Nat.mod_eq_of_lt (by omega),
    Nat.mul_comm]
  exact (Nat.two_pow_add_eq_or_of_lt hn m).symm

theorem join_eq_iff {m n : Nat} (hm : m < 16) (hn : n < 16) (b : UInt8) :
    UInt8.ofBitVec (BitVec.ofNat 8 m <<< 4 ||| BitVec.ofNat 8 n) = b ↔ m = b.toNat / 16 ∧ n = b.toNat % 16 := by
  rw [← UInt8.toNat_inj, toNat_join hm hn]
  omega

/-! ## Denotation -/

/-- The characters that count: all of them, or all but the blanks. -/
def kept (skipBlanks : Bool) (text : Bytes) : Bytes := text.filter fun c => !(skipBlanks && isBlank c)

/-- The text is hex for the bytes. -/
def Denotes (skipBlanks : Bool) (text bytes : Bytes) : Prop :=
  (kept skipBlanks text).map digit? = (halves bytes).map some

/-- The text is hex for something. -/
structure IsText (skipBlanks : Bool) (text : Bytes) : Prop where
  even : (kept skipBlanks text).length % 2 = 0
  digits : ∀ c ∈ kept skipBlanks text, (digit? c).isSome

variable {skipBlanks : Bool}

theorem kept_cons_of_skipped {c : UInt8} (h : (skipBlanks && isBlank c) = true) (text : Bytes) :
    kept skipBlanks (c :: text) = kept skipBlanks text :=
  List.filter_cons_of_neg (by simp [h])

theorem kept_cons_of_kept {c : UInt8} (h : (skipBlanks && isBlank c) = false) (text : Bytes) :
    kept skipBlanks (c :: text) = c :: kept skipBlanks text :=
  List.filter_cons_of_pos (by simp [h])

theorem not_skipped_of_digit? {c : UInt8} {n : Nat} (h : digit? c = some n) : (skipBlanks && isBlank c) = false := by
  cases hc : isBlank c with
  | false => exact Bool.and_false _
  | true => cases (digit?_of_isBlank hc).symm.trans h

theorem length_of_denotes {text bytes : Bytes} (h : Denotes skipBlanks text bytes) :
    bytes.length ≤ text.length / 2 := by
  have hlength := congrArg List.length h
  rw [List.length_map, List.length_map, length_halves] at hlength
  have hkept : (kept skipBlanks text).length ≤ text.length := List.length_filter_le _ _
  omega

theorem exists_halves : ∀ digits : List Nat, digits.length % 2 = 0 → (∀ n ∈ digits, n < 16) →
    ∃ bytes, halves bytes = digits
  | [], _, _ => ⟨[], rfl⟩
  | [_], h, _ => by simp at h
  | m :: n :: digits, h, hlt => by
    obtain ⟨bytes, hbytes⟩ := exists_halves digits (by rw [← h]; exact (Nat.add_mod_right _ 2).symm)
      (fun k hk => hlt k (List.mem_cons_of_mem _ (List.mem_cons_of_mem _ hk)))
    have hm := hlt m List.mem_cons_self
    have hn := hlt n (List.mem_cons_of_mem _ List.mem_cons_self)
    obtain ⟨hhigh, hlow⟩ := (join_eq_iff hm hn _).mp rfl
    refine ⟨UInt8.ofBitVec (BitVec.ofNat 8 m <<< 4 ||| BitVec.ofNat 8 n) :: bytes, ?_⟩
    rw [halves, List.flatMap_cons, ← halves, hbytes, ← hhigh, ← hlow]
    rfl

/-- Text stands for something if and only if it has an even number of characters that count, all of them digits. -/
theorem exists_denotes_iff {text : Bytes} : (∃ bytes, Denotes skipBlanks text bytes) ↔ IsText skipBlanks text := by
  constructor
  · rintro ⟨bytes, h⟩
    constructor
    · have hlength := congrArg List.length h
      rw [List.length_map, List.length_map, length_halves] at hlength
      omega
    · intro c hc
      have hmem : digit? c ∈ (halves bytes).map some := h ▸ List.mem_map_of_mem hc
      obtain ⟨n, -, hn⟩ := List.mem_map.mp hmem
      rw [← hn]
      rfl
  · rintro ⟨heven, hdigits⟩
    have hsome : (kept skipBlanks text).map digit? = ((kept skipBlanks text).filterMap digit?).map some := by
      generalize kept skipBlanks text = cs at hdigits
      clear heven
      induction cs with
      | nil => rfl
      | cons c cs ih =>
        obtain ⟨n, hn⟩ := Option.isSome_iff_exists.mp (hdigits c List.mem_cons_self)
        rw [List.map_cons, hn, List.filterMap_cons_some hn, List.map_cons,
          ih fun d hd => hdigits d (List.mem_cons_of_mem _ hd)]
    have hlength := congrArg List.length hsome
    rw [List.length_map, List.length_map] at hlength
    obtain ⟨bytes, hbytes⟩ := exists_halves ((kept skipBlanks text).filterMap digit?) (hlength ▸ heven) (by
      intro n hn
      obtain ⟨c, -, hc⟩ := List.mem_filterMap.mp hn
      exact lt_of_digit? hc)
    exact ⟨bytes, by rw [Denotes, hsome, hbytes]⟩

/-! ## Reading -/

section Scan

variable {c : UInt8} {n : Nat} (room : Nat) (pending : Option (BitVec 8)) (text : Bytes)

theorem scan_skipped (h : (skipBlanks && isBlank c) = true) :
    scan skipBlanks room pending (c :: text) = scan skipBlanks room pending text := by
  obtain ⟨hskip, hblank⟩ := Bool.and_eq_true_iff.mp h
  rw [scan.eq_def]
  exact if_pos ⟨nibble_eq_blank_iff.mpr hblank, hskip⟩

/-- A character is not taken for a blank to be skipped unless it is one. -/
theorem not_blank_of_kept (h : (skipBlanks && isBlank c) = false) : ¬ (nibble c.toBitVec = blank ∧ skipBlanks) := by
  rintro ⟨hblank, hskip⟩
  rw [hskip, nibble_eq_blank_iff.mp hblank] at h
  cases h

theorem scan_stray (hkept : (skipBlanks && isBlank c) = false) (hdigit : digit? c = none) :
    scan skipBlanks room pending (c :: text) = ([], some (.strayCharacter c)) := by
  rw [scan.eq_def]
  exact (if_neg (not_blank_of_kept hkept)).trans (if_pos (lt_nibble_iff.mpr hdigit))

theorem scan_digit (h : digit? c = some n) :
    scan skipBlanks room pending (c :: text) =
      match pending, room with
      | none, _ => scan skipBlanks room (some (BitVec.ofNat 8 n)) text
      | some _, 0 => ([], some .noRoom)
      | some high, room + 1 =>
        let rest := scan skipBlanks room none text
        (UInt8.ofBitVec (high <<< 4 ||| BitVec.ofNat 8 n) :: rest.1, rest.2) := by
  obtain ⟨hblank, hle⟩ := ofNat_ne_blank n (lt_of_digit? h)
  rw [scan.eq_def]
  simp only [nibble_of_digit? h]
  exact (if_neg fun h => hblank h.1).trans (if_neg hle)

end Scan

/-- Reading finds no problem and gives these bytes if and only if they are what the text stands for, after the digit
that waits for its partner, and there is room for them. -/
theorem scan_eq_ok_iff {pending : Option Nat} (hp : ∀ n ∈ pending, n < 16) {room : Nat} {text bytes : Bytes} :
    scan skipBlanks room (pending.map (BitVec.ofNat 8)) text = (bytes, none) ↔
      pending.toList.map some ++ (kept skipBlanks text).map digit? = (halves bytes).map some ∧ bytes.length ≤ room := by
  induction text generalizing pending room bytes with
  | nil =>
    cases pending with
    | none => cases bytes <;> simp [scan, kept, halves]
    | some n =>
      refine iff_of_false (by simp [scan]) ?_
      rintro ⟨h, -⟩
      have hlength := congrArg List.length h
      simp [kept] at hlength
      omega
  | cons c text ih =>
    cases hskip : skipBlanks && isBlank c with
    | true => rw [scan_skipped _ _ _ hskip, kept_cons_of_skipped hskip, ih hp]
    | false =>
      rw [kept_cons_of_kept hskip, List.map_cons]
      cases hc : digit? c with
      | none =>
        rw [scan_stray _ _ _ hskip hc]
        refine iff_of_false (by simp) ?_
        rintro ⟨h, -⟩
        have hmem : none ∈ (halves bytes).map some := h ▸ List.mem_append_right _ List.mem_cons_self
        simp at hmem
      | some n =>
        have hn := lt_of_digit? hc
        rw [scan_digit _ _ _ hc]
        cases pending with
        | none => exact @ih (some n) (by simpa using hn) room bytes
        | some m =>
          have hm : m < 16 := hp m rfl
          cases room with
          | zero => cases bytes <;> simp [halves]
          | succ room =>
            cases bytes with
            | nil => simp [halves]
            | cons b bytes =>
              have hrest := @ih none (by simp) room bytes
              rw [Option.map_none, Prod.ext_iff] at hrest
              simp only [Option.map_some, Prod.mk.injEq, List.cons.injEq, join_eq_iff hm hn, and_assoc, hrest]
              simp [halves, and_assoc]

/-- Room for half as many bytes as there are characters is room enough. -/
theorem scan_half_eq_ok_iff {text bytes : Bytes} :
    scan skipBlanks (text.length / 2) none text = (bytes, none) ↔ Denotes skipBlanks text bytes :=
  (@scan_eq_ok_iff _ none (by simp) _ _ _).trans (and_iff_left_of_imp length_of_denotes)

/-- Text is decoded to what it stands for. -/
theorem decode_eq_ok_iff {text bytes : Bytes} : decode skipBlanks text = .ok bytes ↔ Denotes skipBlanks text bytes := by
  rw [← scan_half_eq_ok_iff, decode]
  cases scan skipBlanks (text.length / 2) none text with
  | mk bytes problem => cases problem <;> simp

/-! ## Writing -/

/-- What is written for bytes are the digits for their halves. -/
theorem encode_eq (letters : LetterCase) (bytes : Bytes) :
    encode letters bytes = (halves bytes).map (written letters) := by
  rw [encode, halves, List.map_flatMap]
  congr 1
  funext b
  have hb := b.toNat_lt
  have hhigh : b.toBitVec >>> 4 = BitVec.ofNat 8 (b.toNat / 16) := by
    apply BitVec.eq_of_toNat_eq
    rw [BitVec.toNat_ushiftRight, BitVec.toNat_ofNat, Nat.mod_eq_of_lt (by omega)]
    exact Nat.shiftRight_eq_div_pow b.toNat 4
  have hlow : b.toBitVec &&& 0x0F = BitVec.ofNat 8 (b.toNat % 16) := by
    apply BitVec.eq_of_toNat_eq
    rw [BitVec.toNat_and, BitVec.toNat_ofNat, Nat.mod_eq_of_lt (by omega)]
    exact Nat.and_two_pow_sub_one_eq_mod b.toNat 4
  rw [hhigh, hlow]
  rfl

/-- What is written for bytes stands for them, whether or not blanks are to be skipped. -/
theorem denotes_encode (letters : LetterCase) (bytes : Bytes) : Denotes skipBlanks (encode letters bytes) bytes := by
  have hdigit : ∀ n ∈ halves bytes, digit? (written letters n) = some n :=
    fun n hn => digit?_written letters (lt_of_mem_halves hn)
  have hkept : kept skipBlanks (encode letters bytes) = encode letters bytes := by
    refine List.filter_eq_self.mpr fun c hc => ?_
    rw [encode_eq] at hc
    obtain ⟨n, hn, rfl⟩ := List.mem_map.mp hc
    rw [not_skipped_of_digit? (hdigit n hn)]
    rfl
  rw [Denotes, hkept, encode_eq, List.map_map]
  exact List.map_congr_left hdigit

/-- What is written in upper case for the bytes that text stands for is the text in upper case. -/
theorem encode_upper_of_denotes {text bytes : Bytes} (h : Denotes skipBlanks text bytes) :
    encode .upper bytes = (kept skipBlanks text).map toUpper := by
  rw [encode_eq]
  rw [Denotes] at h
  generalize kept skipBlanks text = cs, halves bytes = digits at h
  induction cs generalizing digits with
  | nil =>
    rw [List.map_eq_nil_iff.mp h.symm]
    rfl
  | cons c cs ih =>
    obtain ⟨n, digits, rfl⟩ : ∃ n rest, digits = n :: rest := by
      cases digits with
      | nil => cases h
      | cons n rest => exact ⟨n, rest, rfl⟩
    obtain ⟨hc, hrest⟩ := List.cons.inj h
    rw [List.map_cons, List.map_cons, toUpper_of_digit? hc, ih _ hrest]

/-! ## Strings -/

theorem ofText_ofList (cs : List Char) : Bytes.ofText (String.ofList cs) = cs.flatMap String.utf8EncodeChar := by
  rw [Bytes.ofText, String.toUTF8_eq_toByteArray, String.toByteArray_ofList, List.utf8Encode, List.data_toByteArray]

/-- A character that fits seven bits is one byte. -/
theorem utf8EncodeChar_ofNat {b : UInt8} (h : b < 0x80) : String.utf8EncodeChar (Char.ofNat b.toNat) = [b] := by
  have hb : b.toNat < 128 := UInt8.lt_iff_toNat_lt.mp h
  have hval : (Char.ofNat b.toNat).val = b.toUInt32 := by
    rw [Char.ofNat, dif_pos (Or.inl (by omega))]
    rfl
  have hsize : (Char.ofNat b.toNat).utf8Size = 1 := by
    rw [Char.utf8Size_eq_one_iff, hval, UInt32.le_iff_toNat_le, UInt8.toNat_toUInt32]
    exact Nat.le_of_lt_succ hb
  rw [String.utf8EncodeChar_eq_singleton hsize, hval, UInt8.toUInt8_toUInt32]

theorem ofText_asText {text : Bytes} (h : ∀ b ∈ text, b < 0x80) : Bytes.ofText (asText text) = text := by
  rw [asText, ofText_ofList]
  induction text with
  | nil => rfl
  | cons b text ih =>
    have hrest := ih fun d hd => h d (List.mem_cons_of_mem _ hd)
    rw [List.map_cons, List.flatMap_cons, utf8EncodeChar_ofNat (h b List.mem_cons_self), hrest]
    rfl

/-- The word is hex for the bytes, with blanks wherever it pleases. -/
def Spells (word : String) (bytes : Bytes) : Prop := Denotes true (Bytes.ofText word) bytes

/-- The word is hex for something: without its blanks, it is an even number of digits. -/
def IsHex (word : String) : Prop := IsText true (Bytes.ofText word)

theorem exists_spells_iff {word : String} : (∃ bytes, Spells word bytes) ↔ IsHex word := exists_denotes_iff

theorem lt_of_mem_encode {letters : LetterCase} {bytes : Bytes} {c : UInt8} (h : c ∈ encode letters bytes) :
    c < 0x80 := by
  have hall : ∀ n < 16, written letters n < 0x80 := by
    cases letters <;> decide
  rw [encode_eq] at h
  obtain ⟨n, hn, rfl⟩ := List.mem_map.mp h
  exact hall n (lt_of_mem_halves hn)

/-- As a string, upper-case hex is still hex for the bytes. -/
theorem spells_upperText (bytes : Bytes) : Spells (upperText bytes) bytes := by
  rw [Spells, upperText, ofText_asText fun _ => lt_of_mem_encode]
  exact denotes_encode .upper bytes

/-- The upper-case digits. -/
def upperDigits : List Char := "0123456789ABCDEF".toList

/-- The text is upper-case hex for the bytes, with nothing in between. -/
def IsUpper (text : String) (bytes : Bytes) : Prop := Spells text bytes ∧ ∀ c ∈ text.toList, c ∈ upperDigits

theorem of_mem_upperDigits {c : Char} (h : c ∈ upperDigits) : String.utf8EncodeChar c = [UInt8.ofNat c.toNat] ∧
    isBlank (UInt8.ofNat c.toNat) = false ∧ Char.ofNat (toUpper (UInt8.ofNat c.toNat)).toNat = c := by
  have hall : (upperDigits.all fun c => String.utf8EncodeChar c = [UInt8.ofNat c.toNat] ∧
      isBlank (UInt8.ofNat c.toNat) = false ∧ Char.ofNat (toUpper (UInt8.ofNat c.toNat)).toNat = c) = true := by
    decide
  exact of_decide_eq_true (List.all_eq_true.mp hall c h)

theorem written_mem_upperDigits {n : Nat} (h : n < 16) : Char.ofNat (written .upper n).toNat ∈ upperDigits := by
  have hall : ∀ n < 16, Char.ofNat (written .upper n).toNat ∈ upperDigits := by decide
  exact hall n h

theorem map_toUpper_kept {cs : List Char} (h : ∀ c ∈ cs, c ∈ upperDigits) :
    ((kept true (cs.flatMap String.utf8EncodeChar)).map toUpper).map (fun b => Char.ofNat b.toNat) = cs := by
  induction cs with
  | nil => rfl
  | cons c cs ih =>
    obtain ⟨hb, hblank, hc⟩ := of_mem_upperDigits (h c List.mem_cons_self)
    have hkept : (true && isBlank (UInt8.ofNat c.toNat)) = false := hblank
    rw [List.flatMap_cons, hb, List.singleton_append, kept_cons_of_kept hkept, List.map_cons, List.map_cons, hc,
      ih fun d hd => h d (List.mem_cons_of_mem _ hd)]

/-- There is one upper-case hex text for the bytes, and it is what is written for them. -/
theorem isUpper_iff {text : String} {bytes : Bytes} : IsUpper text bytes ↔ upperText bytes = text := by
  constructor
  · rintro ⟨hspells, hdigits⟩
    rw [upperText, encode_upper_of_denotes hspells, asText, ← String.ofList_toList (s := text), ofText_ofList,
      map_toUpper_kept hdigits]
  · rintro rfl
    refine ⟨spells_upperText bytes, fun c hc => ?_⟩
    rw [upperText, asText, encode_eq, List.map_map, String.toList_ofList] at hc
    obtain ⟨n, hn, rfl⟩ := List.mem_map.mp hc
    exact written_mem_upperDigits (lt_of_mem_halves hn)

/-- A word that begins with a dash is not hex. -/
theorem not_isHex_dash (cs : List Char) : ¬ IsHex (String.ofList ('-' :: cs)) := by
  intro h
  rw [IsHex, ofText_ofList, List.flatMap_cons] at h
  have hdash := h.digits 0x2D (List.mem_filter.mpr ⟨List.mem_cons_self, by decide⟩)
  cases hdash

theorem head?_of_isHex {word : String} (h : IsHex word) : word.toList.head? ≠ some '-' := by
  intro hhead
  obtain ⟨cs, hcs⟩ := List.head?_eq_some_iff.mp hhead
  rw [← String.ofList_toList (s := word), hcs] at h
  exact not_isHex_dash cs h

end KeyWrapping.Hex
