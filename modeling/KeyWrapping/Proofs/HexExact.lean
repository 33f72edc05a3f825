import KeyWrapping.Proofs.HexReading

/-!
# Hex text is read exactly

Reading into fresh memory of half as many bytes as the text has characters cannot run out of room
(`Hex.Problem.First.ne_noRoom`), whatever the memory held (`Hex.decodeFresh_eq`). So a text that is not hex is refused
for its first character that has no place in hex text, or else for a missing digit (`Hex.decode_eq_error_iff`), and the
message tells which character it is (`Hex.shown_injective`). With what is known of texts that are hex, reading is
settled for every text (`Hex.decode_exact`).
-/

namespace KeyWrapping.Hex

variable {skipBlanks : Bool}

/-! ## What a text is refused for -/

/-- The first character that counts and is no digit. -/
def offending? (skipBlanks : Bool) (text : Bytes) : Option UInt8 :=
  (kept skipBlanks text).find? fun c => (digit? c).isNone

/-- What is said of a text that is not hex. -/
def complaint (skipBlanks : Bool) (text : Bytes) : String :=
  match offending? skipBlanks text with
  | some c => s!"hex_decode: invalid character '{shown c}'"
  | none => "hex_decode: input did not have full bytes"

theorem kept_append (front back : Bytes) :
    kept skipBlanks (front ++ back) = kept skipBlanks front ++ kept skipBlanks back :=
  List.filter_append front back

/-- Where no problem comes up, all characters that count are digits. -/
theorem digits_of_noneBefore {room : Nat} {text front : Bytes} (h : Problem.NoneBefore skipBlanks room text front)
    (hfront : front <+: text) : ∀ c ∈ kept skipBlanks front, ¬ (digit? c).isNone := by
  intro c hc hdigit
  obtain ⟨hmem, hkept⟩ := List.mem_filter.mp hc
  obtain ⟨before, behind, rfl⟩ := List.append_of_mem hmem
  obtain ⟨back, rfl⟩ := hfront
  have hlt : before.length < (before ++ c :: behind).length := by
    rw [List.length_append, List.length_cons]
    omega
  rw [Bool.not_eq_true'] at hkept
  exact h (List.append_assoc before (c :: behind) back) hlt (.stray hkept (Option.isNone_iff_eq_none.mp hdigit))

theorem offending?_eq_none {text : Bytes} (h : ∀ c ∈ kept skipBlanks text, ¬ (digit? c).isNone) :
    offending? skipBlanks text = none := List.find?_eq_none.mpr h

theorem offending?_append {front behind : Bytes} {c : UInt8} (h : ∀ d ∈ kept skipBlanks front, ¬ (digit? d).isNone)
    (hkept : (skipBlanks && isBlank c) = false) (hdigit : digit? c = none) :
    offending? skipBlanks (front ++ c :: behind) = some c := by
  have hnone : (digit? c).isNone := by rw [hdigit]; rfl
  rw [offending?, kept_append, List.find?_append, List.find?_eq_none.mpr h, Option.none_or, kept_cons_of_kept hkept]
  exact List.find?_cons_of_pos hnone

/-! ## Room enough -/

/-- The contents of fresh memory do not matter. -/
theorem decodeFresh_eq (skipBlanks : Bool) (text : Bytes) (memory : Block (text.length / 2)) :
    decodeFresh skipBlanks text memory = decode skipBlanks text := by
  have hlength : memory.toList.length = text.length / 2 := Vector.length_toList
  rw [decodeFresh, decodeInto, hlength, decode]
  rcases scan skipBlanks (text.length / 2) none text with ⟨bytes, problem⟩
  cases problem with
  | none => exact congrArg Except.ok (Bytes.take_overwrite memory.toList bytes)
  | some p => rfl

/-- With room for half as many bytes as there are characters, no pair of digits is one too many. -/
theorem Problem.First.ne_noRoom {text front : Bytes} {p : Problem}
    (h : p.First skipBlanks (text.length / 2) text front) : p ≠ .noRoom := by
  rintro rfl
  obtain ⟨behind, htext, hat⟩ := h.exists_at
  cases hat with
  | @noRoom behind c hdigit hpairs =>
    have hdigits : (digitsIn front).length ≤ front.length := List.length_filterMap_le _ _
    have hlength := congrArg List.length htext
    rw [List.length_append, List.length_cons] at hlength
    omega

/-- A text that is not hex is refused with the complaint about it. -/
theorem decode_of_not_isText {text : Bytes} (h : ¬ IsText skipBlanks text) :
    decode skipBlanks text = .error (.invalidArgument (complaint skipBlanks text)) := by
  let memory : Block (text.length / 2) := .zero
  have hmemory : memory.toList.length = text.length / 2 := Vector.length_toList
  obtain ⟨front, hreport⟩ := exists_report skipBlanks text memory.toList
  have hfresh : decode skipBlanks text = (decodeInto skipBlanks text memory.toList).1.map _ :=
    (decodeFresh_eq skipBlanks text memory).symm
  rcases hreport.outcome with ⟨p, hfirst, hout⟩ | ⟨-, -, hout⟩
  · have hdigits := digits_of_noneBefore hfirst.none_before hreport.begins
    have hroom : p ≠ .noRoom := (hmemory ▸ hfirst).ne_noRoom
    obtain ⟨behind, htext, hat⟩ := hfirst.exists_at
    rw [hfresh, hout]
    cases hat with
    | @stray behind c hkept hdigit =>
      have hoffending : offending? skipBlanks text = some c := by
        rw [htext]
        exact offending?_append hdigits hkept hdigit
      rw [complaint, hoffending]
      rfl
    | noRoom => exact absurd rfl hroom
    | missingDigit =>
      rw [List.append_nil] at htext
      rw [complaint, offending?_eq_none (htext ▸ hdigits)]
      rfl
  · rw [hout] at hfresh
    exact absurd (exists_denotes_iff.mp ⟨_, decode_eq_ok_iff.mp hfresh⟩) h

theorem decode_eq_error_iff {text : Bytes} {e : Error} : decode skipBlanks text = .error e ↔
    ¬ IsText skipBlanks text ∧ e = .invalidArgument (complaint skipBlanks text) := by
  constructor
  · intro he
    have htext : ¬ IsText skipBlanks text := by
      intro htext
      obtain ⟨bytes, hbytes⟩ := exists_denotes_iff.mpr htext
      cases (decode_eq_ok_iff.mpr hbytes).symm.trans he
    exact ⟨htext, Except.error.inj (he.symm.trans (decode_of_not_isText htext))⟩
  · rintro ⟨htext, rfl⟩
    exact decode_of_not_isText htext

/-! ## Messages -/

/-- Whether a character is shown as itself. -/
def IsPrintable (c : UInt8) : Prop := 0x20 ≤ c ∧ c < 0x7F

theorem toList_shown_of_printable {c : UInt8} (h : IsPrintable c) : (shown c).toList = [Char.ofNat c.toNat] := by
  have hshown : shown c = asText [c] := if_pos h
  rw [hshown, asText, String.toList_ofList]
  rfl

theorem toList_shown_of_not_printable {c : UInt8} (h : ¬ IsPrintable c) :
    (shown c).toList = "0x".toList ++ (upperText [c]).toList := by
  have hshown : shown c = "0x" ++ upperText [c] := if_neg h
  rw [hshown, String.toList_append]

theorem utf8EncodeChar_of_printable {c : UInt8} (h : IsPrintable c) :
    String.utf8EncodeChar (Char.ofNat c.toNat) = [c] :=
  utf8EncodeChar_ofNat (UInt8.lt_trans h.2 (by decide))

/-- A character is shown in one place or in more, and in either way no other is shown like it. -/
theorem shown_injective {c d : UInt8} (h : shown c = shown d) : c = d := by
  have hlist : (shown c).toList = (shown d).toList := congrArg String.toList h
  by_cases hc : IsPrintable c <;> by_cases hd : IsPrintable d
  · rw [toList_shown_of_printable hc, toList_shown_of_printable hd] at hlist
    have hchar := congrArg String.utf8EncodeChar (List.head_eq_of_cons_eq hlist)
    rw [utf8EncodeChar_of_printable hc, utf8EncodeChar_of_printable hd] at hchar
    exact List.head_eq_of_cons_eq hchar
  · rw [toList_shown_of_printable hc, toList_shown_of_not_printable hd] at hlist
    cases congrArg List.length hlist
  · rw [toList_shown_of_not_printable hc, toList_shown_of_printable hd] at hlist
    cases congrArg List.length hlist
  · rw [toList_shown_of_not_printable hc, toList_shown_of_not_printable hd] at hlist
    have htext : upperText [c] = upperText [d] := String.toList_inj.mp (List.append_cancel_left hlist)
    have hc' := decode_eq_ok_iff.mpr (spells_upperText [c])
    have hd' := decode_eq_ok_iff.mpr (spells_upperText [d])
    rw [htext] at hc'
    exact List.head_eq_of_cons_eq (Except.ok.inj (hc'.symm.trans hd'))

theorem nul_notMem_shown (c : UInt8) : '\x00' ∉ (shown c).toList := by
  intro hmem
  by_cases hc : IsPrintable c
  · rw [toList_shown_of_printable hc, List.mem_singleton] at hmem
    have hbyte := utf8EncodeChar_of_printable hc
    rw [← hmem] at hbyte
    have hzero : 0 = c := List.head_eq_of_cons_eq hbyte
    rw [← hzero] at hc
    exact absurd hc.1 (by decide)
  · have hdigits : IsUpper (upperText [c]) [c] := isUpper_iff.mpr rfl
    rw [toList_shown_of_not_printable hc] at hmem
    rcases List.mem_append.mp hmem with hmem | hmem
    · exact absurd hmem (by decide)
    · exact absurd (hdigits.2 _ hmem) (by decide)

/-- What is said of a text is said to its end. -/
theorem nul_notMem_complaint (text : Bytes) : '\x00' ∉ (complaint skipBlanks text).toList := by
  rw [complaint]
  cases offending? skipBlanks text with
  | none => decide
  | some c =>
    show '\x00' ∉ ("hex_decode: invalid character '" ++ shown c ++ "'").toList
    rw [String.toList_append, String.toList_append, List.mem_append, List.mem_append]
    rintro ((hmem | hmem) | hmem)
    · exact absurd hmem (by decide)
    · exact nul_notMem_shown c hmem
    · exact absurd hmem (by decide)

theorem complaint_ne_noRoom (text : Bytes) : complaint skipBlanks text ≠ Problem.noRoom.message := by
  rw [complaint]
  cases offending? skipBlanks text with
  | none => decide
  | some c =>
    show "hex_decode: invalid character '" ++ shown c ++ "'" ≠ Problem.noRoom.message
    intro h
    have htake := congrArg (fun message => message.toList.take 13) h
    simp only [String.toList_append] at htake
    rw [List.append_assoc, List.take_append_of_le_length (by decide)] at htake
    exact absurd htake (by decide)

/-! ## Every text -/

/-- What reading a text comes to, with blanks skipped or not. -/
structure Exact (skipBlanks : Bool) (text : Bytes) : Prop where
  /-- It gives something if and only if the characters that count are digits in an even number. -/
  exists_ok_iff : (∃ bytes, decode skipBlanks text = .ok bytes) ↔ IsText skipBlanks text
  /-- It gives the bytes that are written, in upper case, as these characters. -/
  ok_iff : ∀ bytes, decode skipBlanks text = .ok bytes ↔
    IsText skipBlanks text ∧ encode .upper bytes = (kept skipBlanks text).map toUpper
  /-- Otherwise it complains of the first character that is no digit, or else of a missing digit. -/
  error_iff : ∀ e, decode skipBlanks text = .error e ↔
    ¬ IsText skipBlanks text ∧ e = .invalidArgument (complaint skipBlanks text)
  message_eq : ∀ e, decode skipBlanks text = .error e → e.message = complaint skipBlanks text
  /-- It does not run out of room. -/
  message_ne : ∀ e, decode skipBlanks text = .error e → e.message ≠ "hex_decode: output buffer too small"
  /-- It is the same in whatever memory it is done. -/
  fresh : ∀ memory, decodeFresh skipBlanks text memory = decode skipBlanks text

/-- A text is hex for what is written as the text is. -/
theorem decode_eq_ok_iff_encode {text bytes : Bytes} : decode skipBlanks text = .ok bytes ↔
    IsText skipBlanks text ∧ encode .upper bytes = (kept skipBlanks text).map toUpper := by
  constructor
  · intro h
    have hdenotes := decode_eq_ok_iff.mp h
    exact ⟨exists_denotes_iff.mp ⟨bytes, hdenotes⟩, encode_upper_of_denotes hdenotes⟩
  · rintro ⟨htext, hencode⟩
    obtain ⟨bytes', hdenotes⟩ := exists_denotes_iff.mpr htext
    have hread : decode skipBlanks (encode .upper bytes) = decode skipBlanks (encode .upper bytes') := by
      rw [hencode, encode_upper_of_denotes hdenotes]
    rw [decode_eq_ok_iff.mpr (denotes_encode .upper bytes),
      decode_eq_ok_iff.mpr (denotes_encode .upper bytes')] at hread
    rw [Except.ok.inj hread]
    exact decode_eq_ok_iff.mpr hdenotes

/-- **Hex text is read exactly**: what is written is read back, in either case and with blanks skipped or not; every
other text is settled too; and no two characters are complained of in the same words. -/
theorem decode_exact (skipBlanks : Bool) :
    (∀ letters bytes, decode skipBlanks (encode letters bytes) = .ok bytes) ∧
      (∀ text, Exact skipBlanks text) ∧ ∀ c d, shown c = shown d → c = d := by
  refine ⟨fun letters bytes => decode_eq_ok_iff.mpr (denotes_encode letters bytes), ?_, fun _ _ => shown_injective⟩
  intro text
  have hmessage : ∀ e, decode skipBlanks text = .error e → e.message = complaint skipBlanks text := by
    intro e he
    obtain ⟨-, rfl⟩ := decode_eq_error_iff.mp he
    exact Message.untilNul_eq (nul_notMem_complaint text)
  constructor
  case exists_ok_iff => exact (exists_congr fun _ => decode_eq_ok_iff).trans exists_denotes_iff
  case ok_iff => exact fun _ => decode_eq_ok_iff_encode
  case error_iff => exact fun _ => decode_eq_error_iff
  case message_eq => exact hmessage
  case message_ne =>
    intro e he
    rw [hmessage e he]
    exact complaint_ne_noRoom text
  case fresh => exact decodeFresh_eq skipBlanks text

end KeyWrapping.Hex
