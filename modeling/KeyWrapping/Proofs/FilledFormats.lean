import KeyWrapping.Message.Stream
import KeyWrapping.Proofs.HexText

/-!
# Filled formats

A format is cut at its markers into pieces, always at the first marker that is left (`CutInto`), and this can be done in
one way only (`exists_cutInto`, `CutInto.unique`). Filling it writes the pieces one after the other, with an argument
behind each but the last as long as there are arguments, and then the rest of the format as it is (`fillBytes_eq`).
Arguments are never looked at: one that looks like a marker makes no difference to the others (`exists_fillBytes_eq`).

On texts this is what filling character by character makes (`ofText_fill`), for no byte of another character is the byte
of a brace (`eq_of_mem_utf8EncodeChar`). The words for errors are such texts (`Error.wording_eq_fill`), and
`filled_by_pieces` puts all of this together.
-/

namespace KeyWrapping

namespace Message

variable {format piece rest : Bytes} {pieces : List Bytes}

/-! ## The first marker -/

/-- The text begins with a marker at the place. -/
def MarkerAt (format : Bytes) (i : Nat) : Prop := marker <+: format.drop i

theorem MarkerAt.lt {i : Nat} (h : MarkerAt format i) : i < format.length := by
  have hlength := List.IsPrefix.length_le h
  simp [marker] at hlength
  omega

theorem markerAt?_eq_some_iff {i : Nat} :
    markerAt? format = some i ↔ MarkerAt format i ∧ ∀ j < i, ¬ MarkerAt format j := by
  unfold markerAt? MarkerAt
  simp only [List.find?_range_eq_some, List.isPrefixOf_iff_prefix, List.mem_range, Bool.not_eq_true',
    ← Bool.not_eq_true]
  constructor
  · rintro ⟨hat, -, hfirst⟩
    exact ⟨hat, hfirst⟩
  · rintro ⟨hat, hfirst⟩
    exact ⟨hat, MarkerAt.lt hat, hfirst⟩

theorem markerAt?_eq_none_iff : markerAt? format = none ↔ ∀ i, ¬ MarkerAt format i := by
  unfold markerAt?
  simp only [List.find?_range_eq_none, Bool.not_eq_true', ← Bool.not_eq_true, List.isPrefixOf_iff_prefix]
  constructor
  · intro h i hat
    exact h i hat.lt hat
  · intro h i _
    exact h i

/-! ## Pieces -/

/-- The text is cut at its markers into these pieces: each time at the first marker that is left. -/
inductive CutInto : Bytes → List Bytes → Prop
  | whole {format : Bytes} (hnone : ∀ i, ¬ MarkerAt format i) : CutInto format [format]
  | next {piece rest : Bytes} {pieces : List Bytes}
    (hfirst : ∀ i < piece.length, ¬ MarkerAt (piece ++ marker ++ rest) i) (hrest : CutInto rest pieces) :
    CutInto (piece ++ marker ++ rest) (piece :: pieces)

theorem take_piece (piece rest : Bytes) : (piece ++ marker ++ rest).take piece.length = piece := by
  simp [List.append_assoc]

theorem drop_piece (piece rest : Bytes) : (piece ++ marker ++ rest).drop (piece.length + marker.length) = rest := by
  simp [List.drop_append]

theorem markerAt_length (front back : Bytes) : MarkerAt (front ++ marker ++ back) front.length := by
  unfold MarkerAt
  simp [List.append_assoc]

theorem markerAt?_next (hfirst : ∀ i < piece.length, ¬ MarkerAt (piece ++ marker ++ rest) i) :
    markerAt? (piece ++ marker ++ rest) = some piece.length := by
  rw [markerAt?_eq_some_iff]
  exact ⟨markerAt_length piece rest, hfirst⟩

theorem CutInto.ne_nil (h : CutInto format pieces) : pieces ≠ [] := by
  cases h <;> simp

/-- There is a way to cut every text. -/
theorem exists_cutInto (format : Bytes) : ∃ pieces, CutInto format pieces := by
  induction hn : format.length using Nat.strongRecOn generalizing format with
  | ind n ih =>
    cases hat : markerAt? format with
    | none => exact ⟨[format], .whole (markerAt?_eq_none_iff.mp hat)⟩
    | some i =>
      obtain ⟨⟨rest, hrest⟩, hfirst⟩ := markerAt?_eq_some_iff.mp hat
      have hlt := MarkerAt.lt ⟨rest, hrest⟩
      have hformat : format = format.take i ++ marker ++ rest := by
        rw [List.append_assoc, hrest, List.take_append_drop]
      have hpiece : (format.take i).length = i := List.length_take_of_le (by omega)
      have hshort : rest.length < n := by
        have := congrArg List.length hformat
        simp [marker] at this
        omega
      obtain ⟨pieces, hcut⟩ := ih rest.length hshort rest rfl
      refine ⟨format.take i :: pieces, ?_⟩
      have hnext : CutInto (format.take i ++ marker ++ rest) (format.take i :: pieces) :=
        .next (by rwa [← hformat, hpiece]) hcut
      rwa [← hformat] at hnext

namespace CutInto

theorem eq_of_none (h : CutInto format pieces) (hnone : markerAt? format = none) : pieces = [format] := by
  cases h with
  | whole _ => rfl
  | next hfirst _ =>
    rw [markerAt?_next hfirst] at hnone
    cases hnone

theorem eq_of_some (h : CutInto format pieces) {i : Nat} (hat : markerAt? format = some i) :
    ∃ behind, pieces = format.take i :: behind ∧ CutInto (format.drop (i + marker.length)) behind := by
  cases h with
  | whole hnone =>
    rw [markerAt?_eq_none_iff.mpr hnone] at hat
    cases hat
  | next hfirst hrest =>
    obtain rfl := Option.some.inj ((markerAt?_next hfirst).symm.trans hat)
    rw [take_piece, drop_piece]
    exact ⟨_, rfl, hrest⟩

/-- There is only one way. -/
theorem unique (h : CutInto format pieces) {pieces' : List Bytes} (h' : CutInto format pieces') : pieces' = pieces := by
  induction h generalizing pieces' with
  | whole hnone => exact h'.eq_of_none (markerAt?_eq_none_iff.mpr hnone)
  | @next piece rest pieces hfirst _ ih =>
    obtain ⟨behind, rfl, hbehind⟩ := h'.eq_of_some (markerAt?_next hfirst)
    rw [drop_piece] at hbehind
    rw [ih hbehind, take_piece]

/-- The pieces with markers between them are the text. -/
theorem intercalate_eq (h : CutInto format pieces) : marker.intercalate pieces = format := by
  induction h with
  | whole _ => simp [List.intercalate]
  | @next piece rest pieces _ hrest ih =>
    obtain ⟨p, ps, rfl⟩ := List.exists_cons_of_ne_nil hrest.ne_nil
    rw [List.intercalate_cons_cons, ih]

/-- There is no marker within a piece. -/
theorem no_marker (h : CutInto format pieces) : ∀ p ∈ pieces, ¬ marker <:+: p := by
  induction h with
  | whole hnone =>
    simp only [List.mem_singleton, forall_eq]
    rintro ⟨front, back, rfl⟩
    exact hnone front.length (markerAt_length front back)
  | @next piece rest pieces hfirst _ ih =>
    rw [List.forall_mem_cons]
    refine ⟨?_, ih⟩
    rintro ⟨front, back, rfl⟩
    apply hfirst front.length
    · simp [marker]
    · have hat := markerAt_length front (back ++ marker ++ rest)
      simpa only [List.append_assoc] using hat

end CutInto

/-! ## Filling -/

/-- What has been written is not looked at again. -/
theorem write_eq (written format : Bytes) (args : List Argument) :
    write written format args = written ++ fillBytes format args := by
  unfold fillBytes
  induction args generalizing written format with
  | nil => simp [write]
  | cons arg args ih =>
    unfold write
    cases markerAt? format with
    | none => simp
    | some i =>
      simp only [List.nil_append]
      rw [ih, ih (format.take i ++ arg.shown), ← List.append_assoc, ← List.append_assoc]

theorem fillBytes_nil (format : Bytes) : fillBytes format [] = format := rfl

theorem fillBytes_whole (hnone : ∀ i, ¬ MarkerAt format i) (args : List Argument) : fillBytes format args = format := by
  cases args with
  | nil => rfl
  | cons arg args =>
    unfold fillBytes write
    rw [markerAt?_eq_none_iff.mpr hnone]
    rfl

/-- The first argument takes the place of the first marker, and the others are for what stands behind it. -/
theorem fillBytes_next (hfirst : ∀ i < piece.length, ¬ MarkerAt (piece ++ marker ++ rest) i) (arg : Argument)
    (args : List Argument) :
    fillBytes (piece ++ marker ++ rest) (arg :: args) = piece ++ arg.shown ++ fillBytes rest args := by
  have hstep : fillBytes (piece ++ marker ++ rest) (arg :: args) = write (piece ++ arg.shown) rest args := by
    unfold fillBytes
    rw [write, markerAt?_next hfirst]
    simp only [take_piece, drop_piece, List.nil_append]
  rw [hstep, write_eq]

/-- The pieces in front of a marker, each with a text in the place of the marker, as long as there are both; then the
rest of the format, with its markers. -/
def assembled (pieces texts : List Bytes) : Bytes :=
  (List.zipWith (fun piece text => piece ++ text) pieces.dropLast texts).flatten ++
    marker.intercalate (pieces.drop (min (pieces.length - 1) texts.length))

theorem fillBytes_eq (h : CutInto format pieces) (args : List Argument) :
    fillBytes format args = assembled pieces (args.map Argument.shown) := by
  induction h generalizing args with
  | whole hnone => simp [fillBytes_whole hnone, assembled, List.intercalate]
  | @next piece rest pieces hfirst hrest ih =>
    cases args with
    | nil =>
      have hwhole := (CutInto.next hfirst hrest).intercalate_eq
      simp [fillBytes_nil, assembled, hwhole]
    | cons arg args =>
      obtain ⟨p, ps, rfl⟩ := List.exists_cons_of_ne_nil hrest.ne_nil
      rw [fillBytes_next hfirst, ih]
      simp [assembled, Nat.add_min_add_right, List.append_assoc]

/-- Arguments for which there is no marker are left out. -/
theorem fillBytes_append_of_le (h : CutInto format pieces) {args : List Argument}
    (hle : pieces.length - 1 ≤ args.length) (more : List Argument) :
    fillBytes format (args ++ more) = fillBytes format args := by
  induction h generalizing args with
  | whole hnone => rw [fillBytes_whole hnone, fillBytes_whole hnone]
  | next hfirst hrest ih =>
    cases args with
    | nil =>
      have hpos := List.length_pos_iff.mpr hrest.ne_nil
      rw [List.length_cons, List.length_nil] at hle
      omega
    | cons arg args =>
      rw [List.length_cons, List.length_cons] at hle
      rw [List.cons_append, fillBytes_next hfirst, fillBytes_next hfirst, ih (by omega)]

/-- An argument is written as it is, whatever it is, and makes no difference to what is written before and behind it. -/
theorem exists_fillBytes_eq (h : CutInto format pieces) {before : List Argument}
    (hlt : before.length < pieces.length - 1) (after : List Argument) :
    ∃ front back, ∀ arg : Argument, fillBytes format (before ++ arg :: after) = front ++ arg.shown ++ back := by
  induction h generalizing before with
  | whole _ => simp at hlt
  | @next piece rest pieces hfirst hrest ih =>
    cases before with
    | nil => exact ⟨piece, fillBytes rest after, fun arg => fillBytes_next hfirst arg after⟩
    | cons b before =>
      have hrest : before.length < pieces.length - 1 := by
        rw [List.length_cons, List.length_cons] at hlt
        omega
      obtain ⟨front, back, hfill⟩ := ih hrest
      refine ⟨piece ++ b.shown ++ front, back, fun arg => ?_⟩
      rw [List.cons_append, fillBytes_next hfirst, hfill]
      simp only [List.append_assoc]

-- a pair of braces within braces; the second argument takes the second marker, and the third one has none
example : fillBytes [0x7B, 0x7B, 0x7D, 0x7D, 0x7B, 0x7D] [.text marker, .number (-5), .number 7] =
    [0x7B, 0x7B, 0x7D, 0x7D, 0x2D, 0x35] := by
  decide

/-! ## Texts -/

/-- A byte that does not begin a marker is written, and no argument is used for it. -/
theorem fillBytes_cons {b : UInt8} (hb : ¬ MarkerAt (b :: rest) 0) (arg : Argument) (args : List Argument) :
    fillBytes (b :: rest) (arg :: args) = b :: fillBytes rest (arg :: args) := by
  obtain ⟨pieces, hcut⟩ := exists_cutInto rest
  cases hcut with
  | whole hnone =>
    have hnone' : ∀ i, ¬ MarkerAt (b :: rest) i := by
      intro i
      cases i with
      | zero => exact hb
      | succ i => exact hnone i
    rw [fillBytes_whole hnone, fillBytes_whole hnone']
  | @next piece behind pieces hfirst _ =>
    have hfirst' : ∀ i < (b :: piece).length, ¬ MarkerAt (b :: piece ++ marker ++ behind) i := by
      intro i hi
      cases i with
      | zero => exact hb
      | succ i => exact hfirst i (by simpa using hi)
    rw [fillBytes_next hfirst, ← List.cons_append, ← List.cons_append, fillBytes_next hfirst']
    rfl

theorem fillBytes_marker (arg : Argument) (args : List Argument) (rest : Bytes) :
    fillBytes (0x7B :: 0x7D :: rest) (arg :: args) = arg.shown ++ fillBytes rest args := by
  have hfirst : ∀ i < ([] : Bytes).length, ¬ MarkerAt ([] ++ marker ++ rest) i := by simp
  exact fillBytes_next hfirst arg args

theorem not_markerAt_zero {b : UInt8} (hb : b ≠ 0x7B) : ¬ MarkerAt (b :: rest) 0 := by
  unfold MarkerAt marker
  simp [List.cons_prefix_cons, hb.symm]

/-- In characters of two bytes and more, every byte has its top bit set. -/
theorem le_of_mem_utf8EncodeChar {c : Char} (hc : ¬ c.toNat ≤ 0x7F) {b : UInt8} (hb : b ∈ String.utf8EncodeChar c) :
    128 ≤ b.toNat := by
  have hval : ¬ c.val.toNat ≤ 0x7F := hc
  unfold String.utf8EncodeChar at hb
  simp only [hval, if_false] at hb
  revert b
  split
  · simp
    omega
  · split <;> simp <;> omega

/-- A byte below 128 is a character of its own. -/
theorem eq_of_mem_utf8EncodeChar {c : Char} {b : UInt8} (hb : b ∈ String.utf8EncodeChar c) (hlt : b.toNat < 128) :
    c = Char.ofNat b.toNat := by
  by_cases hc : c.toNat ≤ 0x7F
  · have hbyte : (UInt8.ofNat c.toNat).toNat = c.toNat := Nat.mod_eq_of_lt (by omega)
    have hsmall : UInt8.ofNat c.toNat < 0x80 := by
      rw [UInt8.lt_iff_toNat_lt, hbyte]
      exact Nat.lt_succ_of_le hc
    have hone := Hex.utf8EncodeChar_ofNat hsmall
    rw [hbyte, Char.ofNat_toNat] at hone
    rw [hone, List.mem_singleton] at hb
    rw [hb, hbyte, Char.ofNat_toNat]
  · have hle := le_of_mem_utf8EncodeChar hc hb
    omega

theorem fillBytes_append {bytes : Bytes} (h : ∀ b ∈ bytes, b ≠ 0x7B) (rest : Bytes) (arg : Argument)
    (args : List Argument) : fillBytes (bytes ++ rest) (arg :: args) = bytes ++ fillBytes rest (arg :: args) := by
  induction bytes with
  | nil => rfl
  | cons b bytes ih =>
    rw [List.forall_mem_cons] at h
    rw [List.cons_append, fillBytes_cons (not_markerAt_zero h.1), ih h.2, List.cons_append]

/-- The bytes of some characters. -/
def encoded (cs : List Char) : Bytes := cs.flatMap String.utf8EncodeChar

theorem encoded_cons (c : Char) (cs : List Char) : encoded (c :: cs) = String.utf8EncodeChar c ++ encoded cs :=
  List.flatMap_cons

theorem encoded_append (cs ds : List Char) : encoded (cs ++ ds) = encoded cs ++ encoded ds := List.flatMap_append

/-- An opening brace that no closing brace follows begins no marker. -/
theorem not_markerAt_brace {cs : List Char} (h : ∀ ds, cs ≠ '\x7d' :: ds) : ¬ MarkerAt (0x7B :: encoded cs) 0 := by
  unfold MarkerAt marker
  simp only [List.drop_zero, List.cons_prefix_cons, true_and]
  rintro ⟨behind, hbehind⟩
  cases cs with
  | nil => simp [encoded] at hbehind
  | cons d ds =>
    have hmem : 0x7D ∈ String.utf8EncodeChar d := by
      cases hd : String.utf8EncodeChar d with
      | nil => exact absurd hd (by simp)
      | cons b bytes =>
        rw [encoded_cons, hd] at hbehind
        simp at hbehind
        simp [hbehind.1]
    exact h ds (by rw [eq_of_mem_utf8EncodeChar hmem (by decide)]; rfl)

theorem encoded_fillChars (cs : List Char) (args : List (List Char)) :
    encoded (fillChars cs args) = fillBytes (encoded cs) (args.map fun arg => .text (encoded arg)) := by
  induction cs, args using fillChars.induct with
  | case1 format => rw [fillChars, List.map_nil, fillBytes_nil]
  | case2 arg args =>
    rw [fillChars]
    exact (fillBytes_whole (fun i hat => by simpa [encoded] using hat.lt) _).symm
  | case3 format arg args ih =>
    have hmarker : encoded ('\x7b' :: '\x7d' :: format) = 0x7B :: 0x7D :: encoded format := rfl
    rw [fillChars, encoded_append, ih, hmarker, List.map_cons, fillBytes_marker, Argument.shown]
  | case4 c format arg args hc ih =>
    rw [fillChars, encoded_cons, encoded_cons, ih, List.map_cons]
    · by_cases hbrace : c = '\x7b'
      · have hnot : ¬ MarkerAt (0x7B :: encoded format) 0 := not_markerAt_brace fun ds => hc ds hbrace
        subst hbrace
        exact (fillBytes_cons hnot _ _).symm
      · have hbytes : ∀ b ∈ String.utf8EncodeChar c, b ≠ 0x7B := by
          rintro b hb rfl
          exact hbrace (eq_of_mem_utf8EncodeChar hb (by decide))
        exact (fillBytes_append hbytes _ _ _).symm
    · exact hc

theorem ofText_eq (s : String) : Bytes.ofText s = encoded s.toList := by
  have h := Hex.ofText_ofList s.toList
  rwa [String.ofList_toList] at h

/-- On texts, filling character by character is filling byte by byte. -/
theorem ofText_fill (format : String) (args : List String) :
    Bytes.ofText (fill format args) =
      fillBytes (Bytes.ofText format) (args.map fun arg => .text (Bytes.ofText arg)) := by
  unfold fill
  rw [ofText_eq, String.toList_ofList, encoded_fillChars, List.map_map]
  simp [Function.comp_def, ofText_eq]

/-! ## Errors -/

@[simp] theorem toList_decimal (n : Nat) : (decimal n).toList = Nat.toDigits 10 n := by
  unfold decimal
  simp

@[simp] theorem toList_toString (s : String) : (toString s).toList = s.toList := rfl

theorem toList_fill (format : String) (args : List String) :
    (fill format args).toList = fillChars format.toList (args.map String.toList) := by
  unfold fill
  rw [String.toList_ofList]

end Message

open Message in
/-- The words for an error are what its format and its arguments make, whatever the arguments are. -/
theorem Error.wording_eq_fill {e : Error} {format : String} {args : List String} (h : e.format? = some (format, args)) :
    e.wording = fill format args := by
  apply String.toList_inj.mp
  rw [toList_fill]
  cases e with
  | invalidArgument message => cases h
  | invalidState message => cases h
  | unavailable service algorithm provider =>
    unfold wording
    simp only [format?] at h
    by_cases hprovider : provider.isEmpty
    · simp only [hprovider, if_true, Option.some.injEq, Prod.mk.injEq] at h
      obtain ⟨rfl, rfl⟩ := h
      simp [hprovider, fillChars]
    · simp only [hprovider, if_false, Bool.false_eq_true, Option.some.injEq, Prod.mk.injEq] at h
      obtain ⟨rfl, rfl⟩ := h
      simp [hprovider, fillChars]
  | _ =>
    simp only [format?, Option.some.injEq, Prod.mk.injEq] at h
    obtain ⟨rfl, rfl⟩ := h
    -- the equations of all the wordings at once are slow to make
    unfold wording
    simp [fillChars]

namespace Message

/-! ## Main result -/

/-- What the pieces of a format say about filling it. -/
structure FilledBy (format : Bytes) (pieces : List Bytes) : Prop where
  /-- The format is cut at its markers, always at the first one that is left. -/
  cut : CutInto format pieces
  /-- It is cut in one way only. -/
  unique : ∀ pieces', CutInto format pieces' → pieces' = pieces
  /-- The pieces with markers between them are the format. -/
  joined : marker.intercalate pieces = format
  /-- There is no marker within a piece. -/
  bare : ∀ piece ∈ pieces, ¬ marker <:+: piece
  /-- Each piece with an argument behind it, and then the rest of the format. -/
  filled : ∀ args, fillBytes format args = assembled pieces (args.map Argument.shown)
  /-- Arguments for which there is no marker are left out. -/
  surplus : ∀ args more, pieces.length - 1 ≤ args.length → fillBytes format (args ++ more) = fillBytes format args
  /-- An argument is written as it is, and what is written before and behind it does not depend on it. -/
  literal : ∀ before after, before.length < pieces.length - 1 →
    ∃ front back, ∀ arg : Argument, fillBytes format (before ++ arg :: after) = front ++ arg.shown ++ back

theorem filledBy (h : CutInto format pieces) : FilledBy format pieces where
  cut := h
  unique _ h' := h.unique h'
  joined := h.intercalate_eq
  bare := h.no_marker
  filled := fillBytes_eq h
  surplus _ more hle := fillBytes_append_of_le h hle more
  literal _ after hlt := exists_fillBytes_eq h hlt after

/-- **A format is filled by its pieces**, whatever the arguments are; texts are filled character by character just as
their bytes are; and the words for an error come about in this way. -/
theorem filled_by_pieces :
    (∀ format : Bytes, ∃ pieces, FilledBy format pieces) ∧
    (∀ format args, Bytes.ofText (fill format args) =
      fillBytes (Bytes.ofText format) (args.map fun arg => .text (Bytes.ofText arg))) ∧
    ∀ (e : Error) format args, e.format? = some (format, args) → e.wording = fill format args := by
  refine ⟨?_, ofText_fill, fun e format args h => Error.wording_eq_fill h⟩
  intro format
  obtain ⟨pieces, hcut⟩ := exists_cutInto format
  exact ⟨pieces, filledBy hcut⟩

/-- A name that is a marker itself takes no argument away. -/
theorem filled_by_pieces_marker_as_name :
    (Error.unavailable "block cipher" "\x7b\x7d" "openssl").wording =
      "Unavailable block cipher \x7b\x7d for provider openssl" := by
  rw [filled_by_pieces.2.2 _ _ _ rfl]
  rfl

end Message

end KeyWrapping
