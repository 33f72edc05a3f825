import KeyWrapping.Hex.Cursor
import KeyWrapping.Proofs.HexText
import Mathlib.Logic.ExistsUnique

/-!
# Reading stops at the first problem

A place of a text is given by what stands before it and what stands behind it. There a problem may come up
(`Hex.Problem.At`): a character that has no place in hex text, the second digit of a pair for which there is no room, or
the end after an odd number of digits. The cursor keeps count of the digits and has written the bytes of their pairs and
nothing else (`Hex.Cursor.After`). Character by character it keeps this, or it comes upon a problem
(`Hex.Cursor.read_cases`), so it ends with the problem that comes first (`Hex.Cursor.run_stops`). What it leaves in
memory is what `Hex.decodeInto` gives (`Hex.decodeInto_eq_run`), so what that reports is settled for every text and
every buffer (`Hex.exists_report`).
-/

namespace KeyWrapping

/-- The byte behind what was written is set by writing one byte more. -/
theorem Bytes.set_overwrite {buffer data : Bytes} (h : data.length < buffer.length) (b : UInt8) :
    (buffer.overwrite data).set data.length b = buffer.overwrite (data ++ [b]) := by
  rw [overwrite, overwrite, List.drop_eq_getElem_cons h, List.set_append_right _ _ (Nat.le_refl _), Nat.sub_self,
    List.set_cons_zero, List.append_assoc, List.length_append, List.length_singleton, List.singleton_append]

namespace Hex

/-! ## Problems and their places -/

/-- The numbers of the digits of a text. -/
def digitsIn (text : Bytes) : List Nat := text.filterMap digit?

/-- The bytes that digits make two by two; a digit left over makes none. -/
def joined : List Nat → Bytes
  | high :: low :: digits => UInt8.ofNat (16 * high + low) :: joined digits
  | [_] | [] => []

/-- The problem that comes up between what stands before a place and what stands behind it, with room for so many
bytes. -/
inductive Problem.At (skipBlanks : Bool) (room : Nat) : Bytes → Bytes → Problem → Prop
  | stray {before behind : Bytes} {c : UInt8} (hkept : (skipBlanks && isBlank c) = false) (hdigit : digit? c = none) :
    At skipBlanks room before (c :: behind) (.strayCharacter c)
  | noRoom {before behind : Bytes} {c : UInt8} (hdigit : (digit? c).isSome)
    (hpairs : (digitsIn before).length = 2 * room + 1) : At skipBlanks room before (c :: behind) .noRoom
  | missingDigit {before : Bytes} (hodd : (digitsIn before).length % 2 = 1) :
    At skipBlanks room before [] .missingDigit

/-- No problem comes up earlier in the text than behind `before`. -/
def Problem.NoneBefore (skipBlanks : Bool) (room : Nat) (text before : Bytes) : Prop :=
  ∀ {front back p}, text = front ++ back → front.length < before.length → ¬ Problem.At skipBlanks room front back p

/-- The problem comes up in the text behind `before`, and none comes up earlier. -/
structure Problem.First (skipBlanks : Bool) (room : Nat) (text before : Bytes) (p : Problem) : Prop where
  exists_at : ∃ behind, text = before ++ behind ∧ p.At skipBlanks room before behind
  none_before : Problem.NoneBefore skipBlanks room text before

variable {skipBlanks : Bool} {room : Nat} {before behind : Bytes} {c : UInt8}

/-- There is one place only where the first problem comes up. -/
theorem Problem.First.front_eq {text front front' : Bytes} {p p' : Problem} (h : p.First skipBlanks room text front)
    (h' : p'.First skipBlanks room text front') : front = front' := by
  obtain ⟨behind, htext, hat⟩ := h.exists_at
  obtain ⟨behind', htext', hat'⟩ := h'.exists_at
  have hle : front.length ≤ front'.length := Nat.le_of_not_lt fun hlt => h.none_before htext' hlt hat'
  have hge : front'.length ≤ front.length := Nat.le_of_not_lt fun hlt => h'.none_before htext hlt hat
  exact (List.append_inj (htext.symm.trans htext') (Nat.le_antisymm hle hge)).1

/-! ## Pairs of digits -/

theorem length_joined : ∀ digits : List Nat, (joined digits).length = digits.length / 2
  | [] => by simp [joined]
  | [_] => by simp [joined]
  | _ :: _ :: digits => by
    rw [joined, List.length_cons, length_joined digits, List.length_cons, List.length_cons]
    omega

/-- Behind whole pairs, more digits begin a pair. -/
theorem joined_append : ∀ {digits : List Nat}, digits.length % 2 = 0 → ∀ more : List Nat,
    joined (digits ++ more) = joined digits ++ joined more
  | [], _, _ => by simp [joined]
  | [_], h, _ => by simp at h
  | _ :: _ :: digits, h, more => by
    have hrest : digits.length % 2 = 0 := by
      rw [List.length_cons, List.length_cons] at h
      omega
    rw [List.cons_append, List.cons_append, joined, joined_append hrest, joined, List.cons_append]

/-- Digits in an odd number are whole pairs and one digit more. -/
theorem exists_concat_of_odd {digits : List Nat} (h : digits.length % 2 = 1) :
    ∃ pairs last, digits = pairs ++ [last] ∧ pairs.length % 2 = 0 := by
  have hne : digits ≠ [] := by
    rintro rfl
    cases h
  refine ⟨digits.dropLast, digits.getLast hne, (List.dropLast_concat_getLast hne).symm, ?_⟩
  rw [List.length_dropLast]
  omega

theorem digitsIn_concat (before : Bytes) (c : UInt8) :
    digitsIn (before ++ [c]) = digitsIn before ++ (digit? c).toList := by
  rw [digitsIn, List.filterMap_append, ← digitsIn]
  cases hc : digit? c with
  | none => rw [List.filterMap_cons_none hc, List.filterMap_nil, Option.toList_none]
  | some n => rw [List.filterMap_cons_some hc, List.filterMap_nil, Option.toList_some]

theorem lt_of_mem_digitsIn {text : Bytes} {n : Nat} (h : n ∈ digitsIn text) : n < 16 := by
  obtain ⟨c, -, hc⟩ := List.mem_filterMap.mp h
  exact lt_of_digit? hc

theorem join_eq_ofNat {m n : Nat} (hm : m < 16) (hn : n < 16) :
    UInt8.ofBitVec (BitVec.ofNat 8 m <<< 4 ||| BitVec.ofNat 8 n) = UInt8.ofNat (16 * m + n) := by
  rw [← UInt8.toNat_inj, toNat_join hm hn, UInt8.toNat_ofNat', Nat.mod_eq_of_lt (by omega)]

/-! ## The cursor -/

namespace Cursor

/-- What a cursor knows and has done after a text in which it came upon no problem. -/
structure After (buffer before : Bytes) (cursor : Cursor) : Prop where
  digits_eq : cursor.digits = (digitsIn before).length
  written_eq : cursor.written = (joined (digitsIn before)).length
  written_le : cursor.written ≤ buffer.length
  memory_eq : cursor.memory = buffer.overwrite (joined (digitsIn before))
  high_eq : ∀ {pairs last}, digitsIn before = pairs ++ [last] → pairs.length % 2 = 0 →
    cursor.high = BitVec.ofNat 8 last

variable {buffer : Bytes} {cursor : Cursor}

theorem after_start (buffer : Bytes) : (start buffer).After buffer [] where
  digits_eq := rfl
  written_eq := by simp [start, digitsIn, joined]
  written_le := Nat.zero_le _
  memory_eq := by simp [start, digitsIn, joined]
  high_eq h := by simp [digitsIn] at h

namespace After

variable (h : cursor.After buffer before)
include h

theorem length_memory : cursor.memory.length = buffer.length := by
  rw [h.memory_eq, Bytes.length_overwrite]
  exact h.written_eq ▸ h.written_le

/-- A character that is no digit changes nothing. -/
theorem of_skipped (hdigit : digit? c = none) : cursor.After buffer (before ++ [c]) := by
  have hdigits : digitsIn (before ++ [c]) = digitsIn before := by
    rw [digitsIn_concat, hdigit, Option.toList_none, List.append_nil]
  constructor
  case digits_eq => rw [hdigits, h.digits_eq]
  case written_eq => rw [hdigits, h.written_eq]
  case written_le => exact h.written_le
  case memory_eq => rw [hdigits, h.memory_eq]
  case high_eq => exact fun hpairs => h.high_eq (hdigits ▸ hpairs)

/-- The first digit of a pair is kept. -/
theorem of_first {n : Nat} (hdigit : digit? c = some n) (heven : (digitsIn before).length % 2 = 0) :
    After buffer (before ++ [c]) { cursor with high := BitVec.ofNat 8 n, digits := cursor.digits + 1 } := by
  have hdigits : digitsIn (before ++ [c]) = digitsIn before ++ [n] := by
    rw [digitsIn_concat, hdigit, Option.toList_some]
  have hjoined : joined (digitsIn (before ++ [c])) = joined (digitsIn before) := by
    rw [hdigits, joined_append heven, joined, List.append_nil]
  constructor
  case digits_eq => rw [hdigits, List.length_append, h.digits_eq, List.length_singleton]
  case written_eq => rw [hjoined, h.written_eq]
  case written_le => exact h.written_le
  case memory_eq => rw [hjoined, h.memory_eq]
  case high_eq =>
    intro pairs last hpairs _
    have hlast := (List.append_inj' (hdigits.symm.trans hpairs) rfl).2
    rw [List.head_eq_of_cons_eq hlast]

/-- The second digit of a pair makes a byte of the pair. -/
theorem of_second {n : Nat} (hdigit : digit? c = some n) (hodd : (digitsIn before).length % 2 = 1)
    (hroom : cursor.written < buffer.length) :
    After buffer (before ++ [c])
      { cursor with
        memory := cursor.memory.set cursor.written (UInt8.ofBitVec (cursor.high <<< 4 ||| BitVec.ofNat 8 n))
        written := cursor.written + 1
        digits := cursor.digits + 1 } := by
  obtain ⟨pairs, last, hbefore, heven⟩ := exists_concat_of_odd hodd
  have hlast : last < 16 := lt_of_mem_digitsIn (hbefore ▸ List.mem_append_right _ List.mem_cons_self)
  have hbyte : UInt8.ofBitVec (cursor.high <<< 4 ||| BitVec.ofNat 8 n) = UInt8.ofNat (16 * last + n) := by
    rw [h.high_eq hbefore heven, join_eq_ofNat hlast (lt_of_digit? hdigit)]
  have hdigits : digitsIn (before ++ [c]) = pairs ++ [last, n] := by
    rw [digitsIn_concat, hdigit, Option.toList_some, hbefore, List.append_assoc, List.singleton_append]
  have hold : joined (digitsIn before) = joined pairs := by
    rw [hbefore, joined_append heven, joined, List.append_nil]
  have hnew : joined (digitsIn (before ++ [c])) = joined pairs ++ [UInt8.ofNat (16 * last + n)] := by
    rw [hdigits, joined_append heven, joined, joined]
  have hwritten : cursor.written = (joined pairs).length := by rw [h.written_eq, hold]
  constructor
  case digits_eq =>
    rw [digitsIn_concat, hdigit, Option.toList_some, List.length_append, h.digits_eq, List.length_singleton]
  case written_eq => rw [hnew, List.length_append, hwritten, List.length_singleton]
  case written_le => exact hroom
  case memory_eq =>
    rw [hnew, hbyte, h.memory_eq, hold, hwritten, Bytes.set_overwrite (hwritten ▸ hroom)]
  case high_eq =>
    intro pairs' last' hpairs heven'
    have hlength := congrArg List.length (hdigits.symm.trans hpairs)
    rw [List.length_append, List.length_append, List.length_singleton, List.length_cons,
      List.length_singleton] at hlength
    omega

end After

/-! ### One character -/

theorem read_skipped (hskip : (skipBlanks && isBlank c) = true) : cursor.read skipBlanks c = .ok cursor := by
  obtain ⟨hskips, hblank⟩ := Bool.and_eq_true_iff.mp hskip
  exact if_pos ⟨nibble_eq_blank_iff.mpr hblank, hskips⟩

theorem read_stray (hkept : (skipBlanks && isBlank c) = false) (hdigit : digit? c = none) :
    cursor.read skipBlanks c = .error (.strayCharacter c) :=
  (if_neg (not_blank_of_kept hkept)).trans (if_pos (lt_nibble_iff.mpr hdigit))

theorem read_digit {n : Nat} (hdigit : digit? c = some n) :
    cursor.read skipBlanks c = cursor.digit (BitVec.ofNat 8 n) := by
  have hle : ¬ 0x0F < nibble c.toBitVec := fun h => by cases (lt_nibble_iff.mp h).symm.trans hdigit
  have hkept : (skipBlanks && isBlank c) = false := not_skipped_of_digit? hdigit
  rw [← nibble_of_digit? hdigit]
  exact (if_neg (not_blank_of_kept hkept)).trans (if_neg hle)

/-- A character is taken in and there is no problem at its place, or it is not and there is. -/
theorem read_cases (h : cursor.After buffer before) (c : UInt8) (behind : Bytes) :
    (∃ next, cursor.read skipBlanks c = .ok next ∧ next.After buffer (before ++ [c]) ∧
        ∀ p, ¬ Problem.At skipBlanks buffer.length before (c :: behind) p) ∨
      ∃ p, cursor.read skipBlanks c = .error p ∧ p.At skipBlanks buffer.length before (c :: behind) := by
  cases hdigit : digit? c with
  | none =>
    cases hskip : skipBlanks && isBlank c with
    | true =>
      refine Or.inl ⟨cursor, read_skipped hskip, h.of_skipped hdigit, ?_⟩
      rintro _ (⟨hkept, -⟩ | ⟨hsome, -⟩)
      · cases hskip.symm.trans hkept
      · rw [hdigit] at hsome
        cases hsome
    | false => exact Or.inr ⟨.strayCharacter c, read_stray hskip hdigit, .stray hskip hdigit⟩
  | some n =>
    have hsome : (digit? c).isSome := by rw [hdigit]; rfl
    have hstray : digit? c ≠ none := by rw [hdigit]; exact Option.some_ne_none n
    rw [read_digit hdigit, digit, h.digits_eq]
    rcases Nat.mod_two_eq_zero_or_one (digitsIn before).length with heven | hodd
    · rw [if_pos heven, ← h.digits_eq]
      refine Or.inl ⟨_, rfl, h.of_first hdigit heven, ?_⟩
      rintro _ (⟨-, hnone⟩ | ⟨-, hpairs⟩)
      · exact hstray hnone
      · omega
    · have hwritten := h.written_eq
      rw [length_joined] at hwritten
      rw [if_neg (by omega), h.length_memory]
      by_cases hroom : cursor.written = buffer.length
      · rw [if_pos hroom]
        exact Or.inr ⟨.noRoom, rfl, .noRoom hsome (by omega)⟩
      · have hle := h.written_le
        rw [if_neg hroom, ← h.digits_eq]
        refine Or.inl ⟨_, rfl, h.of_second hdigit hodd (by omega), ?_⟩
        rintro _ (⟨-, hnone⟩ | ⟨-, hpairs⟩)
        · exact hstray hnone
        · omega

/-! ### All characters -/

/-- What a run comes to: after some of the text it stops at the first problem, or there is none in all the text. -/
inductive Stops (skipBlanks : Bool) (buffer text : Bytes) : Option Problem × Cursor → Prop
  | problem {front : Bytes} {p : Problem} {cursor : Cursor} (hfirst : p.First skipBlanks buffer.length text front)
    (hafter : cursor.After buffer front) : Stops skipBlanks buffer text (some p, cursor)
  | finished {cursor : Cursor} (hnone : ∀ {front back p}, text = front ++ back →
      ¬ Problem.At skipBlanks buffer.length front back p)
    (hafter : cursor.After buffer text) : Stops skipBlanks buffer text (none, cursor)

/-- By induction over what is still to be read, with no problem in what has been read. -/
theorem run_stops (h : cursor.After buffer before)
    (hnone : Problem.NoneBefore skipBlanks buffer.length (before ++ behind) before) :
    Stops skipBlanks buffer (before ++ behind) (cursor.run skipBlanks behind) := by
  induction behind generalizing before cursor with
  | nil =>
    rw [run, h.digits_eq]
    rw [List.append_nil] at hnone ⊢
    rcases Nat.mod_two_eq_zero_or_one (digitsIn before).length with heven | hodd
    · rw [if_pos heven]
      refine .finished ?_ h
      intro front back p htext hat
      rcases List.eq_nil_or_concat back with rfl | ⟨init, c, rfl⟩
      · cases hat with
        | missingDigit hodd =>
          rw [htext, List.append_nil] at heven
          omega
      · refine hnone htext ?_ hat
        rw [htext]
        simp
    · rw [if_neg (by omega)]
      exact .problem ⟨⟨[], (List.append_nil before).symm, .missingDigit hodd⟩, hnone⟩ h
  | cons c behind ih =>
    rw [run]
    rcases read_cases h c behind with ⟨next, hread, hnext, hclear⟩ | ⟨p, hread, hat⟩
    · have htext : before ++ c :: behind = (before ++ [c]) ++ behind := List.append_cons before c behind
      rw [hread, htext]
      refine ih hnext ?_
      intro front back p hsplit hlt hat
      rcases Nat.lt_or_ge front.length before.length with hearlier | hlater
      · exact hnone (htext.trans hsplit) hearlier hat
      · -- the only place that is new is the one in front of `c`
        rw [List.length_append, List.length_singleton] at hlt
        obtain ⟨rfl, rfl⟩ := List.append_inj (htext.trans hsplit) (by omega)
        exact hclear p hat
    · rw [hread]
      exact .problem ⟨⟨_, rfl, hat⟩, hnone⟩ h

/-! ### The scan -/

/-- The digit that waits for its partner. -/
def pending (cursor : Cursor) : Option (BitVec 8) := if cursor.digits % 2 = 0 then none else some cursor.high

theorem pending_start (memory : Bytes) : (start memory).pending = none := rfl

/-- A run that has written `done`, with `rest` behind it, goes on as the scan says. -/
structure Follows (done rest : Bytes) (scanned : Bytes × Option Problem) (ran : Option Problem × Cursor) : Prop where
  problem_eq : ran.1 = scanned.2
  memory_eq : ran.2.memory = done ++ rest.overwrite scanned.1
  written_eq : ran.2.written = done.length + scanned.1.length

/-- What is written next is part of what the scan gives. -/
theorem Follows.cons {done rest : Bytes} {b r : UInt8} {scanned : Bytes × Option Problem}
    {ran : Option Problem × Cursor} (h : Follows (done ++ [b]) rest scanned ran) :
    Follows done (r :: rest) (b :: scanned.1, scanned.2) ran where
  problem_eq := h.problem_eq
  memory_eq := by
    rw [h.memory_eq, List.append_assoc]
    rfl
  written_eq := by
    rw [h.written_eq, List.length_append, List.length_singleton, List.length_cons]
    omega

/-- The cursor comes upon the problem that the scan finds, and writes the bytes that the scan gives. -/
theorem run_follows_scan {done rest : Bytes} (text : Bytes) (hmemory : cursor.memory = done ++ rest)
    (hwritten : cursor.written = done.length) :
    Follows done rest (scan skipBlanks rest.length cursor.pending text) (cursor.run skipBlanks text) := by
  induction text generalizing cursor done rest with
  | nil =>
    refine ⟨?_, hmemory, hwritten⟩
    rw [run, pending, scan]
    split <;> rfl
  | cons c text ih =>
    cases hdigit : digit? c with
    | none =>
      cases hskip : skipBlanks && isBlank c with
      | true =>
        rw [run, read_skipped hskip, scan_skipped _ _ _ hskip]
        exact ih hmemory hwritten
      | false =>
        rw [run, read_stray hskip hdigit, scan_stray _ _ _ hskip hdigit]
        exact ⟨rfl, hmemory, hwritten⟩
    | some n =>
      rw [run, read_digit hdigit, scan_digit _ _ _ hdigit, digit, pending]
      rcases Nat.mod_two_eq_zero_or_one cursor.digits with heven | hodd
      · have hnext : (cursor.digits + 1) % 2 ≠ 0 := by omega
        have hpending : pending { cursor with high := BitVec.ofNat 8 n, digits := cursor.digits + 1 } =
            some (BitVec.ofNat 8 n) := if_neg hnext
        rw [if_pos heven, if_pos heven, ← hpending]
        exact ih hmemory hwritten
      · have hnext : (cursor.digits + 1) % 2 = 0 := by omega
        have hlength : cursor.memory.length = done.length + rest.length := by rw [hmemory, List.length_append]
        rw [if_neg (by omega), if_neg (by omega), hlength, hwritten]
        cases rest with
        | nil =>
          rw [List.length_nil, Nat.add_zero, if_pos rfl]
          exact ⟨rfl, hmemory, hwritten⟩
        | cons r rest =>
          let byte := UInt8.ofBitVec (cursor.high <<< 4 ||| BitVec.ofNat 8 n)
          let next : Cursor := { cursor with
            memory := cursor.memory.set done.length byte, written := done.length + 1, digits := cursor.digits + 1 }
          have hpending : next.pending = none := if_pos hnext
          have hset : cursor.memory.set done.length byte = (done ++ [byte]) ++ rest := by
            rw [hmemory, List.set_append_right _ _ (Nat.le_refl _), Nat.sub_self, List.set_cons_zero, List.append_assoc,
              List.singleton_append]
          have hlater := @ih next (done ++ [byte]) rest hset (by rw [List.length_append, List.length_singleton])
          rw [hpending] at hlater
          rw [if_neg (by rw [List.length_cons]; omega)]
          exact hlater.cons

end Cursor

/-- What reading leaves in a caller's buffer is what a cursor leaves in memory. -/
theorem decodeInto_eq_run (skipBlanks : Bool) (text buffer : Bytes) :
    decodeInto skipBlanks text buffer =
      match (Cursor.start buffer).run skipBlanks text with
      | (none, cursor) => (.ok cursor.written, cursor.memory)
      | (some p, cursor) => (.error p.error, cursor.memory) := by
  have h : Cursor.Follows [] buffer (scan skipBlanks buffer.length (Cursor.start buffer).pending text)
      ((Cursor.start buffer).run skipBlanks text) := Cursor.run_follows_scan text rfl rfl
  rw [Cursor.pending_start] at h
  rw [decodeInto]
  generalize scan skipBlanks buffer.length none text = scanned, (Cursor.start buffer).run skipBlanks text = ran at h
  obtain ⟨bytes, problem⟩ := scanned
  obtain ⟨problem', cursor⟩ := ran
  obtain ⟨rfl, hmemory, hwritten⟩ := h
  rw [List.length_nil, Nat.zero_add] at hwritten
  rw [List.nil_append] at hmemory
  cases problem' with
  | none => exact Prod.ext (congrArg Except.ok hwritten.symm) hmemory.symm
  | some p => exact Prod.ext rfl hmemory.symm

/-! ## Reading into a caller's buffer -/

/-- What reading a text into a buffer comes to, if `front` is what is read of the text before reading ends. -/
structure Report (skipBlanks : Bool) (text buffer front : Bytes) : Prop where
  begins : front <+: text
  /-- There is room for the pairs of digits that are complete by then. -/
  pairs_le : (digitsIn front).length / 2 ≤ buffer.length
  /-- Their bytes are at the front of the buffer. -/
  take_eq : (decodeInto skipBlanks text buffer).2.take ((digitsIn front).length / 2) = joined (digitsIn front)
  /-- Nothing else is written, inside the buffer or behind it. -/
  drop_eq : (decodeInto skipBlanks text buffer).2.drop ((digitsIn front).length / 2) =
    buffer.drop ((digitsIn front).length / 2)
  length_eq : (decodeInto skipBlanks text buffer).2.length = buffer.length
  /-- Reading ends at the first problem and reports that one, or there is none and the number of pairs is reported. -/
  outcome :
    (∃ p : Problem, p.First skipBlanks buffer.length text front ∧
        (decodeInto skipBlanks text buffer).1 = .error p.error) ∨
      front = text ∧
        (∀ before behind p, text = before ++ behind → ¬ Problem.At skipBlanks buffer.length before behind p) ∧
        (decodeInto skipBlanks text buffer).1 = .ok ((digitsIn text).length / 2)

variable {buffer : Bytes}

/-- A cursor that has read some of the text has written the pairs of digits in it. -/
theorem Cursor.After.written {cursor : Cursor} (h : cursor.After buffer before) :
    (digitsIn before).length / 2 ≤ buffer.length ∧
      cursor.memory.take ((digitsIn before).length / 2) = joined (digitsIn before) ∧
      cursor.memory.drop ((digitsIn before).length / 2) = buffer.drop ((digitsIn before).length / 2) := by
  rw [← length_joined, ← h.written_eq]
  refine ⟨h.written_le, ?_, ?_⟩
  · rw [h.memory_eq, h.written_eq, Bytes.take_overwrite]
  · rw [h.memory_eq, h.written_eq, Bytes.drop_overwrite]

theorem exists_report (skipBlanks : Bool) (text buffer : Bytes) : ∃ front, Report skipBlanks text buffer front := by
  have hstops : Cursor.Stops skipBlanks buffer ([] ++ text) ((Cursor.start buffer).run skipBlanks text) :=
    Cursor.run_stops (Cursor.after_start buffer) fun _ hlt => absurd hlt (Nat.not_lt_zero _)
  have heq := decodeInto_eq_run skipBlanks text buffer
  rw [List.nil_append] at hstops
  generalize (Cursor.start buffer).run skipBlanks text = ran at hstops heq
  cases hstops with
  | @problem front p cursor hfirst hafter =>
    obtain ⟨hle, htake, hdrop⟩ := hafter.written
    obtain ⟨behind, htext, -⟩ := hfirst.exists_at
    refine ⟨front, ⟨behind, htext.symm⟩, hle, ?_, ?_, ?_, Or.inl ⟨p, hfirst, congrArg Prod.fst heq⟩⟩
    · rw [heq, htake]
    · rw [heq, hdrop]
    · rw [heq, hafter.length_memory]
  | @finished cursor hnone hafter =>
    obtain ⟨hle, htake, hdrop⟩ := hafter.written
    refine ⟨text, List.prefix_rfl, hle, ?_, ?_, ?_, Or.inr ⟨rfl, fun _ _ _ => hnone, ?_⟩⟩
    · rw [heq, htake]
    · rw [heq, hdrop]
    · rw [heq, hafter.length_memory]
    · rw [heq, ← length_joined, ← hafter.written_eq]

theorem Report.front_eq {text front front' : Bytes} (h : Report skipBlanks text buffer front)
    (h' : Report skipBlanks text buffer front') : front = front' := by
  rcases h.outcome with ⟨p, hp, -⟩ | ⟨hfront, hnone, -⟩ <;> rcases h'.outcome with ⟨p', hp', -⟩ | ⟨hfront', hnone', -⟩
  · exact hp.front_eq hp'
  · obtain ⟨behind, htext, hat⟩ := hp.exists_at
    exact absurd hat (hnone' front behind p htext)
  · obtain ⟨behind, htext, hat⟩ := hp'.exists_at
    exact absurd hat (hnone front' behind p' htext)
  · rw [hfront, hfront']

/-- One digit too many for the buffer is a digit without a partner. -/
theorem decodeInto_of_surplus {text : Bytes} (hdigits : ∀ c ∈ kept skipBlanks text, (digit? c).isSome)
    (hlength : (digitsIn text).length = 2 * buffer.length + 1) :
    (decodeInto skipBlanks text buffer).1 = .error Problem.missingDigit.error := by
  obtain ⟨front, h⟩ := exists_report skipBlanks text buffer
  rcases h.outcome with ⟨p, hp, hout⟩ | ⟨-, hnone, -⟩
  · obtain ⟨behind, htext, hat⟩ := hp.exists_at
    cases hat with
    | missingDigit => exact hout
    | @stray behind c hkept hdigit =>
      have hmem : c ∈ kept skipBlanks text := by
        rw [htext]
        exact List.mem_filter.mpr ⟨List.mem_append_right _ List.mem_cons_self, by rw [hkept]; rfl⟩
      have hsome := hdigits c hmem
      rw [hdigit] at hsome
      cases hsome
    | @noRoom behind c hdigit hpairs =>
      obtain ⟨n, hn⟩ := Option.isSome_iff_exists.mp hdigit
      have hsplit : digitsIn text = digitsIn front ++ n :: digitsIn behind := by
        rw [htext, digitsIn, List.filterMap_append, List.filterMap_cons_some hn]
        rfl
      rw [hsplit, List.length_append, List.length_cons] at hlength
      omega
  · have hodd : (digitsIn text).length % 2 = 1 := by omega
    exact absurd (.missingDigit hodd) (hnone text [] .missingDigit (List.append_nil text).symm)

/-- **Reading into a caller's buffer reports the first problem**: for every text and every buffer, it reads up to that
problem, it overwrites as many bytes as there are pairs of digits before it, and these with what the pairs stand for.
One digit too many is a missing digit. The same is left in memory by a cursor that writes byte by byte. -/
theorem decodeInto_reports_first (skipBlanks : Bool) (text buffer : Bytes) :
    (∃! front, Report skipBlanks text buffer front) ∧
      ((∀ c ∈ kept skipBlanks text, (digit? c).isSome) → (digitsIn text).length = 2 * buffer.length + 1 →
        (decodeInto skipBlanks text buffer).1 = .error Problem.missingDigit.error) ∧
      decodeInto skipBlanks text buffer =
        match (Cursor.start buffer).run skipBlanks text with
        | (none, cursor) => (.ok cursor.written, cursor.memory)
        | (some p, cursor) => (.error p.error, cursor.memory) := by
  obtain ⟨front, h⟩ := exists_report skipBlanks text buffer
  exact ⟨⟨front, h, fun front' h' => h'.front_eq h⟩, decodeInto_of_surplus, decodeInto_eq_run skipBlanks text buffer⟩

/-- Three digits and a blank, read into one byte: the byte is written, and the third digit has no partner. -/
theorem decodeInto_reports_first_surplus :
    let text : Bytes := [0x34, 0x20, 0x41, 0x62]
    (∀ c ∈ kept true text, (digit? c).isSome) ∧ (digitsIn text).length = 2 * [0xAA].length + 1 ∧
      (∃! front, Report true text [0xAA] front) ∧
      decodeInto true text [0xAA] = (.error Problem.missingDigit.error, [0x4A]) := by
  intro text
  have hall : (kept true text).all (fun c => (digit? c).isSome) = true := by decide
  have hdigits : ∀ c ∈ kept true text, (digit? c).isSome := List.all_eq_true.mp hall
  have hlength : (digitsIn text).length = 2 * [0xAA].length + 1 := by decide
  obtain ⟨hreport, hsurplus, -⟩ := decodeInto_reports_first true text [0xAA]
  refine ⟨hdigits, hlength, hreport, Prod.ext (hsurplus hdigits hlength) ?_⟩
  decide

end Hex

end KeyWrapping
