import KeyWrapping.Proofs.AesCipher
import KeyWrapping.Proofs.EntryPoints
import KeyWrapping.Proofs.ToolRuns

/-!
# The tool reads what it has written

A wrapping command prints the library's wrapping as one line of upper-case hex, and the unwrapping command turns any hex
for this wrapping into one line for the key (`round_trips`). It does not matter how the values are written in hex, in
what places the flag and the option stand between them, and whether the line goes to the output or to a file.
-/

namespace KeyWrapping

/-! ## Keys -/

/-- Whether a key of `n` bytes can be wrapped, with padding or without. -/
def Tool.IsKeyLength : (padded : Bool) → (n : Nat) → Prop
  | false, n => 16 ≤ n ∧ n % 8 = 0 ∧ n / 8 ≤ 2 ^ 32 - 1
  | true, n => 1 ≤ n ∧ n ≤ 2 ^ 32 - 1

namespace AesKek

theorem keyed128_expand (size : Aes.KeySize) (kek : Bytes) :
    (Cipher.mk (some (Aes.expand kek)) : Cipher (Aes.algorithm size)).Keyed128 (Aes.permutation (Aes.expand kek)) :=
  ⟨rfl, rfl⟩

theorem once_of_size {size : Aes.KeySize} {kek : Bytes} (h : size.bytes = kek.length) (service : Service)
    (data : Bytes) :
    once service kek data = service.run (Cipher.mk (some (Aes.expand kek)) : Cipher (Aes.algorithm size)) data := by
  rw [once, create_of_size h]
  rfl

/-- A key that can be wrapped comes out of its wrapping, under every key encryption key. -/
theorem once_round_trip {kek key : Bytes} (hkek : kek.length ∈ [16, 24, 32]) {padded : Bool}
    (hkey : Tool.IsKeyLength padded key.length) :
    ∃ wrapped, once (if padded then .wrapPadded else .wrap) kek key = .ok wrapped ∧
      once (if padded then .unwrapPadded else .unwrap) kek wrapped = .ok key := by
  obtain ⟨size, hsize⟩ := exists_size hkek
  have hc := keyed128_expand size kek
  have hp := Aes.permutation_inverse kek
  simp only [once_of_size hsize]
  cases padded with
  | false =>
    have hw := (Unpadded.wrap_eq hc key).trans (if_pos hkey)
    exact ⟨_, hw, Unpadded.unwrap_wrapped hc hp hw⟩
  | true =>
    have hw := (Padded.wrap_eq_ok_iff hc).mpr ⟨hkey, rfl⟩
    exact ⟨_, hw, Padded.unwrap_wrapped hc hp hw⟩

end AesKek

namespace Tool

open Command

/-- With no name for the cipher, the library is asked for AES of the size of the key encryption key. -/
theorem named_eq_once {kek : Bytes} (h : kek.length ∈ [16, 24, 32]) (service : Service) (data : Bytes) :
    named service "" kek data = AesKek.once service kek data := by
  obtain ⟨size, hsize⟩ := AesKek.exists_size h
  have hname : algorithmName "" kek = size.name := by
    rw [algorithmName, ← hsize]
    rfl
  rw [named, hname, AesKek.find_name, ok_bind, AesKek.setKey_eq hsize, ok_bind, AesKek.once_of_size hsize]

theorem headed_round_trip {kek header key : Bytes} (hkek : kek.length = 32) (hheader : header.length = 16)
    (hkey : 16 ≤ key.length ∧ key.length % 16 = 0) :
    ∃ wrapped, headed .wrap kek header key = .ok wrapped ∧ headed .unwrap kek header wrapped = .ok key := by
  have hc : (Belt.keyed kek).permutation = .ok (Belt.permutation (Belt.expand kek)) := rfl
  have hw : BeltKek.Service.wrap.run (.ok (Belt.keyed kek)) key header = _ :=
    (Headed.wrap_eq hc hheader key).trans (if_pos hkey)
  have hu := Headed.unwrap_wrapping hheader hkey.1 hkey.2 hc hheader
  rw [if_pos rfl] at hu
  simp only [headed, BeltKek.create_eq hkek, ok_bind]
  exact ⟨_, hw, hu⟩

/-! ## Lines -/

/-- The outcome of a run that printed a line, to a file if one is named. -/
def printing (line : String) : (path : Option String) → Outcome
  | none => ⟨0, line, "", none⟩
  | some path => ⟨0, "", "", some (path, line)⟩

/-- The items are the plain words in their order, and anywhere between them the flag for padding, if that is wanted, and
the option for a file that can be opened, if the line is to go there. -/
structure Arranges (canOpen : String → Bool) (items : List Item) (padded : Bool) (words : List String)
    (path : Option String) : Prop where
  plains : plainsIn items = words
  flags : ∀ name, .flag name ∈ items ↔ name = "padded" ∧ padded = true
  options : optionsIn items = path.toList.map fun p => ("output", p)
  opens : ∀ p ∈ path, p ≠ "" ∧ canOpen p = true

theorem named?_name (t : Task) : Task.named? (commandName t.name) = some t := by
  cases t <;> decide

theorem mem_plainsIn_iff {items : List Item} {word : String} : word ∈ plainsIn items ↔ .plain word ∈ items := by
  rw [plainsIn, List.mem_filterMap]
  constructor
  · rintro ⟨item, hi, hp⟩
    cases item <;> cases hp
    exact hi
  · intro h
    exact ⟨_, h, rfl⟩

namespace Arranges

variable {canOpen : String → Bool} {items : List Item} {padded : Bool} {words : List String} {path : Option String}
  (h : Arranges canOpen items padded words path)
include h

theorem option_mem {name value : String} (hmem : .option name value ∈ items) : name = "output" ∧ path = some value := by
  rw [← Spec.mem_optionsIn_iff, h.options, List.mem_map] at hmem
  obtain ⟨p, hp, he⟩ := hmem
  cases he
  exact ⟨rfl, Option.mem_toList.mp hp⟩

theorem flag_notMem {name : String} (hne : name ≠ "padded") : .flag name ∉ items :=
  fun hmem => hne ((h.flags name).mp hmem).1

theorem optionIn_eq (name : String) : optionIn items name = if name = "output" then path.getD "" else "" := by
  rw [optionIn, h.options]
  cases path with
  | none => simp
  | some p => by_cases hname : name = "output" <;> simp [hname]

theorem fileIn_eq : fileIn items = path := by
  rw [fileIn, h.optionIn_eq, if_pos rfl]
  cases path with
  | none => rfl
  | some p => exact if_neg (mt String.isEmpty_iff.mp (h.opens p rfl).1)

theorem not_namesUnopenable : ¬ NamesUnopenable canOpen items := by
  rintro ⟨value, hmem, -, hclosed⟩
  obtain ⟨-, rfl⟩ := h.option_mem hmem
  rw [(h.opens value rfl).2] at hclosed
  cases hclosed

/-- Hex words, the flag and the option are read as what they are. -/
theorem map_ofWord (hwords : ∀ w ∈ words, Hex.IsHex w) : (items.map Item.word).map Item.ofWord = items := by
  rw [List.map_map]
  refine (List.map_congr_left fun item hitem => ?_).trans (List.map_id items)
  apply Item.ofWord_word
  cases item with
  | flag name =>
    obtain ⟨rfl, -⟩ := (h.flags name).mp hitem
    exact ⟨by decide, by decide⟩
  | option name value =>
    obtain ⟨rfl, -⟩ := h.option_mem hitem
    exact (by decide : '=' ∉ "output".toList)
  | plain word => exact Hex.head?_of_isHex (hwords word (h.plains ▸ mem_plainsIn_iff.mpr hitem))

theorem accepts {t : Task} (hflags : padded = true → "padded" ∈ t.spec.flags)
    (hlength : words.length = t.spec.positionals.length) : t.spec.Accepts items where
  known := by
    rintro (name | ⟨name, value⟩ | word) hitem
    · obtain ⟨rfl, hp⟩ := (h.flags name).mp hitem
      exact hflags hp
    · obtain ⟨rfl, -⟩ := h.option_mem hitem
      exact Spec.isSome_lookup_iff.mp (by rw [t.output_spec.2]; rfl)
    · trivial
  once := by
    rw [h.options]
    cases path <;> simp
  complete := Or.inr (by rw [h.plains, hlength])

end Arranges

theorem forall_isHex {words : List String} {values : List Bytes} (h : List.Forall₂ Hex.Spells words values) :
    ∀ w ∈ words, Hex.IsHex w :=
  ((List.forall₂_and_left _ _).mp (h.imp fun _ bytes hw => ⟨Hex.exists_spells_iff.mp ⟨bytes, hw⟩, hw⟩)).1

/-- The line for a service prints what the library gives for its values. -/
theorem run_arranged {t : Task} (ht : t.IsService) {canOpen : String → Bool} {items : List Item} {padded : Bool}
    {words : List String} {path : Option String} (h : Arranges canOpen items padded words path)
    (hflags : padded = true → "padded" ∈ t.spec.flags) {values : List Bytes}
    (hlength : values.length = t.spec.positionals.length) (hvalues : List.Forall₂ Hex.Spells words values)
    {result : Bytes} (hcall : t.call items values = .ok result) :
    Tool.run canOpen (t.name :: items.map Item.word) = printing (Hex.upperText result ++ "\n") path := by
  have hwords : ∀ w ∈ words, Hex.IsHex w := forall_isHex hvalues
  have hread := h.map_ofWord hwords
  have hline := h.accepts hflags (hvalues.length_eq.trans hlength)
  have hhelp : .flag "help" ∉ items := h.flag_notMem (by decide)
  obtain ⟨errors, hrun, herrors⟩ := (Task.serves t ht hline hhelp).ok values result (h.plains ▸ hvalues) hcall
  obtain rfl : errors = "" := herrors (h.flag_notMem (by decide))
  rw [run_cons (named?_name t)]
  rw [← hread] at hline hhelp
  have hfile : ¬ NamesUnopenable canOpen ((items.map Item.word).map Item.ofWord) := hread.symm ▸ h.not_namesUnopenable
  rw [run_of_not_namesUnopenable hline hhelp hfile, hread, h.fileIn_eq, perform_of_ok hrun]
  cases path <;> rfl

/-! ## Round trips -/

/-- One command prints upper-case hex for a wrapping, whatever the line and the spelling of its values, and the other
takes any spelling of this wrapping and prints upper-case hex for the key. The two share the values that come first. -/
structure RoundTrip (canOpen : String → Bool) (wrap unwrap : String) (padded : Bool) (shared : List Bytes)
    (key wrapped : Bytes) : Prop where
  wraps : ∃ line, Hex.IsUpper line wrapped ∧ ∀ items words path, Arranges canOpen items padded words path →
    List.Forall₂ Hex.Spells words (shared ++ [key]) →
      Tool.run canOpen (wrap :: items.map Item.word) = printing (line ++ "\n") path
  unwraps : ∃ line, Hex.IsUpper line key ∧ ∀ items words path, Arranges canOpen items padded words path →
    List.Forall₂ Hex.Spells words (shared ++ [wrapped]) →
      Tool.run canOpen (unwrap :: items.map Item.word) = printing (line ++ "\n") path

theorem call_named {canOpen : String → Bool} {items : List Item} {padded : Bool} {words : List String}
    {path : Option String} (h : Arranges canOpen items padded words path) {kek : Bytes}
    (hkek : kek.length ∈ [16, 24, 32]) (data : Bytes) :
    Task.call items .nistWrap [kek, data] = AesKek.once (if padded then .wrapPadded else .wrap) kek data ∧
      Task.call items .nistUnwrap [kek, data] = AesKek.once (if padded then .unwrapPadded else .unwrap) kek data := by
  have hpadded : .flag "padded" ∈ items ↔ padded = true := (h.flags "padded").trans (and_iff_right rfl)
  have hcipher : optionIn items "cipher" = "" := (h.optionIn_eq "cipher").trans (if_neg (by decide))
  simp only [Task.call, hpadded, hcipher, named_eq_once hkek, and_self]

/-- **The tool reads what it has written**: a key of any length that the library wraps comes back from the line that its
wrapping was printed in. -/
theorem round_trips (canOpen : String → Bool) :
    (∀ (padded : Bool) (kek key : Bytes), kek.length ∈ [16, 24, 32] → IsKeyLength padded key.length →
      ∃ wrapped, AesKek.once (if padded then .wrapPadded else .wrap) kek key = .ok wrapped ∧
        RoundTrip canOpen "nist_kw_wrap" "nist_kw_unwrap" padded [kek] key wrapped) ∧
    ∀ kek header key : Bytes, kek.length = 32 → header.length = 16 → 16 ≤ key.length ∧ key.length % 16 = 0 →
      ∃ k wrapped, BeltKek.create kek = .ok k ∧ BeltKek.Service.wrap.run (.ok k.cipher) key header = .ok wrapped ∧
        RoundTrip canOpen "belt_kwp_wrap" "belt_kwp_unwrap" false [kek, header] key wrapped := by
  constructor
  · intro padded kek key hkek hkey
    obtain ⟨wrapped, hwrap, hunwrap⟩ := AesKek.once_round_trip hkek hkey
    refine ⟨wrapped, hwrap, ⟨_, Hex.isUpper_iff.mpr rfl, ?_⟩, ⟨_, Hex.isUpper_iff.mpr rfl, ?_⟩⟩
    · intro items words path hline hwords
      exact run_arranged (t := .nistWrap) (by decide) hline (fun _ => by decide) rfl hwords
        ((call_named hline hkek key).1.trans hwrap)
    · intro items words path hline hwords
      exact run_arranged (t := .nistUnwrap) (by decide) hline (fun _ => by decide) rfl hwords
        ((call_named hline hkek wrapped).2.trans hunwrap)
  · intro kek header key hkek hheader hkey
    obtain ⟨wrapped, hwrap, hunwrap⟩ := headed_round_trip hkek hheader hkey
    obtain ⟨k, hk, hresult⟩ := exists_of_bind_eq_ok hwrap
    refine ⟨k, wrapped, hk, hresult, ⟨_, Hex.isUpper_iff.mpr rfl, ?_⟩, ⟨_, Hex.isUpper_iff.mpr rfl, ?_⟩⟩
    · intro items words path hline hwords
      exact run_arranged (t := .beltWrap) (by decide) hline (by simp) rfl hwords hwrap
    · intro items words path hline hwords
      exact run_arranged (t := .beltUnwrap) (by decide) hline (by simp) rfl hwords hunwrap

/-- A key of one byte is wrapped with padding into a file, and the line in the file gives it back. -/
theorem round_trips_one_byte :
    ∃ line, Tool.run (fun _ => true)
        ["nist_kw_wrap", "00000000000000000000000000000000", "--output=f", " 0\tf", "--padded"] =
          ⟨0, "", "", some ("f", line ++ "\n")⟩ ∧
      Tool.run (fun _ => true) ["nist_kw_unwrap", "--padded", "00000000000000000000000000000000", line] =
        ⟨0, "0F\n", "", none⟩ := by
  obtain ⟨wrapped, -, ⟨line, hline, hwraps⟩, ⟨line', hline', hunwraps⟩⟩ :=
    (round_trips fun _ => true).1 true (.zeros 16) [0x0F] (by decide) ⟨by decide, by decide⟩
  obtain rfl : "0F" = line' := Hex.isUpper_iff.mp hline'
  have hkek : Hex.Spells "00000000000000000000000000000000" (.zeros 16) := rfl
  have hkey : Hex.Spells " 0\tf" [0x0F] := rfl
  refine ⟨line, ?_, ?_⟩
  · exact hwraps
      [.plain "00000000000000000000000000000000", .option "output" "f", .plain " 0\tf", .flag "padded"] _ (some "f")
      ⟨rfl, by simp, rfl, by simp⟩ (.cons hkek (.cons hkey .nil))
  · exact hunwraps [.flag "padded", .plain "00000000000000000000000000000000", .plain line] _ none
      ⟨rfl, by simp, rfl, by simp⟩ (.cons hkek (.cons hline.1 .nil))

end Tool

end KeyWrapping
