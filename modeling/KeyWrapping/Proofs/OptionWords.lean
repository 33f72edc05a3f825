import KeyWrapping.Proofs.CommandLines
import Mathlib.Data.List.TakeWhile

/-!
# Words by their looks

A text is cut at every blank, and its words are the pieces that are not empty (`words_eq`). A word of three or more
characters that begins with two dashes is a flag, or, with an equals sign, an option; any other word is plain
(`Look.IsFlag`, `Look.IsOption`, `Look.IsPlain`). Reading a word finds out which of the three it is (`look_of_word`),
and so the flags, options and plain words of a line are those among its words (`flagsIn_map_ofWord`,
`optionsIn_map_ofWord`, `plainsIn_map_ofWord`).
-/

namespace KeyWrapping.Command

/-! ## Cutting at blanks -/

theorem wordsAfter_eq (word text : List Char) :
    wordsAfter word text =
      ((text.splitOnP isBlank).modifyHead (word.reverse ++ ·)).filter (fun piece => !piece.isEmpty) := by
  induction text generalizing word with
  | nil => cases word <;> simp [wordsAfter]
  | cons c text ih =>
    rw [wordsAfter, List.splitOnP_cons_eq_if_modifyHead]
    by_cases hc : isBlank c = true
    · have hrest := ih []
      have hid : (text.splitOnP isBlank).modifyHead ([].reverse ++ ·) = text.splitOnP isBlank := by
        cases text.splitOnP isBlank <;> rfl
      rw [hid] at hrest
      rw [if_pos hc, if_pos hc, hrest, List.modifyHead_cons, List.append_nil, List.filter_cons]
      cases word <;> simp
    · rw [if_neg hc, if_neg hc, ih, List.modifyHead_modifyHead]
      congr 2
      funext piece
      simp

/-- The words of a text are the pieces between blanks that are not empty. -/
theorem words_eq (text : List Char) : words text = (text.splitOnP isBlank).filter (fun piece => !piece.isEmpty) := by
  have hid : (text.splitOnP isBlank).modifyHead ([].reverse ++ ·) = text.splitOnP isBlank := by
    cases text.splitOnP isBlank <;> rfl
  rw [words, wordsAfter_eq, hid]

/-! ## What a word looks like -/

namespace Look

/-- Three or more characters, two dashes first. -/
def IsDashed (word : String) : Prop := 3 ≤ word.length ∧ ['-', '-'] <+: word.toList

def IsFlag (word : String) : Prop := IsDashed word ∧ '=' ∉ word.toList

def IsOption (word : String) : Prop := IsDashed word ∧ '=' ∈ word.toList

def IsPlain (word : String) : Prop := ¬ IsDashed word

instance : DecidablePred IsDashed := fun word =>
  inferInstanceAs (Decidable (3 ≤ word.length ∧ ['-', '-'] <+: word.toList))

instance : DecidablePred IsFlag := fun word => inferInstanceAs (Decidable (IsDashed word ∧ '=' ∉ word.toList))

instance : DecidablePred IsOption := fun word => inferInstanceAs (Decidable (IsDashed word ∧ '=' ∈ word.toList))

instance : DecidablePred IsPlain := fun word => inferInstanceAs (Decidable (¬ IsDashed word))

/-- What is between the dashes and the first equals sign, or the end. -/
def nameOf (word : String) : String := String.ofList ((word.toList.drop 2).takeWhile (· != '='))

/-- What is behind the first equals sign. -/
def valueOf (word : String) : String := String.ofList ((word.toList.drop 2).dropWhile (· != '=')).tail

end Look

open Look

theorem exists_of_isDashed {word : String} (h : IsDashed word) :
    ∃ c rest, word.toList = '-' :: '-' :: c :: rest := by
  obtain ⟨hlength, rest, hword⟩ := h
  rw [← String.length_toList, ← hword] at hlength
  cases rest with
  | nil => simp at hlength
  | cons c rest => exact ⟨c, rest, hword.symm⟩

theorem not_mem_iff_dropWhile {cs : List Char} : '=' ∉ cs ↔ cs.dropWhile (· != '=') = [] := by
  rw [List.dropWhile_eq_nil_iff]
  constructor
  · intro h c hc
    exact Item.forall_bne h c hc
  · intro h hmem
    simpa using h '=' hmem

theorem ofWord_of_isFlag {word : String} (h : IsFlag word) : Item.ofWord word = .flag (nameOf word) := by
  obtain ⟨hdashed, heq⟩ := h
  obtain ⟨c, rest, hword⟩ := exists_of_isDashed hdashed
  have hbody : '=' ∉ c :: rest := fun hmem => heq (by rw [hword]; simp [hmem])
  rw [Item.ofWord, nameOf, hword]
  simp only [Item.ofChars, not_mem_iff_dropWhile.mp hbody, List.drop_succ_cons, List.drop_zero]

theorem ofWord_of_isOption {word : String} (h : IsOption word) :
    Item.ofWord word = .option (nameOf word) (valueOf word) := by
  obtain ⟨hdashed, heq⟩ := h
  obtain ⟨c, rest, hword⟩ := exists_of_isDashed hdashed
  have hbody : '=' ∈ c :: rest := by simpa [hword] using heq
  obtain ⟨d, behind, hdrop⟩ := List.exists_cons_of_ne_nil (mt not_mem_iff_dropWhile.mpr (not_not.mpr hbody))
  rw [Item.ofWord, nameOf, valueOf, hword]
  simp only [Item.ofChars, hdrop, List.drop_succ_cons, List.drop_zero, List.tail_cons]

theorem ofWord_of_isPlain {word : String} (h : IsPlain word) : Item.ofWord word = .plain word := by
  rw [Item.ofWord]
  unfold Item.ofChars
  split
  · next c rest hword =>
    refine absurd ⟨?_, ?_⟩ h
    · rw [← String.length_toList, hword]
      simp
    · exact ⟨c :: rest, hword.symm⟩
  · rw [String.ofList_toList]

/-- Every word looks like one of the three, and is read as that one. -/
theorem look_of_word (word : String) :
    (IsFlag word ∧ ¬ IsOption word ∧ ¬ IsPlain word ∧ Item.ofWord word = .flag (nameOf word)) ∨
    (¬ IsFlag word ∧ IsOption word ∧ ¬ IsPlain word ∧ Item.ofWord word = .option (nameOf word) (valueOf word)) ∨
    (¬ IsFlag word ∧ ¬ IsOption word ∧ IsPlain word ∧ Item.ofWord word = .plain word) := by
  by_cases hdashed : IsDashed word
  · have hplain : ¬ IsPlain word := fun h => h hdashed
    by_cases heq : '=' ∈ word.toList
    · exact .inr (.inl ⟨fun h => h.2 heq, ⟨hdashed, heq⟩, hplain, ofWord_of_isOption ⟨hdashed, heq⟩⟩)
    · exact .inl ⟨⟨hdashed, heq⟩, fun h => heq h.2, hplain, ofWord_of_isFlag ⟨hdashed, heq⟩⟩
  · exact .inr (.inr ⟨fun h => hdashed h.1, fun h => hdashed h.1, hdashed, ofWord_of_isPlain hdashed⟩)

/-! ## Lines by the looks of their words -/

theorem flag?_ofWord (word : String) : (Item.ofWord word).flag? = if IsFlag word then some (nameOf word) else none := by
  obtain ⟨hflag, -, -, hitem⟩ | ⟨hflag, -, -, hitem⟩ | ⟨hflag, -, -, hitem⟩ := look_of_word word <;>
    simp [hflag, hitem, Item.flag?]

theorem option?_ofWord (word : String) :
    (Item.ofWord word).option? = if IsOption word then some (nameOf word, valueOf word) else none := by
  obtain ⟨-, hoption, -, hitem⟩ | ⟨-, hoption, -, hitem⟩ | ⟨-, hoption, -, hitem⟩ := look_of_word word <;>
    simp [hoption, hitem, Item.option?]

theorem plain?_ofWord (word : String) : (Item.ofWord word).plain? = if IsPlain word then some word else none := by
  obtain ⟨-, -, hplain, hitem⟩ | ⟨-, -, hplain, hitem⟩ | ⟨-, -, hplain, hitem⟩ := look_of_word word <;>
    simp [hplain, hitem, Item.plain?]

/-- To pick and turn at once is to pick first and turn then. -/
theorem filterMap_ite {α β : Type} (p : α → Prop) [DecidablePred p] (f : α → β) (xs : List α) :
    xs.filterMap (fun x => if p x then some (f x) else none) = (xs.filter p).map f := by
  induction xs with
  | nil => rfl
  | cons x xs ih => by_cases h : p x <;> simp [h, ih]

section Lines

variable (line : List String)

theorem flagsIn_map_ofWord : flagsIn (line.map Item.ofWord) = (line.filter IsFlag).map nameOf := by
  rw [flagsIn, List.filterMap_map, ← filterMap_ite]
  exact List.filterMap_congr fun word _ => flag?_ofWord word

theorem optionsIn_map_ofWord :
    optionsIn (line.map Item.ofWord) = (line.filter IsOption).map fun word => (nameOf word, valueOf word) := by
  rw [optionsIn, List.filterMap_map, ← filterMap_ite]
  exact List.filterMap_congr fun word _ => option?_ofWord word

theorem plainsIn_map_ofWord : plainsIn (line.map Item.ofWord) = line.filter IsPlain := by
  rw [plainsIn, List.filterMap_map, ← List.map_id (line.filter IsPlain), ← filterMap_ite]
  exact List.filterMap_congr fun word _ => plain?_ofWord word

end Lines

end KeyWrapping.Command
