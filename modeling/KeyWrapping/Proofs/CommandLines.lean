import KeyWrapping.Command.Spec
import Mathlib.Data.List.Forall2

/-!
# What the words of a command line make

Words are items written out (`Item.word_ofWord`), and an item that is written out is read as itself if nothing in it
looks like something else (`Item.ofWord_word`). So a command line can be looked at as a list of items.

Reading takes the items one by one. What has been read at any time is the flags, the options and the plain words among
the items so far (`Given.of`), and the next item is read if it is known and no option that is among them already
(`take_of_eq_ok_iff`, `takeAll_of_eq_ok_iff`). So a declaration accepts a line for what is in it and not for its order
(`Spec.Accepts`, `request_eq_ok_iff`), and the values in the request can be read off the line (`forall₂_value?`,
`value?_of_notMem`).
-/

namespace KeyWrapping.Command

/-! ## Items and words -/

namespace Item

/-- The word that an item is written as. -/
def word : Item → String
  | flag name => String.ofList ('-' :: '-' :: name.toList)
  | option name value => String.ofList ('-' :: '-' :: name.toList ++ '=' :: value.toList)
  | plain word => word

/-- An item that is not read as another one when it is written out. -/
def Readable : Item → Prop
  | flag name => name.toList ≠ [] ∧ '=' ∉ name.toList
  | option name _ => '=' ∉ name.toList
  | plain word => word.toList.head? ≠ some '-'

section Chars

variable {name : List Char}

theorem forall_bne (h : '=' ∉ name) : ∀ c ∈ name, (c != '=') = true :=
  fun _ hc => bne_iff_ne.mpr fun he => h (he ▸ hc)

theorem ofChars_flag (hne : name ≠ []) (h : '=' ∉ name) : ofChars ('-' :: '-' :: name) = flag (String.ofList name) := by
  have htake : (name ++ []).takeWhile (· != '=') = name ++ [].takeWhile (· != '=') :=
    List.takeWhile_append_of_pos (forall_bne h)
  have hdrop : (name ++ []).dropWhile (· != '=') = [] := List.dropWhile_append_of_pos (forall_bne h)
  rw [List.append_nil, List.takeWhile_nil, List.append_nil] at htake
  rw [List.append_nil] at hdrop
  obtain ⟨c, rest, rfl⟩ := List.exists_cons_of_ne_nil hne
  simp only [ofChars, htake, hdrop]

theorem ofChars_option (h : '=' ∉ name) (value : List Char) :
    ofChars ('-' :: '-' :: (name ++ '=' :: value)) = option (String.ofList name) (String.ofList value) := by
  have htake : (name ++ '=' :: value).takeWhile (· != '=') = name := by
    rw [List.takeWhile_append_of_pos (forall_bne h), List.takeWhile_cons_of_neg (by decide), List.append_nil]
  have hdrop : (name ++ '=' :: value).dropWhile (· != '=') = '=' :: value := by
    rw [List.dropWhile_append_of_pos (forall_bne h), List.dropWhile_cons_of_neg (by decide)]
  obtain ⟨c, rest, hbody⟩ := List.exists_cons_of_ne_nil (l := name ++ '=' :: value) (by simp)
  rw [hbody] at htake hdrop ⊢
  simp only [ofChars, htake, hdrop]

theorem ofChars_plain {cs : List Char} (h : cs.head? ≠ some '-') : ofChars cs = plain (String.ofList cs) := by
  unfold ofChars
  split
  · exact absurd rfl h
  · rfl

end Chars

theorem ofWord_word {item : Item} (h : item.Readable) : ofWord item.word = item := by
  cases item with
  | flag name =>
    rw [ofWord, word, String.toList_ofList, ofChars_flag h.1 h.2, String.ofList_toList]
  | option name value =>
    rw [ofWord, word, String.toList_ofList, List.cons_append, List.cons_append, ofChars_option h, String.ofList_toList,
      String.ofList_toList]
  | plain word => rw [Item.word, ofWord, ofChars_plain h, String.ofList_toList]

theorem word_ofChars (cs : List Char) : (ofChars cs).word = String.ofList cs := by
  unfold ofChars
  split
  · next c rest =>
    have hsplit := List.takeWhile_append_dropWhile (p := (· != '=')) (l := c :: rest)
    have hhead := List.head?_dropWhile_not (· != '=') (c :: rest)
    dsimp only
    split
    · next hdrop =>
      rw [hdrop, List.append_nil] at hsplit
      rw [word, String.toList_ofList, hsplit]
    · next d value hdrop =>
      rw [hdrop] at hsplit hhead
      obtain rfl : d = '=' := by simpa using hhead
      rw [word, String.toList_ofList, String.toList_ofList, List.cons_append, List.cons_append, hsplit]
  · rfl

theorem word_ofWord (w : String) : (ofWord w).word = w := (word_ofChars w.toList).trans (String.ofList_toList)

end Item

/-! ## Lines that a declaration accepts -/

/-- The flags among the items. -/
def flagsIn (items : List Item) : List String := items.filterMap Item.flag?

/-- The options among the items. -/
def optionsIn (items : List Item) : List (String × String) := items.filterMap Item.option?

/-- The plain words among the items. -/
def plainsIn (items : List Item) : List String := items.filterMap Item.plain?

/-- What has been read after these items. -/
def Given.of (items : List Item) : Given :=
  ⟨(flagsIn items).reverse, (optionsIn items).reverse, (plainsIn items).reverse⟩

namespace Spec

variable (spec : Spec)

/-- A flag or an option is one that the declaration has. -/
def Knows : Item → Prop
  | .flag name => name ∈ spec.flags
  | .option name _ => name ∈ spec.options.map Prod.fst
  | .plain _ => True

/-- A line of items that the declaration accepts. -/
structure Accepts (items : List Item) : Prop where
  known : ∀ item ∈ items, spec.Knows item
  once : ((optionsIn items).map Prod.fst).Nodup
  /-- A request for help need not be complete. -/
  complete : .flag "help" ∈ items ∨ (plainsIn items).length = spec.positionals.length

variable {spec}

theorem isSome_lookup_iff {name : String} {values : List (String × String)} :
    (values.lookup name).isSome = true ↔ name ∈ values.map Prod.fst := by
  rw [List.lookup_isSome_iff, List.mem_map]
  constructor
  · rintro ⟨v, hv, he⟩
    exact ⟨v, hv, (eq_of_beq he).symm⟩
  · rintro ⟨v, hv, rfl⟩
    exact ⟨v, hv, beq_self_eq_true _⟩

/-- One more word is read if it is known and no option that has been read already. -/
theorem take_of_eq_ok_iff {items : List Item} {word : String} {given : Given}
    (h : ((optionsIn items).map Prod.fst).Nodup) :
    spec.take (.of items) word = .ok given ↔
      spec.Knows (.ofWord word) ∧ ((optionsIn (items ++ [.ofWord word])).map Prod.fst).Nodup ∧
        Given.of (items ++ [.ofWord word]) = given := by
  rw [take]
  cases Item.ofWord word with
  | flag name =>
    have hoptions : optionsIn (items ++ [.flag name]) = optionsIn items := by simp [optionsIn, Item.option?]
    have hgiven : Given.of (items ++ [.flag name]) =
        { Given.of items with flags := name :: (Given.of items).flags } := by
      simp [Given.of, flagsIn, optionsIn, plainsIn, Item.flag?, Item.option?, Item.plain?]
    rw [hoptions, hgiven]
    by_cases hk : name ∈ spec.flags <;> simp [Knows, hk, h]
  | option name value =>
    have hoptions : optionsIn (items ++ [.option name value]) = optionsIn items ++ [(name, value)] := by
      simp [optionsIn, Item.option?]
    have hgiven : Given.of (items ++ [.option name value]) =
        { Given.of items with options := (name, value) :: (Given.of items).options } := by
      simp [Given.of, flagsIn, optionsIn, plainsIn, Item.flag?, Item.option?, Item.plain?]
    have hknown : (spec.options.lookup name).isNone = true ↔ ¬ spec.Knows (.option name value) := by
      rw [Option.isNone_iff_eq_none, ← Option.not_isSome_iff_eq_none, isSome_lookup_iff]
      rfl
    have hagain : ((Given.of items).options.lookup name).isSome = true ↔ name ∈ (optionsIn items).map Prod.fst := by
      rw [isSome_lookup_iff, Given.of, List.map_reverse, List.mem_reverse]
    have hnodup : ((optionsIn items ++ [(name, value)]).map Prod.fst).Nodup ↔
        name ∉ (optionsIn items).map Prod.fst := by
      exact (List.perm_append_comm.map Prod.fst).nodup_iff.trans (List.nodup_cons.trans (and_iff_left h))
    rw [hoptions, hgiven, hnodup]
    by_cases hk : spec.Knows (.option name value) <;> by_cases ha : name ∈ (optionsIn items).map Prod.fst <;>
      simp [hknown, hagain, hk, ha]
  | plain w =>
    have hoptions : optionsIn (items ++ [.plain w]) = optionsIn items := by simp [optionsIn, Item.option?]
    have hgiven : Given.of (items ++ [.plain w]) = { Given.of items with plain := w :: (Given.of items).plain } := by
      simp [Given.of, flagsIn, optionsIn, plainsIn, Item.flag?, Item.option?, Item.plain?]
    rw [hoptions, hgiven]
    simp [Knows, h]

/-- Reading goes through if all words are known and no option comes twice. -/
theorem takeAll_of_eq_ok_iff {items : List Item} {params : List String} {given : Given}
    (h : ((optionsIn items).map Prod.fst).Nodup) :
    spec.takeAll (.of items) params = .ok given ↔
      (∀ item ∈ params.map Item.ofWord, spec.Knows item) ∧
        ((optionsIn (items ++ params.map Item.ofWord)).map Prod.fst).Nodup ∧
        Given.of (items ++ params.map Item.ofWord) = given := by
  induction params generalizing items with
  | nil => simp [takeAll, h]
  | cons word rest ih =>
    have happend : items ++ (word :: rest).map Item.ofWord = items ++ [.ofWord word] ++ rest.map Item.ofWord := by simp
    have hdone : ((optionsIn (items ++ (word :: rest).map Item.ofWord)).map Prod.fst).Nodup →
        ((optionsIn (items ++ [.ofWord word])).map Prod.fst).Nodup := by
      rw [happend, optionsIn, List.filterMap_append, List.map_append]
      exact fun hn => (List.nodup_append.mp hn).1
    cases htake : spec.take (.of items) word with
    | error e =>
      rw [takeAll, htake]
      refine iff_of_false (by simp [bind, Except.bind]) ?_
      rintro ⟨hknown, hnodup, -⟩
      have hok := (take_of_eq_ok_iff h).mpr ⟨hknown _ List.mem_cons_self, hdone hnodup, rfl⟩
      cases htake.symm.trans hok
    | ok g =>
      obtain ⟨hk, hn, rfl⟩ := (take_of_eq_ok_iff h).mp htake
      have hstep : spec.takeAll (.of items) (word :: rest) = spec.takeAll (.of (items ++ [.ofWord word])) rest := by
        rw [takeAll, htake]
        rfl
      rw [hstep, ih hn, happend]
      simp [hk]

variable (spec) in
/-- The request that an accepted line makes. -/
def requestOf (items : List Item) : Request :=
  if .flag "help" ∈ items then ⟨(flagsIn items).reverse, (optionsIn items).reverse⟩
  else
    ⟨(flagsIn items).reverse,
      (spec.positionals.zip (plainsIn items)).reverse ++ (optionsIn items).reverse ++ spec.options⟩

theorem mem_flagsIn_iff {items : List Item} {name : String} : name ∈ flagsIn items ↔ .flag name ∈ items := by
  rw [flagsIn, List.mem_filterMap]
  constructor
  · rintro ⟨item, hi, hf⟩
    cases item <;> cases hf
    exact hi
  · intro h
    exact ⟨_, h, rfl⟩

/-- What becomes of a line that has been read to its end. -/
theorem request_of_takeAll {params : List String} {items : List Item}
    (h : spec.takeAll (.of []) params = .ok (.of items)) :
    spec.request params =
      if .flag "help" ∈ items ∨ (plainsIn items).length = spec.positionals.length then .ok (spec.requestOf items)
      else .error (.wrongCount (plainsIn items).length spec.positionals.length) := by
  have hhelp : "help" ∈ (Given.of items).flags ↔ .flag "help" ∈ items := by
    rw [Given.of, List.mem_reverse, mem_flagsIn_iff]
  have hplain : (Given.of items).plain.reverse = plainsIn items := List.reverse_reverse _
  have hcount : (Given.of items).plain.length = (plainsIn items).length := List.length_reverse
  rw [request]
  change (spec.takeAll (.of []) params >>= _) = _
  simp only [h, bind, Except.bind, pure, Except.pure, hhelp, hplain, hcount, requestOf]
  by_cases hh : .flag "help" ∈ items <;> by_cases hc : (plainsIn items).length = spec.positionals.length <;>
    simp [hh, hc, Given.of, throw, throwThe, MonadExceptOf.throw]

theorem request_of_takeAll_error {params : List String} {e : UsageError} (h : spec.takeAll (.of []) params = .error e) :
    spec.request params = .error e := by
  rw [request]
  change (spec.takeAll (.of []) params >>= _) = _
  rw [h]
  rfl

/-- **A declaration accepts its lines and no others**, and makes of each the request for its items. -/
theorem request_eq_ok_iff {params : List String} {r : Request} :
    spec.request params = .ok r ↔
      spec.Accepts (params.map Item.ofWord) ∧ spec.requestOf (params.map Item.ofWord) = r := by
  have hrun {given : Given} := @takeAll_of_eq_ok_iff spec [] params given .nil
  rw [List.nil_append] at hrun
  cases ht : spec.takeAll (.of []) params with
  | error e =>
    rw [request_of_takeAll_error ht]
    refine iff_of_false (by simp) ?_
    rintro ⟨⟨hknown, honce, -⟩, -⟩
    cases ht.symm.trans (hrun.mpr ⟨hknown, honce, rfl⟩)
  | ok given =>
    obtain ⟨hknown, honce, rfl⟩ := hrun.mp ht
    generalize params.map Item.ofWord = items at *
    rw [request_of_takeAll ht]
    by_cases hcomplete : .flag "help" ∈ items ∨ (plainsIn items).length = spec.positionals.length
    · rw [if_pos hcomplete, Except.ok.injEq]
      exact (and_iff_right ⟨hknown, honce, hcomplete⟩).symm
    · rw [if_neg hcomplete]
      exact iff_of_false (by simp) fun h => hcomplete h.1.complete

theorem exists_request_eq_error_iff {params : List String} :
    (∃ e, spec.request params = .error e) ↔ ¬ spec.Accepts (params.map Item.ofWord) := by
  constructor
  · rintro ⟨e, he⟩ h
    cases he.symm.trans (request_eq_ok_iff.mpr ⟨h, rfl⟩)
  · intro h
    cases hr : spec.request params with
    | error e => exact ⟨e, rfl⟩
    | ok r => exact absurd (request_eq_ok_iff.mp hr).1 h

/-! ## Values in requests -/

theorem has_requestOf {items : List Item} {name : String} :
    (spec.requestOf items).has name = true ↔ .flag name ∈ items := by
  have hflags : (spec.requestOf items).flags = (flagsIn items).reverse := by
    rw [requestOf]
    split <;> rfl
  rw [Request.has, decide_eq_true_iff, hflags, List.mem_reverse, mem_flagsIn_iff]

theorem mem_optionsIn_iff {items : List Item} {name value : String} :
    (name, value) ∈ optionsIn items ↔ .option name value ∈ items := by
  rw [optionsIn, List.mem_filterMap]
  constructor
  · rintro ⟨item, hi, ho⟩
    cases item <;> cases ho
    exact hi
  · intro h
    exact ⟨_, h, rfl⟩

theorem lookup_eq_some_iff_mem {values : List (String × String)} (h : (values.map Prod.fst).Nodup)
    {name value : String} : values.lookup name = some value ↔ (name, value) ∈ values := by
  induction values with
  | nil => simp
  | cons v values ih =>
    rw [List.map_cons, List.nodup_cons] at h
    by_cases hname : name = v.1
    · have hnot : (name, value) ∉ values := fun hm => h.1 (hname ▸ List.mem_map_of_mem hm)
      rw [List.lookup_cons, hname, beq_self_eq_true, ← hname, List.mem_cons, or_iff_left hnot, Prod.ext_iff]
      simp [hname, eq_comm]
    · rw [List.lookup_cons, beq_eq_false_iff_ne.mpr hname]
      refine (ih h.2).trans ?_
      simp [Prod.ext_iff, hname]

theorem lookup_reverse {values : List (String × String)} (h : (values.map Prod.fst).Nodup) (name : String) :
    values.reverse.lookup name = values.lookup name := by
  apply Option.ext
  intro value
  have hreverse : (values.reverse.map Prod.fst).Nodup := by
    rw [List.map_reverse]
    exact (List.reverse_perm _).nodup_iff.mpr h
  rw [lookup_eq_some_iff_mem h, lookup_eq_some_iff_mem hreverse, List.mem_reverse]

section Values

variable {items : List Item} (h : spec.Accepts items) (hhelp : .flag "help" ∉ items)
include h hhelp

theorem length_plainsIn : (plainsIn items).length = spec.positionals.length := h.complete.resolve_left hhelp

/-- The plain words are the values of the names in their order. -/
theorem forall₂_value? (hnodup : spec.positionals.Nodup) :
    List.Forall₂ (fun name word => (spec.requestOf items).value? name = some word)
      spec.positionals (plainsIn items) := by
  have hnames : ((spec.positionals.zip (plainsIn items)).map Prod.fst).Nodup := by
    rwa [List.map_fst_zip (Nat.le_of_eq (length_plainsIn h hhelp).symm)]
  refine List.forall₂_iff_zip.mpr ⟨(length_plainsIn h hhelp).symm, ?_⟩
  intro name word hmem
  rw [Request.value?, requestOf, if_neg hhelp, List.append_assoc, List.lookup_append, lookup_reverse hnames,
    (lookup_eq_some_iff_mem hnames).mpr hmem, Option.some_or]

/-- Any other name has the value of the option, or else the default. -/
theorem value?_of_notMem {name : String} (hname : name ∉ spec.positionals) :
    (spec.requestOf items).value? name = ((optionsIn items).lookup name).or (spec.options.lookup name) := by
  have hnone : (spec.positionals.zip (plainsIn items)).reverse.lookup name = none := by
    rw [← Option.not_isSome_iff_eq_none, isSome_lookup_iff, List.map_reverse, List.mem_reverse,
      List.map_fst_zip (Nat.le_of_eq (length_plainsIn h hhelp).symm)]
    exact hname
  rw [Request.value?, requestOf, if_neg hhelp, List.append_assoc, List.lookup_append, hnone, Option.none_or,
    List.lookup_append, lookup_reverse h.once]

end Values

theorem Accepts.lookup_eq_some_iff {items : List Item} (h : spec.Accepts items) {name value : String} :
    (optionsIn items).lookup name = some value ↔ .option name value ∈ items := by
  rw [lookup_eq_some_iff_mem h.once, mem_optionsIn_iff]

end Spec

end KeyWrapping.Command
