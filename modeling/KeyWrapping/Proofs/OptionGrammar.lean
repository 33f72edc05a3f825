import KeyWrapping.Proofs.OptionWords

/-!
# The grammar of options

The words of a text behind the first declare which flags, options and plain words a line of parameters may have
(`Grammar.flags`, `Grammar.options`, `Grammar.positionals`). A line follows the grammar if every flag and option in it
is declared, no option comes twice, and there are as many plain words as are declared, unless help is asked for
(`Grammar.Follows`). The lines that follow the grammar are those that are read (`accepts_iff`). What is read of them is
given by name (`Grammar.Answers`), and why another line is not read has one of four reasons (`Grammar.Explains`).

The order of a line does not count, but for the plain words among themselves (`Spec.Accepts.of_perm`,
`Spec.value?_requestOf_of_perm`).
-/

namespace KeyWrapping.Command

open Look

/-! ## Lines in another order -/

namespace Spec

variable {spec : Spec} {items items' : List Item}

/-- Whether a line is accepted does not depend on its order. -/
theorem Accepts.of_perm (h : spec.Accepts items) (hperm : items'.Perm items) : spec.Accepts items' where
  known item hitem := h.known item (hperm.subset hitem)
  once := ((hperm.filterMap Item.option?).map Prod.fst).nodup_iff.mpr h.once
  complete := h.complete.imp (fun hhelp => hperm.symm.subset hhelp) (hperm.filterMap Item.plain?).length_eq.trans

theorem has_requestOf_of_perm (hperm : items'.Perm items) (name : String) :
    (spec.requestOf items').has name = (spec.requestOf items).has name := by
  rw [Bool.eq_iff_iff, has_requestOf, has_requestOf, hperm.mem_iff]

/-- The values do not depend on the order, as long as the plain words keep theirs. -/
theorem value?_requestOf_of_perm (h : spec.Accepts items) (hperm : items'.Perm items)
    (hplain : plainsIn items' = plainsIn items) (name : String) :
    (spec.requestOf items').value? name = (spec.requestOf items).value? name := by
  have h' := h.of_perm hperm
  have hoptions : (optionsIn items').reverse.lookup name = (optionsIn items).reverse.lookup name := by
    rw [lookup_reverse h'.once, lookup_reverse h.once]
    apply Option.ext
    intro value
    rw [h'.lookup_eq_some_iff, h.lookup_eq_some_iff, hperm.mem_iff]
  by_cases hhelp : .flag "help" ∈ items
  · rw [Request.value?, Request.value?, requestOf, requestOf, if_pos hhelp, if_pos (hperm.mem_iff.mpr hhelp), hoptions]
  · rw [Request.value?, Request.value?, requestOf, requestOf, if_neg hhelp, if_neg (mt hperm.mem_iff.mp hhelp), hplain]
    simp only [List.lookup_append, hoptions]

/-! ## Values of accepted lines -/

/-- Of the places with one name, the last one counts. -/
theorem lookup_reverse_zip {names words : List String} {i : Nat} {name word : String} (hname : names[i]? = some name)
    (hword : words[i]? = some word) (hlast : ∀ j, i < j → names[j]? ≠ some name) :
    (names.zip words).reverse.lookup name = some word := by
  induction names generalizing words i with
  | nil => cases hname
  | cons n names ih =>
    cases words with
    | nil => cases hword
    | cons w words =>
      rw [List.zip_cons_cons, List.reverse_cons, List.lookup_append]
      cases i with
      | zero =>
        obtain rfl : n = name := Option.some.inj hname
        obtain rfl : w = word := Option.some.inj hword
        have hbehind : (names.zip words).reverse.lookup n = none := by
          rw [← Option.not_isSome_iff_eq_none, isSome_lookup_iff, List.map_reverse, List.mem_reverse]
          intro hmem
          obtain ⟨⟨n', w'⟩, hpair, rfl⟩ := List.mem_map.mp hmem
          obtain ⟨j, hj⟩ := List.mem_iff_getElem?.mp (List.of_mem_zip hpair).1
          exact hlast (j + 1) (Nat.succ_pos j) hj
        rw [hbehind, Option.none_or, List.lookup_cons_self]
      | succ i =>
        rw [ih hname hword fun j hj => hlast (j + 1) (Nat.succ_lt_succ hj), Option.some_or]

/-- The value of a declared name is the plain word in its place. -/
theorem value?_of_last (hhelp : .flag "help" ∉ items) {i : Nat} {name word : String}
    (hname : spec.positionals[i]? = some name) (hword : (plainsIn items)[i]? = some word)
    (hlast : ∀ j, i < j → spec.positionals[j]? ≠ some name) : (spec.requestOf items).value? name = some word := by
  rw [Request.value?, requestOf, if_neg hhelp, List.append_assoc, List.lookup_append,
    lookup_reverse_zip hname hword hlast, Option.some_or]

/-- A request for help has the values that were given and no others. -/
theorem value?_of_help (h : spec.Accepts items) (hhelp : .flag "help" ∈ items) {name value : String} :
    (spec.requestOf items).value? name = some value ↔ .option name value ∈ items := by
  rw [Request.value?, requestOf, if_pos hhelp, lookup_reverse h.once, h.lookup_eq_some_iff]

/-! ## Why a line is not read -/

/-- Reading stops at a word that cannot be read after those before it. -/
theorem exists_take_eq_error {params : List String} {e : UsageError}
    (h : ((optionsIn items).map Prod.fst).Nodup) (he : spec.takeAll (.of items) params = .error e) :
    ∃ before word behind, params = before ++ word :: behind ∧
      spec.take (.of (items ++ before.map Item.ofWord)) word = .error e := by
  induction params generalizing items with
  | nil => cases he
  | cons word rest ih =>
    cases htake : spec.take (.of items) word with
    | error e' =>
      rw [takeAll, htake] at he
      cases he
      exact ⟨[], word, rest, rfl, by rwa [List.map_nil, List.append_nil]⟩
    | ok given =>
      obtain ⟨-, hnodup, rfl⟩ := (take_of_eq_ok_iff h).mp htake
      rw [takeAll, htake] at he
      obtain ⟨before, word', behind, rfl, hstop⟩ := ih hnodup he
      refine ⟨word :: before, word', behind, rfl, ?_⟩
      rwa [List.map_cons, List.append_cons]

/-- A word cannot be read if it is not known, or an option that has been read already. -/
theorem take_of_eq_error {word : String} {e : UsageError} (he : spec.take (.of items) word = .error e) :
    (∃ name, Item.ofWord word = .flag name ∧ name ∉ spec.flags ∧ e = .unknownFlag name) ∨
    (∃ name value, Item.ofWord word = .option name value ∧ name ∉ spec.options.map Prod.fst ∧
      e = .unknownOption name) ∨
    (∃ name value, Item.ofWord word = .option name value ∧ name ∈ (optionsIn items).map Prod.fst ∧
      e = .repeatedOption name) := by
  rw [take] at he
  cases hitem : Item.ofWord word with
  | plain w =>
    rw [hitem] at he
    cases he
  | flag name =>
    simp only [hitem] at he
    split at he
    · cases he
    · next hunknown =>
      cases he
      exact .inl ⟨name, rfl, hunknown, rfl⟩
  | option name value =>
    simp only [hitem] at he
    split at he
    · next hunknown =>
      cases he
      rw [Option.isNone_iff_eq_none, ← Option.not_isSome_iff_eq_none, isSome_lookup_iff] at hunknown
      exact .inr (.inl ⟨name, value, rfl, hunknown, rfl⟩)
    · split at he
      · next hagain =>
        cases he
        rw [isSome_lookup_iff, Given.of, List.map_reverse, List.mem_reverse] at hagain
        exact .inr (.inr ⟨name, value, rfl, hagain, rfl⟩)
      · cases he

/-- A line that is not read has a word at which reading stops, or too few or too many plain words. -/
theorem request_eq_error {params : List String} {e : UsageError} (he : spec.request params = .error e) :
    (∃ before word behind, params = before ++ word :: behind ∧
      spec.take (.of (before.map Item.ofWord)) word = .error e) ∨
    (.flag "help" ∉ params.map Item.ofWord ∧
      (plainsIn (params.map Item.ofWord)).length ≠ spec.positionals.length ∧
      e = .wrongCount (plainsIn (params.map Item.ofWord)).length spec.positionals.length) := by
  have hnone : ((optionsIn []).map Prod.fst).Nodup := .nil
  cases ht : spec.takeAll (.of []) params with
  | error e' =>
    cases (request_of_takeAll_error ht).symm.trans he
    exact .inl (exists_take_eq_error hnone ht)
  | ok given =>
    obtain ⟨-, -, rfl⟩ := (takeAll_of_eq_ok_iff hnone).mp ht
    rw [request_of_takeAll ht, List.nil_append] at he
    split at he
    · cases he
    · next hincomplete =>
      rw [not_or] at hincomplete
      cases he
      exact .inr ⟨hincomplete.1, hincomplete.2, rfl⟩

end Spec

/-! ## The grammar of a declaration -/

namespace Grammar

/-- The declarations in a text, which are its words behind the first. -/
def declarations (text : String) : List String :=
  ((text.toList.splitOnP isBlank).filter fun piece => !piece.isEmpty).tail.map String.ofList

section Declared

variable (text : String)

/-- The names of the plain words that are needed, in their order. -/
def positionals : List String := (declarations text).filter IsPlain

def flags : List String := ["help", "verbose"] ++ ((declarations text).filter IsFlag).map nameOf

def options : List String := "output" :: ((declarations text).filter IsOption).map nameOf

/-- The default of an option: the last one that is declared, and nothing for `output`. -/
def default? (n : String) : Option String :=
  if n = "output" then some "" else (((declarations text).filter IsOption).reverse.find? (nameOf · = n)).map valueOf

end Declared

/-- A line of parameters that the declarations in a text allow. -/
structure Follows (text : String) (params : List String) : Prop where
  flag : ∀ word ∈ params, IsFlag word → nameOf word ∈ flags text
  option : ∀ word ∈ params, IsOption word → nameOf word ∈ options text
  once : ((params.filter IsOption).map nameOf).Nodup
  complete : "--help" ∈ params ∨ (params.filter IsPlain).length = (positionals text).length

/-- A request that says by name what a line of parameters gives. -/
structure Answers (text : String) (params : List String) (r : Request) : Prop where
  has_iff : ∀ n, r.has n = true ↔ ∃ word ∈ params, IsFlag word ∧ nameOf word = n
  /-- A plain word goes to the name in its place, even if an option has that name too. -/
  positional : "--help" ∉ params → ∀ (i : Nat) (n word : String), (positionals text)[i]? = some n →
    (params.filter IsPlain)[i]? = some word → (∀ j, i < j → (positionals text)[j]? ≠ some n) → r.value? n = some word
  /-- What an option is given for counts, and not its default. -/
  option : "--help" ∉ params → ∀ word ∈ params, IsOption word → nameOf word ∉ positionals text →
    r.value? (nameOf word) = some (valueOf word)
  default : "--help" ∉ params → ∀ n ∉ positionals text, (∀ word ∈ params, IsOption word → nameOf word ≠ n) →
    r.value? n = default? text n
  /-- A request for help has no values but those of the options that are given. -/
  help : "--help" ∈ params → ∀ n v, r.value? n = some v ↔
    ∃ word ∈ params, IsOption word ∧ nameOf word = n ∧ valueOf word = v

/-- What an error says about a line of parameters. -/
def Explains (text : String) (params : List String) : UsageError → Prop
  | .unknownFlag n => n ∉ flags text ∧ ∃ word ∈ params, IsFlag word ∧ nameOf word = n
  | .unknownOption n => n ∉ options text ∧ ∃ word ∈ params, IsOption word ∧ nameOf word = n
  | .repeatedOption n => 2 ≤ ((params.filter IsOption).map nameOf).count n
  | .wrongCount got expected =>
    "--help" ∉ params ∧ got = (params.filter IsPlain).length ∧ expected = (positionals text).length ∧ got ≠ expected
  | .notHex _ _ => False

/-! ## Declarations that are read -/

section Read

variable (text : String)

theorem items_eq : (words text.toList).tail.map Item.ofChars = (declarations text).map Item.ofWord := by
  rw [words_eq, declarations, List.map_map]
  refine List.map_congr_left fun piece _ => ?_
  rw [Function.comp_apply, Item.ofWord, String.toList_ofList]

theorem positionals_ofText : (Spec.ofText text).positionals = positionals text := by
  rw [positionals, ← plainsIn_map_ofWord, ← items_eq]
  rfl

theorem flags_ofText : (Spec.ofText text).flags = flags text := by
  rw [flags, ← flagsIn_map_ofWord, ← items_eq]
  rfl

theorem options_ofText : (Spec.ofText text).options =
    ("output", "") :: (((declarations text).filter IsOption).map fun word => (nameOf word, valueOf word)).reverse := by
  rw [← optionsIn_map_ofWord, ← items_eq]
  rfl

theorem mem_options_ofText (n : String) : n ∈ (Spec.ofText text).options.map Prod.fst ↔ n ∈ options text := by
  rw [options_ofText, options, List.map_cons, List.map_reverse, List.map_map, List.mem_cons, List.mem_cons,
    List.mem_reverse]
  rfl

theorem lookup_map_nameOf (line : List String) (n : String) :
    (line.map fun word => (nameOf word, valueOf word)).lookup n = (line.find? (nameOf · = n)).map valueOf := by
  induction line with
  | nil => rfl
  | cons word line ih =>
    rw [List.map_cons, List.lookup_cons, List.find?_cons]
    by_cases hname : nameOf word = n
    · simp [hname]
    · have hother : (n == nameOf word) = false := beq_eq_false_iff_ne.mpr (Ne.symm hname)
      simp [hname, hother, ih]

theorem lookup_options_ofText (n : String) : (Spec.ofText text).options.lookup n = default? text n := by
  rw [options_ofText, default?, List.lookup_cons, ← List.map_reverse, lookup_map_nameOf]
  by_cases hn : n = "output"
  · simp [hn]
  · have hother : (n == "output") = false := beq_eq_false_iff_ne.mpr hn
    simp [hn, hother]

end Read

/-! ## Lines that are read -/

section Lines

variable {text : String} {params : List String}

theorem flag_mem_iff (n : String) :
    .flag n ∈ params.map Item.ofWord ↔ ∃ word ∈ params, IsFlag word ∧ nameOf word = n := by
  rw [← Spec.mem_flagsIn_iff, flagsIn_map_ofWord, List.mem_map]
  simp only [List.mem_filter, decide_eq_true_eq, and_assoc]

theorem option_mem_iff (n v : String) :
    .option n v ∈ params.map Item.ofWord ↔ ∃ word ∈ params, IsOption word ∧ nameOf word = n ∧ valueOf word = v := by
  rw [← Spec.mem_optionsIn_iff, optionsIn_map_ofWord, List.mem_map]
  simp only [List.mem_filter, decide_eq_true_eq, and_assoc, Prod.mk.injEq]

/-- Help is asked for in one way only. -/
theorem help_mem_iff : .flag "help" ∈ params.map Item.ofWord ↔ "--help" ∈ params := by
  rw [List.mem_map]
  constructor
  · rintro ⟨word, hword, hitem⟩
    obtain rfl : word = "--help" := by
      rw [← Item.word_ofWord word, hitem]
      rfl
    exact hword
  · intro hword
    exact ⟨_, hword, rfl⟩

theorem names_eq (line : List String) :
    (optionsIn (line.map Item.ofWord)).map Prod.fst = (line.filter IsOption).map nameOf := by
  rw [optionsIn_map_ofWord, List.map_map]
  rfl

theorem knows_ofWord_iff {spec : Spec} (word : String) :
    spec.Knows (.ofWord word) ↔
      (IsFlag word → nameOf word ∈ spec.flags) ∧ (IsOption word → nameOf word ∈ spec.options.map Prod.fst) := by
  obtain ⟨hflag, hoption, -, hitem⟩ | ⟨hflag, hoption, -, hitem⟩ | ⟨hflag, hoption, -, hitem⟩ := look_of_word word <;>
    simp [hflag, hoption, hitem, Spec.Knows]

variable (text params) in
/-- **The lines that are read are those that follow the grammar.** -/
theorem accepts_iff : (Spec.ofText text).Accepts (params.map Item.ofWord) ↔ Follows text params := by
  constructor
  · intro h
    have hknown (word : String) (hword : word ∈ params) :=
      (knows_ofWord_iff word).mp (h.known _ (List.mem_map_of_mem hword))
    refine ⟨fun word hword hflag => ?_, fun word hword hoption => ?_, ?_, ?_⟩
    · rw [← flags_ofText]
      exact (hknown word hword).1 hflag
    · rw [← mem_options_ofText]
      exact (hknown word hword).2 hoption
    · rw [← names_eq]
      exact h.once
    · rw [← help_mem_iff, ← plainsIn_map_ofWord, ← positionals_ofText]
      exact h.complete
  · intro h
    refine ⟨fun item hitem => ?_, ?_, ?_⟩
    · obtain ⟨word, hword, rfl⟩ := List.mem_map.mp hitem
      rw [knows_ofWord_iff, flags_ofText, mem_options_ofText]
      exact ⟨h.flag word hword, h.option word hword⟩
    · rw [names_eq]
      exact h.once
    · rw [help_mem_iff, plainsIn_map_ofWord, positionals_ofText]
      exact h.complete

/-- What is read of a line answers for it. -/
theorem answers_requestOf (h : (Spec.ofText text).Accepts (params.map Item.ofWord)) :
    Answers text params ((Spec.ofText text).requestOf (params.map Item.ofWord)) where
  has_iff n := by rw [Spec.has_requestOf, flag_mem_iff]
  positional hhelp i n word hn hword hlast := by
    rw [← help_mem_iff] at hhelp
    rw [← plainsIn_map_ofWord] at hword
    simp only [← positionals_ofText] at hn hlast
    exact Spec.value?_of_last hhelp hn hword hlast
  option hhelp word hword hoption hn := by
    rw [← help_mem_iff] at hhelp
    rw [← positionals_ofText] at hn
    have hgiven : .option (nameOf word) (valueOf word) ∈ params.map Item.ofWord :=
      (option_mem_iff _ _).mpr ⟨word, hword, hoption, rfl, rfl⟩
    rw [Spec.value?_of_notMem h hhelp hn, h.lookup_eq_some_iff.mpr hgiven, Option.some_or]
  default hhelp n hn hnone := by
    rw [← help_mem_iff] at hhelp
    rw [← positionals_ofText] at hn
    have hmissing : (optionsIn (params.map Item.ofWord)).lookup n = none := by
      rw [Option.eq_none_iff_forall_ne_some]
      intro v hv
      obtain ⟨word, hword, hoption, hname, -⟩ := (option_mem_iff _ _).mp (h.lookup_eq_some_iff.mp hv)
      exact hnone word hword hoption hname
    rw [Spec.value?_of_notMem h hhelp hn, hmissing, Option.none_or, lookup_options_ofText]
  help hhelp n v := by
    rw [← help_mem_iff] at hhelp
    rw [Spec.value?_of_help h hhelp, option_mem_iff]

/-- An error is about the line that it comes from. -/
theorem explains_of_request {e : UsageError} (he : (Spec.ofText text).request params = .error e) :
    Explains text params e := by
  obtain ⟨before, word, behind, rfl, hstop⟩ | ⟨hhelp, hcount, rfl⟩ := Spec.request_eq_error he
  · have hmem : Item.ofWord word ∈ (before ++ word :: behind).map Item.ofWord :=
      List.mem_map_of_mem (List.mem_append_right before List.mem_cons_self)
    obtain ⟨n, hitem, hn, rfl⟩ | ⟨n, v, hitem, hn, rfl⟩ | ⟨n, v, hitem, hn, rfl⟩ := Spec.take_of_eq_error hstop
    · rw [hitem, flag_mem_iff] at hmem
      exact ⟨flags_ofText text ▸ hn, hmem⟩
    · rw [hitem, option_mem_iff] at hmem
      obtain ⟨w, hw, hoption, hname, -⟩ := hmem
      exact ⟨mt (mem_options_ofText text n).mpr hn, w, hw, hoption, hname⟩
    · have hsplit : (optionsIn ((before ++ word :: behind).map Item.ofWord)).map Prod.fst =
          (optionsIn (before.map Item.ofWord)).map Prod.fst ++
            n :: (optionsIn (behind.map Item.ofWord)).map Prod.fst := by
        simp [optionsIn, hitem, Item.option?]
      rw [Explains, ← names_eq, hsplit, List.count_append, List.count_cons_self]
      have hbefore := List.count_pos_iff.mpr hn
      omega
  · rw [help_mem_iff] at hhelp
    rw [plainsIn_map_ofWord, positionals_ofText] at hcount ⊢
    exact ⟨hhelp, rfl, rfl, hcount⟩

end Lines

end Grammar

open Grammar in
/-- **A command reads the lines that follow its grammar, whatever their order.** A line is read if it follows the
grammar of the declarations, and any other line ends with an error that explains why. The flags `help` and `verbose` and
the option `output` with an empty default are always declared. A line that is read is answered by name, and another
order of its words is read as well and gives the same flags and values, if the plain words stay in their order. -/
theorem request_follows_grammar (text : String) (params : List String) :
    ((∃ r, (Spec.ofText text).request params = .ok r) ↔ Follows text params) ∧
    (¬ Follows text params → ∃ e, (Spec.ofText text).request params = .error e ∧ Explains text params e) ∧
    ("help" ∈ (Spec.ofText text).flags ∧ "verbose" ∈ (Spec.ofText text).flags ∧
      (Spec.ofText text).options.lookup "output" = some "") ∧
    (∀ r, (Spec.ofText text).request params = .ok r → Answers text params r) ∧
    (∀ params' : List String, params'.Perm params →
      ((∃ r, (Spec.ofText text).request params' = .ok r) ↔ ∃ r, (Spec.ofText text).request params = .ok r) ∧
      (params'.filter IsPlain = params.filter IsPlain → ∀ r r', (Spec.ofText text).request params = .ok r →
        (Spec.ofText text).request params' = .ok r' → ∀ n, r'.has n = r.has n ∧ r'.value? n = r.value? n)) := by
  have hread (line : List String) :
      (∃ r, (Spec.ofText text).request line = .ok r) ↔ (Spec.ofText text).Accepts (line.map Item.ofWord) := by
    simp only [Spec.request_eq_ok_iff, exists_and_left, exists_eq', and_true]
  refine ⟨(hread params).trans (accepts_iff text params), ?_, ⟨?_, ?_, ?_⟩, ?_, ?_⟩
  · intro h
    obtain ⟨e, he⟩ := Spec.exists_request_eq_error_iff.mpr (mt (accepts_iff text params).mp h)
    exact ⟨e, he, explains_of_request he⟩
  · rw [flags_ofText]
    exact List.mem_append_left _ (by decide)
  · rw [flags_ofText]
    exact List.mem_append_left _ (by decide)
  · rw [lookup_options_ofText, default?, if_pos rfl]
  · intro r hr
    obtain ⟨haccepts, rfl⟩ := Spec.request_eq_ok_iff.mp hr
    exact answers_requestOf haccepts
  · intro params' hperm
    have hitems : (params'.map Item.ofWord).Perm (params.map Item.ofWord) := hperm.map _
    refine ⟨?_, ?_⟩
    · rw [hread, hread]
      exact ⟨fun h => h.of_perm hitems.symm, fun h => h.of_perm hitems⟩
    · intro hplain r r' hr hr' n
      obtain ⟨haccepts, rfl⟩ := Spec.request_eq_ok_iff.mp hr
      obtain ⟨-, rfl⟩ := Spec.request_eq_ok_iff.mp hr'
      refine ⟨Spec.has_requestOf_of_perm hitems n, Spec.value?_requestOf_of_perm haccepts hitems ?_ n⟩
      rw [plainsIn_map_ofWord, plainsIn_map_ofWord, hplain]

/-- The value of an option may have an equals sign in it, and a plain word may stand anywhere. -/
theorem request_follows_grammar_out_of_order :
    Grammar.Follows "demo --fast --level=3 in out" ["a", "--level=x=y", "--fast", "b"] ∧
    ∃ r, (Spec.ofText "demo --fast --level=3 in out").request ["a", "--level=x=y", "--fast", "b"] = .ok r ∧
      r.has "fast" = true ∧ r.value? "level" = some "x=y" ∧ r.value? "out" = some "b" ∧
        r.value? "output" = some "" := by
  obtain ⟨hread, -, -, hanswers, -⟩ :=
    request_follows_grammar "demo --fast --level=3 in out" ["a", "--level=x=y", "--fast", "b"]
  obtain ⟨r, hr⟩ :
      ∃ r, (Spec.ofText "demo --fast --level=3 in out").request ["a", "--level=x=y", "--fast", "b"] = .ok r :=
    ⟨_, rfl⟩
  have h := hanswers r hr
  refine ⟨hread.mp ⟨r, hr⟩, r, hr, ?_, ?_, ?_, ?_⟩
  · exact (h.has_iff "fast").mpr ⟨"--fast", by decide, by decide, by decide⟩
  · exact h.option (by decide) "--level=x=y" (by decide) (by decide) (by decide)
  · exact h.positional (by decide) 1 "out" "b" (by decide) (by decide) fun j hj hlast => by
      have hlength := (List.getElem?_eq_some_iff.mp hlast).1
      have htwo : (Grammar.positionals "demo --fast --level=3 in out").length = 2 := by decide
      omega
  · exact h.default (by decide) "output" (by decide) (by decide)

end KeyWrapping.Command
