import KeyWrapping.Proofs.ToolTasks

/-!
# How a run of the tool ends

A run ends in one of three ways, and its status tells which: the tool was used in a wrong way (`Misused`), it could not
do what it was told (`Failing`), or it has done it. A run that does not end well has printed nothing to the output or to
a file, and one that does has nothing to say beside the output unless it is asked to (`status_tells`).
-/

namespace KeyWrapping.Tool

open Command

/-! ## Wrong uses and failures -/

/-- A line names a file that cannot be opened. -/
def NamesUnopenable (canOpen : String → Bool) (items : List Item) : Prop :=
  ∃ path, .option "output" path ∈ items ∧ path ≠ "" ∧ canOpen path = false

/-- The words of the command line are a wrong use of the tool. -/
inductive Misused (canOpen : String → Bool) : List String → Prop
  | noCommand : Misused canOpen []
  | unknownCommand {word : String} (params : List String) (hword : Task.named? (commandName word) = none) :
      Misused canOpen (word :: params)
  /-- A flag or an option is unknown, an option comes twice, or there are too few or too many plain words. -/
  | rejected {word : String} {params : List String} {t : Task} (hword : Task.named? (commandName word) = some t)
      (hline : ¬ t.spec.Accepts (params.map Item.ofWord)) : Misused canOpen (word :: params)
  /-- A plain word is not hex, and there is nothing that would be noticed before. -/
  | notHex {word : String} {params : List String} {t : Task} (hword : Task.named? (commandName word) = some t)
      (hline : t.spec.Accepts (params.map Item.ofWord)) (hhelp : .flag "help" ∉ params.map Item.ofWord)
      (hfile : ¬ NamesUnopenable canOpen (params.map Item.ofWord))
      (hhex : ∃ w ∈ plainsIn (params.map Item.ofWord), ¬ Hex.IsHex w) : Misused canOpen (word :: params)

/-- The words of the command line are used rightly, but the tool cannot do what they say. -/
inductive Failing (canOpen : String → Bool) : List String → Prop
  | cannotOpen {word : String} {params : List String} {t : Task} (hword : Task.named? (commandName word) = some t)
      (hline : t.spec.Accepts (params.map Item.ofWord)) (hhelp : .flag "help" ∉ params.map Item.ofWord)
      (hfile : NamesUnopenable canOpen (params.map Item.ofWord)) : Failing canOpen (word :: params)
  /-- All plain words are hex, but the library refuses what they stand for. -/
  | refused {word : String} {params : List String} {t : Task} (hword : Task.named? (commandName word) = some t)
      (hline : t.spec.Accepts (params.map Item.ofWord)) (hhelp : .flag "help" ∉ params.map Item.ofWord)
      {values : List Bytes} (hhex : List.Forall₂ Hex.Spells (plainsIn (params.map Item.ofWord)) values) {e : Error}
      (hcall : t.call (params.map Item.ofWord) values = .error e) : Failing canOpen (word :: params)

/-! ## Runs of a command -/

/-- The file that a line names, if it names one. -/
def fileIn (items : List Item) : Option String :=
  if (optionIn items "output").isEmpty then none else some (optionIn items "output")

section Command

variable {canOpen : String → Bool} {t : Task} {params : List String}

theorem run_cons {word : String} (hword : Task.named? (commandName word) = some t) (params : List String) :
    Tool.run canOpen (word :: params) = t.command.run canOpen params := by
  rw [Tool.run, List.headD_cons, Task.find?_registry, hword]
  rfl

theorem run_of_rejected (canOpen : String → Bool) (h : ¬ t.spec.Accepts (params.map Item.ofWord)) :
    ∃ e, t.command.run canOpen params = t.command.stopped (.usage e) ⟨"", ""⟩ none := by
  obtain ⟨e, he⟩ := Spec.exists_request_eq_error_iff.mpr h
  refine ⟨e, ?_⟩
  rw [Command.run, he]

variable (h : t.spec.Accepts (params.map Item.ofWord))
include h

theorem run_of_help (hhelp : .flag "help" ∈ params.map Item.ofWord) :
    t.command.run canOpen params = finished ⟨t.command.help ++ "\n", ""⟩ none := by
  rw [Command.run, Spec.request_eq_ok_iff.mpr ⟨h, rfl⟩]
  dsimp only
  rw [if_pos (Spec.has_requestOf.mpr hhelp)]

theorem namesUnopenable_iff :
    NamesUnopenable canOpen (params.map Item.ofWord) ↔
      optionIn (params.map Item.ofWord) "output" ≠ "" ∧
        canOpen (optionIn (params.map Item.ofWord) "output") = false := by
  rw [optionIn]
  constructor
  · rintro ⟨path, hmem, hne, hclosed⟩
    rw [h.lookup_eq_some_iff.mpr hmem]
    exact ⟨hne, hclosed⟩
  · rintro ⟨hne, hclosed⟩
    cases hpath : (optionsIn (params.map Item.ofWord)).lookup "output" with
    | none => exact absurd (by rw [hpath]; rfl) hne
    | some path =>
      rw [hpath] at hne hclosed
      exact ⟨path, h.lookup_eq_some_iff.mp hpath, hne, hclosed⟩

variable (hhelp : .flag "help" ∉ params.map Item.ofWord)
include hhelp

theorem run_of_line :
    t.command.run canOpen params =
      let path := optionIn (params.map Item.ofWord) "output"
      let r := t.spec.requestOf (params.map Item.ofWord)
      if path.isEmpty then t.command.perform r none
      else if canOpen path then t.command.perform r (some path)
      else t.command.stopped (.cannotOpen path) ⟨"", ""⟩ none := by
  have hvalue := Task.value?_option h hhelp t.output_spec.1 t.output_spec.2
  rw [Command.run, Spec.request_eq_ok_iff.mpr ⟨h, rfl⟩]
  dsimp only
  rw [if_neg (mt Spec.has_requestOf.mp hhelp), hvalue]

theorem run_of_namesUnopenable (hfile : NamesUnopenable canOpen (params.map Item.ofWord)) :
    ∃ path, t.command.run canOpen params = t.command.stopped (.cannotOpen path) ⟨"", ""⟩ none := by
  obtain ⟨hne, hclosed⟩ := (namesUnopenable_iff h).mp hfile
  rw [run_of_line h hhelp]
  dsimp only
  rw [if_neg (mt String.isEmpty_iff.mp hne), hclosed, if_neg Bool.false_ne_true]
  exact ⟨_, rfl⟩

theorem run_of_not_namesUnopenable (hfile : ¬ NamesUnopenable canOpen (params.map Item.ofWord)) :
    t.command.run canOpen params =
      t.command.perform (t.spec.requestOf (params.map Item.ofWord)) (fileIn (params.map Item.ofWord)) := by
  rw [run_of_line h hhelp, fileIn]
  dsimp only
  split
  · rfl
  · next hne =>
    have hopen : canOpen (optionIn (params.map Item.ofWord) "output") = true := by
      rw [← Bool.not_eq_false]
      exact fun hclosed => hfile ((namesUnopenable_iff h).mpr ⟨mt String.isEmpty_iff.mpr hne, hclosed⟩)
    rw [if_pos hopen]

end Command

/-! ## How runs end -/

/-- The run ended with the status of a failure, and printed nothing but complaints. -/
structure EndsBadly (status : Nat) (o : Outcome) : Prop where
  status_eq : o.status = status
  output_eq : o.output = ""
  /-- A file that was opened is empty. -/
  file_eq : ∀ path text, o.file = some (path, text) → text = ""

/-- The run did what it was told, and said nothing beside it unless it was asked to. -/
structure EndsWell (items : List Item) (o : Outcome) : Prop where
  status_eq : o.status = 0
  errors_eq : .flag "verbose" ∉ items → o.errors = ""

theorem endsBadly_stopped {f : Failure} {status : Nat} (hf : f.status = status) (c : Command) (path : Option String) :
    EndsBadly status (c.stopped f ⟨"", ""⟩ path) where
  status_eq := hf
  output_eq := by cases path <;> rfl
  file_eq := by
    intro path' text h
    cases path <;> cases h
    rfl

theorem endsWell_finished {items : List Item} {printed : Printed} (h : .flag "verbose" ∉ items → printed.errors = "")
    (path : Option String) : EndsWell items (finished printed path) := ⟨rfl, h⟩

theorem perform_of_error {c : Command} {r : Request} {f : Failure}
    (h : (c.script r).run ⟨"", ""⟩ = (.error f, ⟨"", ""⟩)) (path : Option String) :
    c.perform r path = c.stopped f ⟨"", ""⟩ path := by
  rw [Command.perform, h]

theorem perform_of_ok {c : Command} {r : Request} {printed : Printed}
    (h : (c.script r).run ⟨"", ""⟩ = (.ok (), printed)) (path : Option String) :
    c.perform r path = finished printed path := by
  rw [Command.perform, h]

theorem exists_values {words : List String} (h : ∀ w ∈ words, Hex.IsHex w) :
    ∃ values, List.Forall₂ Hex.Spells words values := by
  induction words with
  | nil => exact ⟨[], .nil⟩
  | cons w words ih =>
    obtain ⟨bytes, hbytes⟩ := Hex.exists_spells_iff.mpr (h w List.mem_cons_self)
    obtain ⟨values, hvalues⟩ := ih fun v hv => h v (List.mem_cons_of_mem _ hv)
    exact ⟨bytes :: values, .cons hbytes hvalues⟩

/-- A task that is no service has no plain words. -/
theorem isService_of_mem_plainsIn {t : Task} {items : List Item} (h : t.spec.Accepts items)
    (hhelp : .flag "help" ∉ items) {word : String} (hword : word ∈ plainsIn items) : t.IsService := by
  have hlength := Spec.length_plainsIn h hhelp
  constructor
  · rintro rfl
    rw [List.length_eq_zero_iff.mp hlength] at hword
    cases hword
  · rintro rfl
    rw [List.length_eq_zero_iff.mp hlength] at hword
    cases hword

theorem isService_of_call_eq_error {t : Task} {items : List Item} {values : List Bytes} {e : Error}
    (h : t.call items values = .error e) : t.IsService := by
  constructor
  · rintro rfl
    cases h
  · rintro rfl
    cases h

section Verdict

variable {canOpen : String → Bool} {args : List String}

theorem endsBadly_of_misused (h : Misused canOpen args) : EndsBadly 1 (Tool.run canOpen args) := by
  cases h with
  | noCommand =>
    have hhelp : registry.find? (commandName "help") = some Task.help.command := Task.find?_registry "help"
    rw [Tool.run, List.headD_nil, hhelp]
    exact ⟨rfl, rfl, fun _ _ h => nomatch h⟩
  | unknownCommand params hword =>
    rw [Tool.run, List.headD_cons, Task.find?_registry, hword]
    exact ⟨rfl, rfl, fun _ _ h => nomatch h⟩
  | rejected hword hline =>
    obtain ⟨e, he⟩ := run_of_rejected canOpen hline
    rw [run_cons hword, he]
    exact endsBadly_stopped (f := .usage e) rfl _ _
  | notHex hword hline hhelp hfile hhex =>
    obtain ⟨w, hw, hnot⟩ := hhex
    have hservice := isService_of_mem_plainsIn hline hhelp hw
    obtain ⟨e, he⟩ := (Task.serves _ hservice hline hhelp).notHex ⟨w, hw, hnot⟩
    rw [run_cons hword, run_of_not_namesUnopenable hline hhelp hfile, perform_of_error he]
    exact endsBadly_stopped (f := .usage e) rfl _ _

theorem endsBadly_of_failing (h : Failing canOpen args) : EndsBadly 2 (Tool.run canOpen args) := by
  cases h with
  | cannotOpen hword hline hhelp hfile =>
    obtain ⟨path, hrun⟩ := run_of_namesUnopenable hline hhelp hfile
    rw [run_cons hword, hrun]
    exact endsBadly_stopped (f := .cannotOpen path) rfl _ _
  | @refused word params t hword hline hhelp values hhex e hcall =>
    by_cases hfile : NamesUnopenable canOpen (params.map Item.ofWord)
    · obtain ⟨path, hrun⟩ := run_of_namesUnopenable hline hhelp hfile
      rw [run_cons hword, hrun]
      exact endsBadly_stopped (f := .cannotOpen path) rfl _ _
    · obtain ⟨f, hf, hstatus⟩ :=
        (Task.serves _ (isService_of_call_eq_error hcall) hline hhelp).error values e hhex hcall
      rw [run_cons hword, run_of_not_namesUnopenable hline hhelp hfile, perform_of_error hf]
      exact endsBadly_stopped hstatus _ _

theorem endsWell_of_not (hused : ¬ Misused canOpen args) (hable : ¬ Failing canOpen args) :
    EndsWell (args.tail.map Item.ofWord) (Tool.run canOpen args) := by
  cases args with
  | nil => exact absurd .noCommand hused
  | cons word params =>
    cases hword : Task.named? (commandName word) with
    | none => exact absurd (.unknownCommand params hword) hused
    | some t =>
      have hline : t.spec.Accepts (params.map Item.ofWord) := by
        by_contra h
        exact hused (.rejected hword h)
      rw [run_cons hword]
      by_cases hhelp : .flag "help" ∈ params.map Item.ofWord
      · rw [run_of_help hline hhelp]
        exact endsWell_finished (fun _ => rfl) none
      · have hfile : ¬ NamesUnopenable canOpen (params.map Item.ofWord) :=
          fun h => hable (.cannotOpen hword hline hhelp h)
        rw [run_of_not_namesUnopenable hline hhelp hfile]
        by_cases hservice : t.IsService
        · have hhex : ∀ w ∈ plainsIn (params.map Item.ofWord), Hex.IsHex w := by
            by_contra hnot
            push Not at hnot
            exact hused (.notHex hword hline hhelp hfile hnot)
          obtain ⟨values, hvalues⟩ := exists_values hhex
          cases hcall : t.call (params.map Item.ofWord) values with
          | error e => exact absurd (.refused hword hline hhelp hvalues hcall) hable
          | ok result =>
            obtain ⟨errors, hrun, herrors⟩ := (Task.serves t hservice hline hhelp).ok values result hvalues hcall
            rw [perform_of_ok hrun]
            exact endsWell_finished herrors _
        · obtain ⟨output, hrun⟩ := Task.prints t hservice (t.spec.requestOf (params.map Item.ofWord))
          rw [perform_of_ok hrun]
          exact endsWell_finished (fun _ => rfl) _

theorem flag_notMem {name : String} (h : (Item.flag name).word ∉ args) : .flag name ∉ args.tail.map Item.ofWord := by
  intro hmem
  obtain ⟨word, hword, he⟩ := List.mem_map.mp hmem
  rw [← he, Item.word_ofWord] at h
  exact h (List.mem_of_mem_tail hword)

end Verdict

/-- What a run has to do with the words of its command line. -/
structure Verdict (canOpen : String → Bool) (args : List String) (o : Outcome) : Prop where
  status_eq_one_iff : o.status = 1 ↔ Misused canOpen args
  status_eq_two_iff : o.status = 2 ↔ Failing canOpen args
  status_eq_zero_iff : o.status = 0 ↔ ¬ Misused canOpen args ∧ ¬ Failing canOpen args
  /-- Nothing has been printed, and a file that was opened is empty. -/
  silent : o.status ≠ 0 → o.output = "" ∧ ∀ path text, o.file = some (path, text) → text = ""
  noErrors : o.status = 0 → "--verbose" ∉ args → o.errors = ""

/-- **The status tells how a run ended**, for every command line: it is 1 if and only if the tool was used in a wrong
way, 2 if and only if it could not do what it was told, and 0 otherwise. -/
theorem status_tells (canOpen : String → Bool) (args : List String) :
    Verdict canOpen args (Tool.run canOpen args) := by
  by_cases hused : Misused canOpen args
  · obtain ⟨hstatus, houtput, hfile⟩ := endsBadly_of_misused hused
    have hable : ¬ Failing canOpen args := by
      intro h
      rw [(endsBadly_of_failing h).status_eq] at hstatus
      cases hstatus
    constructor
    · simp [hstatus, hused]
    · simp [hstatus, hable]
    · simp [hstatus, hused]
    · exact fun _ => ⟨houtput, hfile⟩
    · simp [hstatus]
  · by_cases hable : Failing canOpen args
    · obtain ⟨hstatus, houtput, hfile⟩ := endsBadly_of_failing hable
      constructor
      · simp [hstatus, hused]
      · simp [hstatus, hable]
      · simp [hstatus, hable]
      · exact fun _ => ⟨houtput, hfile⟩
      · simp [hstatus]
    · obtain ⟨hstatus, herrors⟩ := endsWell_of_not hused hable
      constructor
      · simp [hstatus, hused]
      · simp [hstatus, hable]
      · simp [hstatus, hused, hable]
      · exact fun h => absurd hstatus h
      · exact fun _ hverbose => herrors (flag_notMem hverbose)

end KeyWrapping.Tool
