import KeyWrapping.Command.Tool
import KeyWrapping.Proofs.CommandLines
import KeyWrapping.Proofs.Demands
import KeyWrapping.Proofs.Exactness
import KeyWrapping.Proofs.HexText

/-!
# The tasks of the tool

A word of the command line names one task or none (`Task.find?_registry`). Four tasks are services: each reads its plain
words as hex, asks the library for one thing (`Task.call`) and prints what it gets, so its script ends in one of three
ways (`Task.serves`). The others print a text and never fail (`Task.prints`).
-/

namespace KeyWrapping.Tool

open Command

/-! ## Tasks -/

/-- What the tool can be told to do. -/
inductive Task where
  | beltUnwrap | beltWrap | help | nistUnwrap | nistWrap | version
  deriving DecidableEq, Repr

namespace Task

/-- The word for a task. -/
def name : Task → String
  | beltUnwrap => "belt_kwp_unwrap"
  | beltWrap => "belt_kwp_wrap"
  | help => "help"
  | nistUnwrap => "nist_kw_unwrap"
  | nistWrap => "nist_kw_wrap"
  | version => "version"

/-- The command for a task. -/
def command : Task → Command
  | beltUnwrap => Tool.beltUnwrap
  | beltWrap => Tool.beltWrap
  | help => Tool.help [Tool.beltUnwrap, Tool.beltWrap, Tool.nistUnwrap, Tool.nistWrap, Tool.version]
  | nistUnwrap => Tool.nistUnwrap
  | nistWrap => Tool.nistWrap
  | version => Tool.version

/-- The tasks in the order of their words. -/
def all : List Task := [beltUnwrap, beltWrap, help, nistUnwrap, nistWrap, version]

/-- The task with a word. -/
def named? (word : String) : Option Task := all.find? fun t => t.name == word

theorem registry_eq : Tool.registry = all.map command := by
  rfl

theorem name_command (t : Task) : t.command.name = t.name := by
  cases t <;> decide

theorem find?_registry (word : String) : Tool.registry.find? word = (named? word).map command := by
  have hname : (fun t : Task => t.command.name == word) = fun t => t.name == word := by
    funext t
    rw [name_command]
  rw [registry_eq, Registry.find?, List.find?_map, named?, ← hname]
  rfl

end Task

/-! ## Scripts -/

section Scripts

variable {spec : Spec} {r : Request} {name word : String}

theorem value_of_eq_some (h : r.value? name = some word) : spec.value r name = pure word := by
  rw [Spec.value, h]

theorem hexValue_of_spells (h : r.value? name = some word) {bytes : Bytes} (hspells : Hex.Spells word bytes) :
    spec.hexValue r name = pure bytes := by
  rw [Spec.hexValue, value_of_eq_some h, pure_bind]
  dsimp only
  rw [Hex.scan_half_eq_ok_iff.mpr hspells]

theorem hexValue_of_not_isHex (spec : Spec) (h : r.value? name = some word) (hhex : ¬ Hex.IsHex word) :
    ∃ problem, spec.hexValue r name = throw (.usage (.notHex name problem)) := by
  rw [Spec.hexValue, value_of_eq_some h, pure_bind]
  dsimp only
  cases hscan : Hex.scan true ((Bytes.ofText word).length / 2) none (Bytes.ofText word) with
  | mk bytes problem =>
    cases problem with
    | none => exact absurd (Hex.exists_spells_iff.mp ⟨bytes, Hex.scan_half_eq_ok_iff.mp hscan⟩) hhex
    | some problem => exact ⟨problem, rfl⟩

/-- The name that an algorithm is looked up by. -/
def algorithmName (cipher : String) (kek : Bytes) : String :=
  if cipher.isEmpty then s!"AES-{8 * kek.length}" else cipher

/-- The result of the library for a service under a named cipher. -/
def named (service : Service) (cipher : String) (kek data : Bytes) : Except Error Bytes := do
  let a ← Catalogue.find (algorithmName cipher kek) ""
  let c ← (Cipher.fresh a).setKey kek
  service.run c data

/-- The result of the library for a service with a header. -/
def headed (service : BeltKek.Service) (kek header data : Bytes) : Except Error Bytes := do
  let k ← BeltKek.create kek
  service.run (.ok k.cipher) data header

theorem algorithm_eq (cipher : String) (kek : Bytes) :
    algorithm cipher kek =
      match Catalogue.find (algorithmName cipher kek) "" with
      | .ok a => pure a
      | .error _ => throw (.notAvailable "NIST key wrap" (algorithmName cipher kek)) := by
  rw [algorithm, Catalogue.find, algorithmName]
  cases Catalogue.find? (if cipher.isEmpty then s!"AES-{8 * kek.length}" else cipher) "" <;> rfl

section Serve

variable {service : Bool → Service} {data : String} {remark : Bool} {kekWord dataWord cipher : String}
  (hkek : r.value? "kek" = some kekWord) (hdata : r.value? data = some dataWord)
include hkek hdata

section Spelled

variable (hcipher : r.value? "cipher" = some cipher) {kek bytes : Bytes} (hk : Hex.Spells kekWord kek)
  (hd : Hex.Spells dataWord bytes)
include hcipher hk hd

/-- What the library gives is printed in upper-case hex. -/
theorem serve_of_ok (remark : Bool) {result : Bytes}
    (h : named (service (r.has "padded")) cipher kek bytes = .ok result) :
    ∃ errors, (serve spec service data remark r).run ⟨"", ""⟩ = (.ok (), ⟨Hex.upperText result ++ "\n", errors⟩) ∧
      (r.has "verbose" = false → errors = "") := by
  obtain ⟨a, ha, h⟩ := exists_of_bind_eq_ok h
  obtain ⟨c, hc, h⟩ := exists_of_bind_eq_ok h
  rw [serve, hexValue_of_spells hkek hk, pure_bind, hexValue_of_spells hdata hd, pure_bind, value_of_eq_some hcipher,
    pure_bind, algorithm_eq, ha]
  simp only [pure_bind, hc, h, Script.ofLibrary]
  cases hv : r.has "verbose" with
  | false =>
    rw [Bool.and_false]
    exact ⟨_, rfl, fun _ => rfl⟩
  | true =>
    rw [Bool.and_true]
    cases remark with
    | false => exact ⟨_, rfl, fun h => nomatch h⟩
    | true => exact ⟨_, rfl, fun h => nomatch h⟩

/-- A failure of the library ends the command, before anything is printed. -/
theorem serve_of_error {e : Error} (h : named (service (r.has "padded")) cipher kek bytes = .error e) :
    ∃ f, (serve spec service data remark r).run ⟨"", ""⟩ = (.error f, ⟨"", ""⟩) ∧ f.status = 2 := by
  rw [serve, hexValue_of_spells hkek hk, pure_bind, hexValue_of_spells hdata hd, pure_bind, value_of_eq_some hcipher,
    pure_bind, algorithm_eq]
  rw [named] at h
  cases ha : Catalogue.find (algorithmName cipher kek) "" with
  | error e => exact ⟨_, rfl, rfl⟩
  | ok a =>
    rw [ha] at h
    simp only [pure_bind]
    cases hc : (Cipher.fresh a).setKey kek with
    | error e => exact ⟨_, rfl, rfl⟩
    | ok c =>
      rw [ok_bind, hc] at h
      have hrun : (service (r.has "padded")).run c bytes = .error e := h
      simp only [Script.ofLibrary, pure_bind, hrun]
      exact ⟨_, rfl, rfl⟩

end Spelled

/-- A value that is not hex ends the command, before anything is printed. -/
theorem serve_of_not_isHex (h : ∃ word ∈ [kekWord, dataWord], ¬ Hex.IsHex word) :
    ∃ e, (serve spec service data remark r).run ⟨"", ""⟩ = (.error (.usage e), ⟨"", ""⟩) := by
  by_cases hk : Hex.IsHex kekWord
  · have hd : ¬ Hex.IsHex dataWord := by simpa [hk] using h
    obtain ⟨kek, hk⟩ := Hex.exists_spells_iff.mpr hk
    obtain ⟨problem, hp⟩ := hexValue_of_not_isHex spec hdata hd
    rw [serve, hexValue_of_spells hkek hk, pure_bind, hp]
    exact ⟨_, rfl⟩
  · obtain ⟨problem, hp⟩ := hexValue_of_not_isHex spec hkek hk
    rw [serve, hp]
    exact ⟨_, rfl⟩

end Serve

section ServeHeaded

variable {service : BeltKek.Service} {data : String} {kekWord headerWord dataWord : String}
  (hkek : r.value? "kek" = some kekWord) (hheader : r.value? "header" = some headerWord)
  (hdata : r.value? data = some dataWord)
include hkek hheader hdata

section Spelled

variable {kek header bytes : Bytes} (hk : Hex.Spells kekWord kek) (hh : Hex.Spells headerWord header)
  (hd : Hex.Spells dataWord bytes)
include hk hh hd

theorem serveHeaded_of_ok {result : Bytes} (h : headed service kek header bytes = .ok result) :
    (serveHeaded spec service data r).run ⟨"", ""⟩ = (.ok (), ⟨Hex.upperText result ++ "\n", ""⟩) := by
  obtain ⟨k, hkek', h⟩ := exists_of_bind_eq_ok h
  rw [serveHeaded, hexValue_of_spells hkek hk, pure_bind, hexValue_of_spells hheader hh, pure_bind,
    hexValue_of_spells hdata hd, pure_bind, hkek']
  simp only [Script.ofLibrary, pure_bind, h]
  rfl

theorem serveHeaded_of_error {e : Error} (h : headed service kek header bytes = .error e) :
    (serveHeaded spec service data r).run ⟨"", ""⟩ = (.error (.library e), ⟨"", ""⟩) := by
  rw [serveHeaded, hexValue_of_spells hkek hk, pure_bind, hexValue_of_spells hheader hh, pure_bind,
    hexValue_of_spells hdata hd, pure_bind]
  rw [headed] at h
  cases hc : BeltKek.create kek with
  | error e' =>
    rw [hc] at h
    cases h
    rfl
  | ok k =>
    rw [hc, ok_bind] at h
    simp only [Script.ofLibrary, pure_bind, h]
    rfl

end Spelled

theorem serveHeaded_of_not_isHex (h : ∃ word ∈ [kekWord, headerWord, dataWord], ¬ Hex.IsHex word) :
    ∃ e, (serveHeaded spec service data r).run ⟨"", ""⟩ = (.error (.usage e), ⟨"", ""⟩) := by
  by_cases hk : Hex.IsHex kekWord
  · by_cases hh : Hex.IsHex headerWord
    · have hd : ¬ Hex.IsHex dataWord := by simpa [hk, hh] using h
      obtain ⟨kek, hk⟩ := Hex.exists_spells_iff.mpr hk
      obtain ⟨header, hh⟩ := Hex.exists_spells_iff.mpr hh
      obtain ⟨problem, hp⟩ := hexValue_of_not_isHex spec hdata hd
      rw [serveHeaded, hexValue_of_spells hkek hk, pure_bind, hexValue_of_spells hheader hh, pure_bind, hp]
      exact ⟨_, rfl⟩
    · obtain ⟨kek, hk⟩ := Hex.exists_spells_iff.mpr hk
      obtain ⟨problem, hp⟩ := hexValue_of_not_isHex spec hheader hh
      rw [serveHeaded, hexValue_of_spells hkek hk, pure_bind, hp]
      exact ⟨_, rfl⟩
  · obtain ⟨problem, hp⟩ := hexValue_of_not_isHex spec hkek hk
    rw [serveHeaded, hp]
    exact ⟨_, rfl⟩

end ServeHeaded

end Scripts

/-! ## What a task comes to -/

/-- The value of an option in a line, and nothing if the option is not there. -/
def optionIn (items : List Item) (name : String) : String := ((optionsIn items).lookup name).getD ""

namespace Task

/-- What a task asks of the library for the values of its plain words; two tasks ask nothing. -/
def call (items : List Item) : Task → List Bytes → Except Error Bytes
  | nistWrap, [kek, key] =>
    named (if .flag "padded" ∈ items then .wrapPadded else .wrap) (optionIn items "cipher") kek key
  | nistUnwrap, [kek, wrapped] =>
    named (if .flag "padded" ∈ items then .unwrapPadded else .unwrap) (optionIn items "cipher") kek wrapped
  | beltWrap, [kek, header, data] => headed .wrap kek header data
  | beltUnwrap, [kek, header, wrapped] => headed .unwrap kek header wrapped
  | _, _ => .ok []

/-- The spec of the command for a task. -/
abbrev spec (t : Task) : Spec := t.command.spec

theorem nodup_positionals (t : Task) : t.spec.positionals.Nodup := by
  cases t <;> decide

/-- Every task has the option that names a file. -/
theorem output_spec (t : Task) : "output" ∉ t.spec.positionals ∧ t.spec.options.lookup "output" = some "" := by
  cases t <;> decide

/-- Whether a task hands something to the library. -/
def IsService (t : Task) : Prop := t ≠ help ∧ t ≠ version

instance (t : Task) : Decidable t.IsService := inferInstanceAs (Decidable (t ≠ help ∧ t ≠ version))

section Lines

variable {t : Task} {items : List Item}

theorem has_eq_decide (name : String) : (t.spec.requestOf items).has name = decide (.flag name ∈ items) := by
  rw [Bool.eq_iff_iff, Spec.has_requestOf, decide_eq_true_iff]

variable (h : t.spec.Accepts items) (hhelp : .flag "help" ∉ items)
include h hhelp

theorem value?_option {name : String} (hname : name ∉ t.spec.positionals)
    (hdefault : t.spec.options.lookup name = some "") :
    (t.spec.requestOf items).value? name = some (optionIn items name) := by
  rw [Spec.value?_of_notMem h hhelp hname, hdefault, optionIn]
  cases (optionsIn items).lookup name <;> rfl

theorem words_two {a b : String} (hpos : t.spec.positionals = [a, b]) :
    ∃ v w, plainsIn items = [v, w] ∧ (t.spec.requestOf items).value? a = some v ∧
      (t.spec.requestOf items).value? b = some w := by
  have hnames := Spec.forall₂_value? h hhelp t.nodup_positionals
  rw [hpos] at hnames
  generalize plainsIn items = words at hnames
  obtain _ | ⟨hv, _ | ⟨hw, _ | _⟩⟩ := hnames
  exact ⟨_, _, rfl, hv, hw⟩

theorem words_three {a b c : String} (hpos : t.spec.positionals = [a, b, c]) :
    ∃ u v w, plainsIn items = [u, v, w] ∧ (t.spec.requestOf items).value? a = some u ∧
      (t.spec.requestOf items).value? b = some v ∧ (t.spec.requestOf items).value? c = some w := by
  have hnames := Spec.forall₂_value? h hhelp t.nodup_positionals
  rw [hpos] at hnames
  generalize plainsIn items = words at hnames
  obtain _ | ⟨hu, _ | ⟨hv, _ | ⟨hw, _ | _⟩⟩⟩ := hnames
  exact ⟨_, _, _, rfl, hu, hv, hw⟩

end Lines

/-- The script of a service prints what the library gives, or fails with it, or complains of a word that is not hex. -/
structure Serves (t : Task) (items : List Item) : Prop where
  ok : ∀ values result, List.Forall₂ Hex.Spells (plainsIn items) values → t.call items values = .ok result →
    ∃ errors, (t.command.script (t.spec.requestOf items)).run ⟨"", ""⟩ =
        (.ok (), ⟨Hex.upperText result ++ "\n", errors⟩) ∧
      (.flag "verbose" ∉ items → errors = "")
  error : ∀ values e, List.Forall₂ Hex.Spells (plainsIn items) values → t.call items values = .error e →
    ∃ f, (t.command.script (t.spec.requestOf items)).run ⟨"", ""⟩ = (.error f, ⟨"", ""⟩) ∧ f.status = 2
  notHex : (∃ word ∈ plainsIn items, ¬ Hex.IsHex word) →
    ∃ e, (t.command.script (t.spec.requestOf items)).run ⟨"", ""⟩ = (.error (.usage e), ⟨"", ""⟩)

theorem serves_named {t : Task} {items : List Item} (h : t.spec.Accepts items) (hhelp : .flag "help" ∉ items)
    (service : Bool → Service) (data : String) (remark : Bool) (hpos : t.spec.positionals = ["kek", data])
    (hcipher : "cipher" ∉ t.spec.positionals ∧ t.spec.options.lookup "cipher" = some "")
    (hscript : t.command.script = serve t.spec service data remark)
    (hcall : ∀ kek bytes, t.call items [kek, bytes] =
      named (service (decide (.flag "padded" ∈ items))) (optionIn items "cipher") kek bytes) : Serves t items := by
  obtain ⟨kekWord, dataWord, hplain, hkek, hdata⟩ := words_two h hhelp hpos
  have hvalue := value?_option h hhelp hcipher.1 hcipher.2
  constructor
  · intro values result hvalues hresult
    rw [hplain] at hvalues
    obtain _ | ⟨hk, _ | ⟨hd, _ | _⟩⟩ := hvalues
    rw [hcall, ← has_eq_decide (t := t)] at hresult
    obtain ⟨errors, hrun, herrors⟩ := serve_of_ok hkek hdata hvalue hk hd remark hresult
    rw [hscript]
    refine ⟨errors, hrun, fun hv => herrors ?_⟩
    rw [has_eq_decide, decide_eq_false hv]
  · intro values e hvalues hresult
    rw [hplain] at hvalues
    obtain _ | ⟨hk, _ | ⟨hd, _ | _⟩⟩ := hvalues
    rw [hcall, ← has_eq_decide (t := t)] at hresult
    rw [hscript]
    exact serve_of_error hkek hdata hvalue hk hd hresult
  · rw [hplain, hscript]
    exact serve_of_not_isHex hkek hdata

theorem serves_headed {t : Task} {items : List Item} (h : t.spec.Accepts items) (hhelp : .flag "help" ∉ items)
    (service : BeltKek.Service) (data : String) (hpos : t.spec.positionals = ["kek", "header", data])
    (hscript : t.command.script = serveHeaded t.spec service data)
    (hcall : ∀ kek header bytes, t.call items [kek, header, bytes] = headed service kek header bytes) :
    Serves t items := by
  obtain ⟨kekWord, headerWord, dataWord, hplain, hkek, hheader, hdata⟩ := words_three h hhelp hpos
  constructor
  · intro values result hvalues hresult
    rw [hplain] at hvalues
    obtain _ | ⟨hk, _ | ⟨hh, _ | ⟨hd, _ | _⟩⟩⟩ := hvalues
    rw [hcall] at hresult
    rw [hscript]
    exact ⟨_, serveHeaded_of_ok hkek hheader hdata hk hh hd hresult, fun _ => rfl⟩
  · intro values e hvalues hresult
    rw [hplain] at hvalues
    obtain _ | ⟨hk, _ | ⟨hh, _ | ⟨hd, _ | _⟩⟩⟩ := hvalues
    rw [hcall] at hresult
    rw [hscript]
    exact ⟨_, serveHeaded_of_error hkek hheader hdata hk hh hd hresult, rfl⟩
  · rw [hplain, hscript]
    exact serveHeaded_of_not_isHex hkek hheader hdata

theorem serves (t : Task) (ht : t.IsService) {items : List Item} (h : t.spec.Accepts items)
    (hhelp : .flag "help" ∉ items) : Serves t items := by
  cases t with
  | help => exact absurd rfl ht.1
  | version => exact absurd rfl ht.2
  | nistWrap =>
    refine serves_named (t := nistWrap) h hhelp (fun padded => if padded then .wrapPadded else .wrap) "key" true
      (by decide) (by decide) rfl fun kek key => ?_
    simp only [call, decide_eq_true_eq]
  | nistUnwrap =>
    refine serves_named (t := nistUnwrap) h hhelp (fun padded => if padded then .unwrapPadded else .unwrap) "wrapped"
      false (by decide) (by decide) rfl fun kek wrapped => ?_
    simp only [call, decide_eq_true_eq]
  | beltWrap => exact serves_headed (t := beltWrap) h hhelp .wrap "data" (by decide) rfl fun _ _ _ => rfl
  | beltUnwrap => exact serves_headed (t := beltUnwrap) h hhelp .unwrap "wrapped" (by decide) rfl fun _ _ _ => rfl

/-- The other tasks only print. -/
theorem prints (t : Task) (ht : ¬ t.IsService) (r : Request) :
    ∃ output, (t.command.script r).run ⟨"", ""⟩ = (.ok (), ⟨output, ""⟩) := by
  cases t with
  | help => exact ⟨_, rfl⟩
  | version => exact ⟨_, rfl⟩
  | nistWrap | nistUnwrap | beltWrap | beltUnwrap => exact absurd ⟨by decide, by decide⟩ ht

end Task

end KeyWrapping.Tool
