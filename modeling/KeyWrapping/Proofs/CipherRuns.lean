import KeyWrapping.Proofs.BeltCipher
import KeyWrapping.Proofs.BlockRuns
import Mathlib.Data.List.Induction

/-!
# What a history makes of a cipher

A key is in force after a history if it was set, being of an accepted length, and the cipher was neither given another
key nor cleared nor renewed since (`Cipher.InForce`). An action rekeys the cipher (`Cipher.Action.Rekeys`) or leaves it
as it was (`Cipher.perform_of_not_rekeys`), so by induction over the history a cipher with a key has one in force
(`Cipher.exists_inForce_of_isKeyed`), and is then what this key alone makes of it (`Cipher.after_of_inForce`). Nothing
older can show in what it does to blocks.
-/

namespace KeyWrapping

namespace Cipher

/-- The action replaces the key or gives it up. -/
def Action.Rekeys (a : Algorithm) : Action → Prop
  | setKey key => a.keyLengths.accepts key.length = true
  | clear | renew => True
  | process _ _ | processBlocks _ _ _ => False

instance (a : Algorithm) : DecidablePred (Action.Rekeys a)
  | .setKey key => inferInstanceAs (Decidable (a.keyLengths.accepts key.length = true))
  | .clear | .renew => .isTrue trivial
  | .process _ _ | .processBlocks _ _ _ => .isFalse id

/-- The key was set, and is still the last one to have been accepted or given up. -/
def InForce (a : Algorithm) (history : List Action) (key : Bytes) : Prop :=
  ∃ past later, history = past ++ .setKey key :: later ∧ a.keyLengths.accepts key.length = true ∧
    ∀ action ∈ later, ¬ action.Rekeys a

/-- Some key was accepted after the last time that the cipher was cleared or renewed. -/
def AcceptedSince (a : Algorithm) (history : List Action) : Prop :=
  ∃ past key later, history = past ++ .setKey key :: later ∧ a.keyLengths.accepts key.length = true ∧
    .clear ∉ later ∧ .renew ∉ later

variable {a : Algorithm}

/-! ## One action -/

theorem rekeys_cases {action : Action} (h : action.Rekeys a) :
    (∃ key, action = .setKey key ∧ a.keyLengths.accepts key.length = true) ∨ action = .clear ∨ action = .renew := by
  cases action with
  | setKey key => exact Or.inl ⟨key, rfl, h⟩
  | clear => exact Or.inr (Or.inl rfl)
  | renew => exact Or.inr (Or.inr rfl)
  | process direction data => exact h.elim
  | processBlocks direction count data => exact h.elim

section Actions

variable (c : Cipher a) {key : Bytes}

theorem perform_setKey (h : a.keyLengths.accepts key.length = true) :
    c.perform (.setKey key) = (⟨some (a.expand key)⟩, .ok []) := by
  have hset : c.setKey key = .ok ⟨some (a.expand key)⟩ := by
    rw [setKey, h]
    rfl
  rw [perform, hset]

/-- A key of a length that is not accepted is refused, and the cipher stays as it was. -/
theorem perform_setKey_refused (h : a.keyLengths.accepts key.length = false) :
    c.perform (.setKey key) = (c, .error (.invalidKeyLength a.name key.length)) := by
  have hset : c.setKey key = .error (.invalidKeyLength a.name key.length) := by
    rw [setKey, h]
    rfl
  rw [perform, hset]

/-- What does not rekey the cipher leaves it as it was. -/
theorem perform_of_not_rekeys {action : Action} (h : ¬ action.Rekeys a) : (c.perform action).1 = c := by
  cases action with
  | setKey key => rw [perform_setKey_refused c (by simpa [Action.Rekeys] using h)]
  | clear | renew => exact absurd trivial h
  | process direction data => rfl
  | processBlocks direction count data => rfl

/-- Only to clear or to renew the cipher costs it its key. -/
theorem isKeyed_perform (h : c.isKeyed = true) {action : Action} (hclear : action ≠ .clear) (hrenew : action ≠ .renew) :
    (c.perform action).1.isKeyed = true := by
  by_cases hrekeys : action.Rekeys a
  · rcases rekeys_cases hrekeys with ⟨key, rfl, hkey⟩ | rfl | rfl
    · rw [perform_setKey c hkey]
      rfl
    · exact absurd rfl hclear
    · exact absurd rfl hrenew
  · rwa [perform_of_not_rekeys c hrekeys]

end Actions

/-! ## Runs -/

section Runs

variable (c : Cipher a) {key : Bytes} {history later : List Action}

theorem after_append (past later : List Action) : c.after (past ++ later) = (c.after past).after later :=
  List.foldl_append

theorem after_concat (past : List Action) (action : Action) :
    c.after (past ++ [action]) = ((c.after past).perform action).1 := c.after_append past [action]

theorem after_setKey_cons (past : List Action) (h : a.keyLengths.accepts key.length = true) (later : List Action) :
    c.after (past ++ .setKey key :: later) = (⟨some (a.expand key)⟩ : Cipher a).after later := by
  have hstep : ((c.after past).perform (.setKey key)).1 = ⟨some (a.expand key)⟩ := by rw [perform_setKey _ h]
  rw [after_append, after, List.foldl_cons, hstep]
  rfl

theorem after_of_forall_not_rekeys (h : ∀ action ∈ later, ¬ action.Rekeys a) : c.after later = c := by
  induction later with
  | nil => rfl
  | cons action later ih =>
    obtain ⟨haction, hlater⟩ := List.forall_mem_cons.mp h
    rw [after, List.foldl_cons, perform_of_not_rekeys c haction]
    exact ih hlater

theorem isKeyed_after (h : c.isKeyed = true) (hclear : .clear ∉ later) (hrenew : .renew ∉ later) :
    (c.after later).isKeyed = true := by
  induction later generalizing c with
  | nil => exact h
  | cons action later ih =>
    rw [List.mem_cons, not_or] at hclear hrenew
    exact ih _ (isKeyed_perform c h (Ne.symm hclear.1) (Ne.symm hrenew.1)) hclear.2 hrenew.2

/-- With a key in force, a cipher is what that key makes of it. -/
theorem after_of_inForce (h : InForce a history key) : c.after history = ⟨some (a.expand key)⟩ := by
  obtain ⟨past, later, rfl, hkey, hlater⟩ := h
  rw [after_setKey_cons c past hkey, after_of_forall_not_rekeys _ hlater]

theorem InForce.accepts (h : InForce a history key) : a.keyLengths.accepts key.length = true := by
  obtain ⟨past, later, -, hkey, -⟩ := h
  exact hkey

theorem inForce_concat (past : List Action) (h : a.keyLengths.accepts key.length = true) :
    InForce a (past ++ [.setKey key]) key :=
  ⟨past, [], rfl, h, List.forall_mem_nil _⟩

theorem InForce.concat (h : InForce a history key) {action : Action} (haction : ¬ action.Rekeys a) :
    InForce a (history ++ [action]) key := by
  obtain ⟨past, later, rfl, hkey, hlater⟩ := h
  refine ⟨past, later ++ [action], by simp, hkey, ?_⟩
  rw [List.forall_mem_append]
  exact ⟨hlater, List.forall_mem_singleton.mpr haction⟩

/-- There is a key in force, or the cipher is as without history. -/
theorem inForce_or_fresh (history : List Action) :
    (∃ key, InForce a history key) ∨ (fresh a).after history = fresh a := by
  induction history using List.reverseRecOn with
  | nil => exact Or.inr rfl
  | append_singleton history action ih =>
    by_cases hrekeys : action.Rekeys a
    · rcases rekeys_cases hrekeys with ⟨key, rfl, hkey⟩ | rfl | rfl
      · exact Or.inl ⟨key, inForce_concat history hkey⟩
      · exact Or.inr (after_concat _ history .clear)
      · exact Or.inr (after_concat _ history .renew)
    -- what was the case before the action is still the case
    · rcases ih with ⟨key, hkey⟩ | hfresh
      · exact Or.inl ⟨key, hkey.concat hrekeys⟩
      · refine Or.inr ?_
        rw [after_concat, hfresh, perform_of_not_rekeys _ hrekeys]

theorem InForce.acceptedSince (h : InForce a history key) : AcceptedSince a history := by
  obtain ⟨past, later, hhistory, hkey, hlater⟩ := h
  exact ⟨past, key, later, hhistory, hkey, fun hclear => hlater _ hclear trivial, fun hrenew => hlater _ hrenew trivial⟩

theorem exists_inForce_of_isKeyed (ha : a.keyless = none) (h : ((fresh a).after history).isKeyed = true) :
    ∃ key, InForce a history key := by
  rcases inForce_or_fresh history with hkey | hfresh
  · exact hkey
  · rw [hfresh, isKeyed, fresh, ha] at h
    cases h

/-- A cipher has a key exactly if some key was accepted after the last time that it was cleared or renewed. -/
theorem isKeyed_after_iff (ha : a.keyless = none) :
    ((fresh a).after history).isKeyed = true ↔ AcceptedSince a history := by
  constructor
  · intro h
    obtain ⟨key, hkey⟩ := exists_inForce_of_isKeyed ha h
    exact hkey.acceptedSince
  · rintro ⟨past, key, later, rfl, hkey, hclear, hrenew⟩
    rw [after_setKey_cons _ past hkey]
    exact isKeyed_after _ rfl hclear hrenew

end Runs

/-! ## Processing -/

section Processing

variable (direction : Direction) (count : Nat) (data : Bytes)

/-- The first `count` blocks of the data under a key. -/
def processedUnder (a : Algorithm) (key : Bytes) (direction : Direction) (count : Nat) (data : Bytes) : Bytes :=
  Bytes.mapBlocks ((a.permutation (a.expand key)).run direction) (data.take (count * a.blockSize))

variable {c : Cipher a}

theorem processBlocks_of_not_isKeyed (h : c.isKeyed = false) :
    c.processBlocks direction count data = .error (.keyNotSet a.name) := by
  rw [processBlocks, permutation_of_not_isKeyed h]
  rfl

theorem process_of_not_isKeyed (h : c.isKeyed = false) : c.process direction data = .error (.keyNotSet a.name) := by
  rw [process, processBlocks_of_not_isKeyed direction _ data h]
  rfl

theorem processInto_of_not_isKeyed (h : c.isKeyed = false) (buffer : Bytes) :
    c.processInto direction count data buffer = ⟨.error (.keyNotSet a.name), buffer⟩ := by
  rw [processInto, permutation_of_not_isKeyed h]

variable {count data} (key : Bytes)

theorem length_processedUnder (ha : a.Fit) (h : count * a.blockSize ≤ data.length) :
    (processedUnder a key direction count data).length = count * a.blockSize :=
  Bytes.length_mapBlocks_take _ ha.blockSize_pos h

theorem processBlocks_under (ha : a.Fit) (h : count * a.blockSize ≤ data.length) :
    (⟨some (a.expand key)⟩ : Cipher a).processBlocks direction count data =
      .ok (processedUnder a key direction count data) := Algorithm.process_eq _ ha h

theorem processInto_under (ha : a.Fit) (h : count * a.blockSize ≤ data.length) (buffer : Bytes) :
    (⟨some (a.expand key)⟩ : Cipher a).processInto direction count data buffer =
      ⟨.ok (count * a.blockSize), buffer.overwrite (processedUnder a key direction count data)⟩ := by
  rw [processInto_eq direction ha h, processBlocks_under direction key ha h, Delivery.ofResult_ok,
    length_processedUnder direction key ha h]

variable (data)

theorem processInPlace_under (ha : a.Fit) : (⟨some (a.expand key)⟩ : Cipher a).processInPlace direction data =
    ⟨.ok (data.length / a.blockSize * a.blockSize),
      data.overwrite (processedUnder a key direction (data.length / a.blockSize) data)⟩ :=
  processInto_under direction key ha (Nat.div_mul_le_self _ _) data

theorem process_under (ha : a.Fit) : (⟨some (a.expand key)⟩ : Cipher a).process direction data =
    .ok (data.overwrite (processedUnder a key direction (data.length / a.blockSize) data)) := by
  rw [← whole_processInPlace direction ha, processInPlace_under direction data key ha]
  rfl

end Processing

end Cipher

/-! ## The schedule of BelT -/

namespace Belt

theorem length_expand (key : Bytes) : (expand key).length = key.length / 4 := by
  rw [expand, List.length_map, Word.loadRowLE, List.length_map, Bytes.length_blocks (by decide)]

/-- In a schedule of eight words, there is a word for every round key. -/
theorem getElem?_roundKey {schedule : Schedule} (h : schedule.length = 8) (i : Nat) :
    schedule[i % 8]? = some (roundKey schedule i) := by
  have hi : i % 8 < schedule.length := by
    rw [h]
    exact Nat.mod_lt i (by decide)
  rw [roundKey, List.getD_eq_getElem?_getD, List.getElem?_eq_getElem hi, Option.getD_some]

end Belt

/-! ## Ciphers on offer -/

/-- What its history says of a cipher. -/
structure Cipher.Follows {a : Algorithm} (history : List Cipher.Action) (c : Cipher a) : Prop where
  /-- It has a key exactly if some key was accepted after the last time that it was cleared or renewed. -/
  isKeyed_iff : c.isKeyed = true ↔ AcceptedSince a history
  /-- If it has a key, there is one in force. -/
  exists_inForce : c.isKeyed = true → ∃ key, InForce a history key
  /-- It is what the key in force makes of a cipher that was never given another. -/
  eq_of_inForce : ∀ key, InForce a history key → c = (fresh a).after [.setKey key]
  /-- With a key, it puts the first blocks of the data through what that key makes of them, whatever happened before. -/
  processes : ∀ key, InForce a history key → ∀ direction count data, count * a.blockSize ≤ data.length →
    let processed := processedUnder a key direction count data
    c.perform (.processBlocks direction count data) = (c, .ok processed) ∧
      ∀ buffer, c.processInto direction count data buffer = ⟨.ok (count * a.blockSize), buffer.overwrite processed⟩
  /-- With a key, it does so to the whole blocks of data in place. -/
  processesInPlace : ∀ key, InForce a history key → ∀ direction data,
    let result := data.overwrite (processedUnder a key direction (data.length / a.blockSize) data)
    c.perform (.process direction data) = (c, .ok result) ∧
      c.processInPlace direction data = ⟨.ok (data.length / a.blockSize * a.blockSize), result⟩
  /-- Without a key, it processes nothing, not even no blocks, and the caller's memory stays as it was. -/
  refuses : c.isKeyed = false → ∀ direction count data,
    c.perform (.processBlocks direction count data) = (c, .error (.keyNotSet a.name)) ∧
      c.perform (.process direction data) = (c, .error (.keyNotSet a.name)) ∧
      (∀ buffer, c.processInto direction count data buffer = ⟨.error (.keyNotSet a.name), buffer⟩) ∧
      c.processInPlace direction data = ⟨.error (.keyNotSet a.name), data⟩
  /-- Processing leaves it as it was, and so does a key that is refused. -/
  keeps : ∀ action : Action, ¬ action.Rekeys a → (c.perform action).1 = c
  /-- A key of another length is refused, and what was in force stays in force. -/
  setKey_refused : ∀ key, a.keyLengths.accepts key.length = false →
    c.perform (.setKey key) = (c, .error (.invalidKeyLength a.name key.length))
  /-- The schedule of BelT is missing, or has a word for every round key. -/
  belt : a = Belt.algorithm → c.schedule = none ∨ ∃ words, c.schedule = some words ∧ words.length = 8 ∧
    ∀ i j, words[(7 * i + j) % 8]? = some (Belt.roundKey words (7 * i + j))

/-- The schedule of BelT is missing, or has eight words. -/
theorem Belt.schedule_after (history : List Cipher.Action) :
    let schedule := ((Cipher.fresh algorithm).after history).schedule
    schedule = none ∨ ∃ words, schedule = some words ∧ words.length = 8 := by
  intro schedule
  rcases Cipher.inForce_or_fresh (a := algorithm) history with ⟨key, hkey⟩ | hfresh
  · have hlength : key.length = 32 := by simpa [algorithm] using hkey.accepts
    have hschedule : schedule = some (expand key) := congrArg Cipher.schedule (Cipher.after_of_inForce _ hkey)
    exact Or.inr ⟨_, hschedule, by rw [length_expand, hlength]⟩
  · exact Or.inl (congrArg Cipher.schedule hfresh)

/-- **A cipher on offer follows its history**: whatever keys it was given, were refused or given up, and whatever it
processed in between, only the key in force shows. -/
theorem Catalogue.cipher_follows_history {name provider : String} {a : Algorithm} (h : find? name provider = some a)
    (history : List Cipher.Action) : ((Cipher.fresh a).after history).Follows history := by
  have ha : a.Fit := fit_of_find? h
  have hunder {key : Bytes} (hkey : Cipher.InForce a history key) :
      (Cipher.fresh a).after history = ⟨some (a.expand key)⟩ := Cipher.after_of_inForce _ hkey
  constructor
  case isKeyed_iff => exact Cipher.isKeyed_after_iff ha.keyless
  case exists_inForce => exact Cipher.exists_inForce_of_isKeyed ha.keyless
  case eq_of_inForce =>
    intro key hkey
    exact (hunder hkey).trans (Cipher.after_of_inForce _ (Cipher.inForce_concat [] hkey.accepts)).symm
  case processes =>
    intro key hkey direction count data hdata processed
    rw [hunder hkey]
    exact ⟨Prod.ext rfl (Cipher.processBlocks_under direction key ha hdata),
      Cipher.processInto_under direction key ha hdata⟩
  case processesInPlace =>
    intro key hkey direction data result
    rw [hunder hkey]
    exact ⟨Prod.ext rfl (Cipher.process_under direction data key ha),
      Cipher.processInPlace_under direction data key ha⟩
  case refuses =>
    intro hkeyed direction count data
    exact ⟨Prod.ext rfl (Cipher.processBlocks_of_not_isKeyed direction count data hkeyed),
      Prod.ext rfl (Cipher.process_of_not_isKeyed direction data hkeyed),
      Cipher.processInto_of_not_isKeyed direction count data hkeyed,
      Cipher.processInto_of_not_isKeyed direction _ data hkeyed data⟩
  case keeps => exact fun action haction => Cipher.perform_of_not_rekeys _ haction
  case setKey_refused => exact fun key hkey => Cipher.perform_setKey_refused _ hkey
  case belt =>
    rintro rfl
    rcases Belt.schedule_after history with hnone | ⟨words, hwords, h8⟩
    · exact Or.inl hnone
    · exact Or.inr ⟨words, hwords, h8, fun i j => Belt.getElem?_roundKey h8 (7 * i + j)⟩

/-- Once it is cleared, AES-128 refuses even no blocks; a key of five bytes does not cost it the key that it has. -/
theorem Catalogue.cipher_follows_history_aes :
    let a := Aes.algorithm .bits128
    let key : Bytes := List.replicate 16 1
    let cleared : List Cipher.Action := [.setKey (.zeros 16), .clear]
    let rekeyed : List Cipher.Action := [.setKey (.zeros 16), .clear, .setKey key, .setKey (.zeros 5)]
    find? "AES-128" "openssl" = some a ∧
      ((Cipher.fresh a).after cleared).processInto .encrypt 0 [] [1, 2, 3] =
        ⟨.error (.keyNotSet "AES-128"), [1, 2, 3]⟩ ∧
      ((Cipher.fresh a).after rekeyed).isKeyed = true ∧
      (Cipher.fresh a).after rekeyed = (Cipher.fresh a).after [.setKey key] := by
  intro a key cleared rekeyed
  have h : find? "AES-128" "openssl" = some a := rfl
  have hkey : Cipher.InForce a rekeyed key :=
    ⟨[.setKey (.zeros 16), .clear], [.setKey (.zeros 5)], rfl, by decide, List.forall_mem_singleton.mpr (by decide)⟩
  have hcleared := cipher_follows_history h cleared
  have hrekeyed := cipher_follows_history h rekeyed
  exact ⟨h, (hcleared.refuses rfl .encrypt 0 []).2.2.1 [1, 2, 3], hrekeyed.isKeyed_iff.mpr hkey.acceptedSince,
    hrekeyed.eq_of_inForce key hkey⟩

end KeyWrapping
