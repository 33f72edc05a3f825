import KeyWrapping.Kek.Object

/-!
# Where the contents of objects come from

Contents are made by creations and pass from slot to slot by moves. A history of steps, the latest first, tells for each
slot what object is in it (`ObjectKind.Traced`): one that was moved from, or one with the content that a certain
creation made (`ObjectKind.Origin`). It tells one thing only (`Traced.unique`), the slots hold what it tells
(`object?_eq_some_iff`), and what one creation made is never in two slots (`Traced.slot_eq`). All of this is by
induction over the history, a step at a time; what a step does not disturb (`Step.Disturbs`) stays.
-/

namespace KeyWrapping

/-! ## Slots -/

namespace Slots

variable {α : Type} (slots : Slots α) {source target : String} (object : Object α)

theorem object?_put (slot s : String) :
    (slots.put slot object).object? s = if s = slot then some object else slots.object? s := rfl

theorem object?_move_source (h : source ≠ target) :
    (slots.move source target object).object? source = some .movedFrom := by
  rw [move, if_neg h, object?_put, if_pos rfl]

theorem object?_move_target (h : source ≠ target) : (slots.move source target object).object? target = some object := by
  rw [move, if_neg h, object?_put, if_neg (Ne.symm h), object?_put, if_pos rfl]

theorem object?_move_of_ne {slot : String} (hs : slot ≠ source) (ht : slot ≠ target) :
    (slots.move source target object).object? slot = slots.object? slot := by
  unfold move
  split
  · rfl
  · rw [object?_put, if_neg hs, object?_put, if_neg ht]

end Slots

namespace ObjectKind

variable {kind : ObjectKind}

/-! ## Histories -/

theorem run_append (slots : Slots kind.Content) (steps later : List kind.Step) :
    (kind.run slots (steps ++ later)).1 = (kind.run (kind.run slots steps).1 later).1 := by
  induction steps generalizing slots with
  | nil => rfl
  | cons step steps ih => exact ih _

/-- The slots after a history, whose latest step comes first. -/
def slotsAfter (kind : ObjectKind) (history : List kind.Step) : Slots kind.Content :=
  (kind.run .empty history.reverse).1

theorem slotsAfter_cons (step : kind.Step) (past : List kind.Step) :
    kind.slotsAfter (step :: past) = (kind.step (kind.slotsAfter past) step).1 := by
  rw [slotsAfter, List.reverse_cons, run_append]
  rfl

/-! ## What a step does to a slot -/

/-- The step puts another object into the slot, or takes the content of its object away. -/
def Step.Disturbs (slots : Slots kind.Content) (slot : String) : kind.Step → Prop
  | .create target kek => slot = target ∧ ∃ content, kind.create kek = .ok content
  | .move source target => source ≠ target ∧ slots.object? source ≠ none ∧ (slot = source ∨ slot = target)
  | .call _ _ => False

section Steps

variable {slots : Slots kind.Content} {slot source target : String}

theorem step_create_of_error {kek : Bytes} {e : Error} (h : kind.create kek = .error e) (slots : Slots kind.Content)
    (slot : String) : kind.step slots (.create slot kek) = (slots, .failed e) := by
  rw [step, h]

theorem object?_step_create {kek : Bytes} {content : kind.Content} (h : kind.create kek = .ok content) :
    (kind.step slots (.create slot kek)).1.object? slot = some (.holding content) := by
  rw [step, h, Slots.object?_put, if_pos rfl]

theorem step_move {object : Object kind.Content} (h : slots.object? source = some object) (target : String) :
    kind.step slots (.move source target) = (slots.move source target object, .done) := by
  rw [step, h]

theorem step_call {object : Object kind.Content} (h : slots.object? slot = some object) (call : kind.Call) :
    kind.step slots (.call slot call) = (slots, .answered (kind.answer object call)) := by
  rw [step, h]

/-- A call leaves every slot as it is, whether there is an object to call or not. -/
theorem slots_step_call (slots : Slots kind.Content) (slot : String) (call : kind.Call) :
    (kind.step slots (.call slot call)).1 = slots := by
  cases h : slots.object? slot with
  | none => rw [step, h]
  | some object => rw [step_call h]

/-- What a step does not disturb stays. -/
theorem object?_step_of_not_disturbs {step : kind.Step} (h : ¬ step.Disturbs slots slot) :
    (kind.step slots step).1.object? slot = slots.object? slot := by
  cases step with
  | create target kek =>
    cases hkek : kind.create kek with
    | error e => rw [step_create_of_error hkek]
    | ok content =>
      have hne : slot ≠ target := fun heq => h ⟨heq, content, hkek⟩
      rw [ObjectKind.step, hkek, Slots.object?_put, if_neg hne]
  | move source target =>
    cases hobject : slots.object? source with
    | none => rw [ObjectKind.step, hobject]
    | some object =>
      rw [step_move hobject]
      by_cases heq : source = target
      · rw [Slots.move, if_pos heq]
      · have hne : ¬ (slot = source ∨ slot = target) := fun ho => h ⟨heq, by simp [hobject], ho⟩
        exact Slots.object?_move_of_ne _ _ (fun hs => hne (Or.inl hs)) (fun ht => hne (Or.inr ht))
  | call s call => rw [slots_step_call]

/-- The step puts an object into the slot. -/
def Step.Assigns (slot : String) : kind.Step → Prop
  | .create target kek => slot = target ∧ ∃ content, kind.create kek = .ok content
  | .move source target => slot = target ∧ source ≠ target
  | .call _ _ => False

theorem movedFrom_step (h : slots.object? slot = some .movedFrom) {step : kind.Step} (hstep : ¬ step.Assigns slot) :
    (kind.step slots step).1.object? slot = some .movedFrom := by
  by_cases hd : step.Disturbs slots slot
  · cases step with
    | create target kek => exact absurd hd hstep
    | move source target =>
      obtain ⟨hne, -, rfl | rfl⟩ := hd
      · rw [step_move h, Slots.object?_move_source _ _ hne]
      · exact absurd ⟨rfl, hne⟩ hstep
    | call s call => exact hd.elim
  · rw [object?_step_of_not_disturbs hd, h]

/-- An object that was moved from stays so until the next one is put into its slot. -/
theorem movedFrom_run (h : slots.object? slot = some .movedFrom) {steps : List kind.Step}
    (hsteps : ∀ step ∈ steps, ¬ step.Assigns slot) : (kind.run slots steps).1.object? slot = some .movedFrom := by
  induction steps generalizing slots with
  | nil => exact h
  | cons step steps ih =>
    obtain ⟨hstep, hsteps⟩ := List.forall_mem_cons.mp hsteps
    exact ih (movedFrom_step h hstep) hsteps

theorem movedFrom_of_moved {past later : List kind.Step} (hobject : (kind.run slots past).1.object? source ≠ none)
    (hne : source ≠ target) (hlater : ∀ step ∈ later, ¬ step.Assigns source) :
    (kind.run slots (past ++ .move source target :: later)).1.object? source = some .movedFrom := by
  obtain ⟨object, hobject⟩ := Option.ne_none_iff_exists'.mp hobject
  have hmoved : (kind.step (kind.run slots past).1 (.move source target)).1.object? source = some .movedFrom := by
    rw [step_move hobject, Slots.object?_move_source _ _ hne]
  rw [run_append]
  exact movedFrom_run hmoved hlater

end Steps

/-! ## Tracing contents -/

/-- Where a content comes from: the number of the step that made it, and the key encryption key that it was made of. -/
structure Origin where
  number : Nat
  kek : Bytes
  deriving DecidableEq, Repr

/-- The object that is in a slot after a history: a new one where a creation went well, at either end of a move what the
move leaves there, and what was there before wherever the latest step does not disturb it. -/
inductive Traced : (history : List kind.Step) → (slot : String) → Object Origin → Prop
  | created {past : List kind.Step} {slot : String} {kek : Bytes} {content : kind.Content}
      (h : kind.create kek = .ok content) : Traced (.create slot kek :: past) slot (.holding ⟨past.length, kek⟩)
  | left {past : List kind.Step} {source target : String} {object : Object Origin} (h : Traced past source object)
      (hne : source ≠ target) : Traced (.move source target :: past) source .movedFrom
  | arrived {past : List kind.Step} {source target : String} {object : Object Origin} (h : Traced past source object)
      (hne : source ≠ target) : Traced (.move source target :: past) target object
  | stayed {past : List kind.Step} {slot : String} {object : Object Origin} {step : kind.Step}
      (h : Traced past slot object) (hstep : ¬ step.Disturbs (kind.slotsAfter past) slot) :
      Traced (step :: past) slot object

/-- The object has the content that the creation made, or both were moved from. -/
inductive Made : Object Origin → Object kind.Content → Prop
  | holding {origin : Origin} {content : kind.Content} (h : kind.create origin.kek = .ok content) :
      Made (.holding origin) (.holding content)
  | movedFrom : Made .movedFrom .movedFrom

/-! ### The slots hold what the history tells -/

section Traces

variable {past history : List kind.Step} {slot slot' source target : String}

theorem exists_object? {origin : Object Origin} (h : Traced history slot origin) :
    ∃ object, (kind.slotsAfter history).object? slot = some object ∧ Made origin object := by
  induction h with
  | created h => exact ⟨_, by rw [slotsAfter_cons, object?_step_create h], .holding h⟩
  | left h hne ih =>
    obtain ⟨object, hobject, -⟩ := ih
    exact ⟨_, by rw [slotsAfter_cons, step_move hobject, Slots.object?_move_source _ _ hne], .movedFrom⟩
  | arrived h hne ih =>
    obtain ⟨object, hobject, hmade⟩ := ih
    exact ⟨object, by rw [slotsAfter_cons, step_move hobject, Slots.object?_move_target _ _ hne], hmade⟩
  | stayed h hstep ih =>
    obtain ⟨object, hobject, hmade⟩ := ih
    exact ⟨object, by rw [slotsAfter_cons, object?_step_of_not_disturbs hstep, hobject], hmade⟩

theorem disturbs_of_traced {origin : Object Origin} (h : Traced past source origin) (hne : source ≠ target)
    (hslot : slot = source ∨ slot = target) :
    (Step.move source target : kind.Step).Disturbs (kind.slotsAfter past) slot := by
  obtain ⟨object, hobject, -⟩ := exists_object? h
  exact ⟨hne, by simp [hobject], hslot⟩

/-- A history tells only one thing of a slot. -/
theorem Traced.unique {origin origin' : Object Origin} (h : Traced history slot origin)
    (h' : Traced history slot origin') : origin = origin' := by
  induction h generalizing origin' with
  | created h =>
    cases h' with
    | created _ => rfl
    | stayed _ hstep => exact absurd ⟨rfl, _, h⟩ hstep
  | left h hne ih =>
    cases h' with
    | left _ _ => rfl
    | arrived _ _ => exact absurd rfl hne
    | stayed _ hstep => exact absurd (disturbs_of_traced h hne (Or.inl rfl)) hstep
  | arrived h hne ih =>
    cases h' with
    | left _ _ => exact absurd rfl hne
    | arrived h' _ => exact ih h'
    | stayed _ hstep => exact absurd (disturbs_of_traced h hne (Or.inr rfl)) hstep
  | stayed h hstep ih =>
    cases h' with
    | created h' => exact absurd ⟨rfl, _, h'⟩ hstep
    | left h' hne => exact absurd (disturbs_of_traced h' hne (Or.inl rfl)) hstep
    | arrived h' hne => exact absurd (disturbs_of_traced h' hne (Or.inr rfl)) hstep
    | stayed h' _ => exact ih h'

/-- Whatever is in a slot, the history tells where it comes from. -/
theorem exists_traced {object : Object kind.Content} (h : (kind.slotsAfter history).object? slot = some object) :
    ∃ origin, Traced history slot origin := by
  induction history generalizing slot object with
  | nil => cases h
  | cons step past ih =>
    rw [slotsAfter_cons] at h
    by_cases hstep : step.Disturbs (kind.slotsAfter past) slot
    · cases step with
      | create target kek =>
        obtain ⟨rfl, content, hkek⟩ := hstep
        exact ⟨_, .created hkek⟩
      | move source target =>
        obtain ⟨hne, hsome, hslot⟩ := hstep
        obtain ⟨object', hobject'⟩ := Option.ne_none_iff_exists'.mp hsome
        obtain ⟨origin, horigin⟩ := ih hobject'
        rcases hslot with rfl | rfl
        · exact ⟨_, .left horigin hne⟩
        · exact ⟨_, .arrived horigin hne⟩
      | call s call => exact hstep.elim
    · rw [object?_step_of_not_disturbs hstep] at h
      obtain ⟨origin, horigin⟩ := ih h
      exact ⟨origin, .stayed horigin hstep⟩

/-- The slots hold what the history tells: nothing else, and nothing less. -/
theorem object?_eq_some_iff {object : Object kind.Content} :
    (kind.slotsAfter history).object? slot = some object ↔
      ∃ origin, Traced history slot origin ∧ Made origin object := by
  constructor
  · intro h
    obtain ⟨origin, horigin⟩ := exists_traced h
    obtain ⟨object', hobject', hmade⟩ := exists_object? horigin
    obtain rfl : object = object' := Option.some.inj (h.symm.trans hobject')
    exact ⟨origin, horigin, hmade⟩
  · rintro ⟨origin, horigin, hmade⟩
    obtain ⟨object', hobject', hmade'⟩ := exists_object? horigin
    obtain rfl : object = object' := by
      cases hmade with
      | holding h =>
        cases hmade' with
        | holding h' => rw [Except.ok.inj (h.symm.trans h')]
      | movedFrom =>
        cases hmade' with
        | movedFrom => rfl
    exact hobject'

/-! ### What one creation made is in one slot -/

theorem getElem?_reverse_cons_of_eq_some {step made : kind.Step} {n : Nat} (h : past.reverse[n]? = some made) :
    (step :: past).reverse[n]? = some made := by
  rw [List.reverse_cons, List.getElem?_append_left (List.getElem?_eq_some_iff.mp h).1, h]

/-- A content was made by the step that its origin names. -/
theorem Traced.creation {origin : Origin} (h : Traced history slot (.holding origin)) :
    ∃ first content, history.reverse[origin.number]? = some (.create first origin.kek) ∧
      kind.create origin.kek = .ok content := by
  generalize ho : Object.holding origin = object at h
  induction h with
  | @created past slot kek content h =>
    cases ho
    refine ⟨slot, content, ?_, h⟩
    rw [List.reverse_cons, ← List.length_reverse, List.getElem?_concat_length]
  | left h hne ih => cases ho
  | arrived h hne ih =>
    obtain ⟨first, content, hfirst, hcontent⟩ := ih ho
    exact ⟨first, content, getElem?_reverse_cons_of_eq_some hfirst, hcontent⟩
  | stayed h hstep ih =>
    obtain ⟨first, content, hfirst, hcontent⟩ := ih ho
    exact ⟨first, content, getElem?_reverse_cons_of_eq_some hfirst, hcontent⟩

theorem Traced.number_lt {origin : Origin} (h : Traced history slot (.holding origin)) :
    origin.number < history.length := by
  obtain ⟨first, content, hfirst, -⟩ := h.creation
  rw [← List.length_reverse]
  exact (List.getElem?_eq_some_iff.mp hfirst).1

/-- What one creation made is in one slot. -/
theorem Traced.slot_eq {origin origin' : Origin} (h : Traced history slot (.holding origin))
    (h' : Traced history slot' (.holding origin')) (hnumber : origin.number = origin'.number) : slot = slot' := by
  generalize ho : Object.holding origin = object at h
  induction h generalizing slot' with
  | created h =>
    cases ho
    cases h' with
    | created _ => rfl
    | stayed h' _ => exact absurd hnumber (Nat.ne_of_gt h'.number_lt)
  | left h hne ih => cases ho
  | arrived h hne ih =>
    cases h' with
    | arrived _ _ => rfl
    | stayed h' hstep =>
      -- the content cannot have stayed elsewhere, because by induction it was in the slot that the move emptied
      obtain rfl := ih h' ho
      exact absurd (disturbs_of_traced h' hne (Or.inl rfl)) hstep
  | stayed h hstep ih =>
    cases h' with
    | created _ =>
      subst ho
      exact absurd hnumber (Nat.ne_of_lt h.number_lt)
    | arrived h' hne =>
      obtain rfl := ih h' ho
      exact absurd (disturbs_of_traced h' hne (Or.inl rfl)) hstep
    | stayed h' _ => exact ih h' ho

end Traces

/-! ## Lives of objects -/

/-- The error of a reply, if there is one; `error?` finds it in an answer. -/
def Reply.error? (error? : kind.Answer → Option Error) : kind.Reply → Option Error
  | .failed e => some e
  | .answered answer => error? answer
  | .done | .noObject => none

/-- An error is that of a creation, or in the answer of an object. -/
theorem error?_step {error? : kind.Answer → Option Error} {slots : Slots kind.Content} {step : kind.Step} {e : Error}
    (h : (kind.step slots step).2.error? error? = some e) :
    (∃ kek, kind.create kek = .error e) ∨
      ∃ slot call object, slots.object? slot = some object ∧ error? (kind.answer object call) = some e := by
  cases step with
  | create slot kek =>
    cases hkek : kind.create kek with
    | ok content =>
      rw [ObjectKind.step, hkek] at h
      cases h
    | error e' =>
      rw [step_create_of_error hkek] at h
      cases h
      exact Or.inl ⟨kek, hkek⟩
  | move source target =>
    cases hsource : slots.object? source with
    | none =>
      rw [ObjectKind.step, hsource] at h
      cases h
    | some object =>
      rw [step_move hsource] at h
      cases h
  | call slot call =>
    cases hslot : slots.object? slot with
    | none =>
      rw [ObjectKind.step, hslot] at h
      cases h
    | some object =>
      rw [step_call hslot] at h
      exact Or.inr ⟨slot, call, object, hslot, h⟩

/-- The reply to a call of an object that was just created from a key encryption key. -/
def replyUnder (kind : ObjectKind) (kek : Bytes) (call : kind.Call) : kind.Reply :=
  match kind.create kek with
  | .ok content => .answered (kind.answer (.holding content) call)
  | .error e => .failed e

/-- The objects after a run of steps, and what the next step does. `Keyed` says that a content has the key, and `error?`
finds the error in an answer. -/
structure Lifecycle (kind : ObjectKind) (Keyed : Bytes → kind.Content → Prop) (error? : kind.Answer → Option Error)
    (steps : List kind.Step) : Prop where
  /-- Each object was moved from, or holds what the creation made that its content comes from. -/
  traced : ∀ slot object, (kind.run .empty steps).1.object? slot = some object ↔
    ∃ origin, Traced steps.reverse slot origin ∧ Made origin object
  /-- The content has just the key that it was created from. -/
  keyed : ∀ slot origin, Traced steps.reverse slot (.holding origin) →
    ∃ first content, steps[origin.number]? = some (.create first origin.kek) ∧
      (kind.run .empty steps).1.object? slot = some (.holding content) ∧ Keyed origin.kek content
  /-- The history tells only one thing of a slot. -/
  one_origin : ∀ slot origin origin', Traced steps.reverse slot origin → Traced steps.reverse slot origin' →
    origin = origin'
  /-- What one creation made is in one slot. -/
  one_slot : ∀ slot slot' origin origin', Traced steps.reverse slot (.holding origin) →
    Traced steps.reverse slot' (.holding origin') → origin.number = origin'.number → slot = slot'
  failed : ∀ slot kek e, kind.create kek = .error e →
    kind.step (kind.run .empty steps).1 (.create slot kek) = ((kind.run .empty steps).1, .failed e)
  called : ∀ slot call, (kind.step (kind.run .empty steps).1 (.call slot call)).1 = (kind.run .empty steps).1
  /-- An object that holds a content replies as if it had just been created. -/
  replied : ∀ slot origin, Traced steps.reverse slot (.holding origin) → ∀ call,
    (kind.step (kind.run .empty steps).1 (.call slot call)).2 = kind.replyUnder origin.kek call
  never_keyNotSet : ∀ step e, (kind.step (kind.run .empty steps).1 step).2.error? error? = some e → e.kind ≠ .keyNotSet

/-- A kind of object lives like that if its contents have the keys that they are created from, and neither creations nor
objects of this kind complain of a missing key. -/
theorem lifecycle_of {Keyed : Bytes → kind.Content → Prop} {error? : kind.Answer → Option Error}
    (hkeyed : ∀ kek content, kind.create kek = .ok content → Keyed kek content)
    (hcreate : ∀ kek e, kind.create kek = .error e → e.kind ≠ .keyNotSet)
    (hholding : ∀ kek content call e, Keyed kek content → error? (kind.answer (.holding content) call) = some e →
      e.kind ≠ .keyNotSet)
    (hmoved : ∀ call e, error? (kind.answer .movedFrom call) = some e → e.kind ≠ .keyNotSet)
    (steps : List kind.Step) : kind.Lifecycle Keyed error? steps := by
  have hslots : (kind.run .empty steps).1 = kind.slotsAfter steps.reverse := by rw [slotsAfter, List.reverse_reverse]
  have hobject {slot : String} {origin : Origin} (h : Traced steps.reverse slot (.holding origin)) :
      ∃ content, kind.create origin.kek = .ok content ∧
        (kind.run .empty steps).1.object? slot = some (.holding content) := by
    obtain ⟨_, hobject, hmade⟩ := exists_object? h
    cases hmade with
    | holding hcontent => exact ⟨_, hcontent, hslots ▸ hobject⟩
  constructor
  · intro slot object
    rw [hslots]
    exact object?_eq_some_iff
  · intro slot origin h
    obtain ⟨first, -, hfirst, -⟩ := h.creation
    obtain ⟨content, hcontent, hslot⟩ := hobject h
    exact ⟨first, content, by rwa [List.reverse_reverse] at hfirst, hslot, hkeyed _ _ hcontent⟩
  · intro slot origin origin' h h'
    exact h.unique h'
  · intro slot slot' origin origin' h h' hnumber
    exact h.slot_eq h' hnumber
  · intro slot kek e h
    exact step_create_of_error h _ slot
  · intro slot call
    exact slots_step_call _ slot call
  · intro slot origin h call
    obtain ⟨content, hcontent, hslot⟩ := hobject h
    rw [step_call hslot, replyUnder, hcontent]
  · intro step e he
    rcases error?_step he with ⟨kek, hkek⟩ | ⟨slot, call, object, hslot, hanswer⟩
    · exact hcreate kek e hkek
    · rw [hslots] at hslot
      obtain ⟨_, -, hmade⟩ := object?_eq_some_iff.mp hslot
      cases hmade with
      | holding hcontent => exact hholding _ _ call e (hkeyed _ _ hcontent) hanswer
      | movedFrom => exact hmoved call e hanswer

end ObjectKind

end KeyWrapping
