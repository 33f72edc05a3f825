import KeyWrapping.Proofs.KekObjects

/-!
# BelT objects that were moved from

An object with a BelT key looks for its content only after it has found the arguments in order. So an object that was
moved from refuses whatever is asked of it, and leaves the caller's buffer alone, but it says that it was moved from
only if there is nothing else to complain of (`BeltKek.Call.InOrder`).
-/

namespace KeyWrapping.BeltKek

/-- The least length of what a service takes. -/
def Service.least : Service → Nat
  | wrap => 16
  | unwrap => 32

/-- The header and the data have lengths that the service takes, and the result fits into `space` bytes. -/
structure Service.InOrder (service : Service) (data header : Bytes) (space : Nat) : Prop where
  header : header.length = 16
  least : service.least ≤ data.length
  blocks : data.length % 16 = 0
  room : service.resultLength data.length ≤ space

/-- The arguments of the call are in order. Only a buffer of the caller's can be too short. -/
def Call.InOrder : Call → Prop
  | result service data header | fixed service data header =>
    service.InOrder data header (service.resultLength data.length)
  | into service data header buffer => service.InOrder data header buffer.length

/-! ## The operation without its cipher -/

section Refusals

variable (service : Service) (data header : Bytes)

/-- What is asked of an object that was moved from comes to nothing, but the checks before it are the same as ever. -/
theorem within_movedFrom (space : Nat) : ∃ moved : Error, moved.kind = .invalidState ∧
    (Operation.headed service .movedFrom data header).demand.within space =
      (Headed.checks header data service.least >>= fun _ =>
        ensureSpace "BelT-KWP" (service.resultLength data.length) space >>= fun _ => .error moved) := by
  cases service with
  | wrap => exact ⟨.invalidState _, rfl, Demand.within_after _ _ _⟩
  | unwrap => exact ⟨.invalidState _, rfl, Demand.within_after _ _ _⟩

theorem kind_of_isArgumentError {e : Error} (h : e.isArgumentError = true) :
    e.kind ≠ .invalidTag ∧ e.kind ≠ .invalidState := by
  cases e <;> simp_all [Error.isArgumentError, Error.kind]

/-- The error is that the object was moved from if the arguments are in order, and otherwise it is one about them. -/
theorem exists_within_movedFrom (space : Nat) : ∃ e,
    (Operation.headed service .movedFrom data header).demand.within space = .error e ∧ e.kind ≠ .invalidTag ∧
      (e.kind = .invalidState ↔ service.InOrder data header space) ∧
      (e.isArgumentError = true ↔ ¬ service.InOrder data header space) := by
  have complains {e : Error} (he : e.isArgumentError = true) (horder : ¬ service.InOrder data header space) :
      e.kind ≠ .invalidTag ∧ (e.kind = .invalidState ↔ service.InOrder data header space) ∧
        (e.isArgumentError = true ↔ ¬ service.InOrder data header space) :=
    ⟨(kind_of_isArgumentError he).1, iff_of_false (kind_of_isArgumentError he).2 horder, iff_of_true he horder⟩
  obtain ⟨moved, hmoved, hwithin⟩ := within_movedFrom service data header space
  rw [hwithin, Headed.checks, Headed.ensureHeader, bind_assoc, ensure_bind]
  by_cases hheader : header.length = 16
  · rw [if_pos (by simpa [Headed.headerLength] using hheader), ensure_bind]
    by_cases hlength : service.least ≤ data.length ∧ data.length % 16 = 0
    · rw [if_pos (by simpa using hlength), ensureSpace, ensure_bind]
      by_cases hroom : service.resultLength data.length ≤ space
      · have horder : service.InOrder data header space := ⟨hheader, hlength.1, hlength.2, hroom⟩
        rw [if_pos (by simpa using hroom)]
        have hargument : moved.isArgumentError ≠ true := fun he => (kind_of_isArgumentError he).2 hmoved
        exact ⟨moved, rfl, by simp [hmoved], iff_of_true hmoved horder, iff_of_false hargument (not_not_intro horder)⟩
      · rw [if_neg (by simpa using hroom)]
        exact ⟨_, rfl, complains rfl fun horder => hroom horder.room⟩
    · rw [if_neg (by simpa using hlength)]
      exact ⟨_, rfl, complains rfl fun horder => hlength ⟨horder.least, horder.blocks⟩⟩
  · rw [if_neg (by simpa [Headed.headerLength] using hheader)]
    exact ⟨_, rfl, complains rfl fun horder => hheader horder.header⟩

theorem result_movedFrom : (Operation.headed service .movedFrom data header).result =
    ((Operation.headed service .movedFrom data header).into (.zeros (service.resultLength data.length))).whole := by
  cases service <;> rfl

end Refusals

/-! ## Calls -/

/-- An object that was moved from refuses every call and leaves the caller's buffer alone. It says that it was moved
from if the arguments are in order, and otherwise complains of them. -/
theorem exists_answer_movedFrom (call : Call) : ∃ e, (answer .movedFrom call).error? = some e ∧
    (answer .movedFrom call).buffer? = call.buffer? ∧ (e.kind = .invalidState ↔ call.InOrder) ∧
    (e.isArgumentError = true ↔ ¬ call.InOrder) := by
  have refused (service : Service) (data header buffer : Bytes) : ∃ e,
      (Operation.headed service .movedFrom data header).into buffer = ⟨.error e, buffer⟩ ∧
        (e.kind = .invalidState ↔ service.InOrder data header buffer.length) ∧
        (e.isArgumentError = true ↔ ¬ service.InOrder data header buffer.length) := by
    obtain ⟨e, hwithin, htag, hiff⟩ := exists_within_movedFrom service data header buffer.length
    refine ⟨e, ?_, hiff⟩
    rw [Operation.into_of_error hwithin, if_neg (mt (Error.isForgery_eq_true_iff e).mp htag)]
  -- without a buffer of the caller's, one of the right size is made
  have refusedWhole (service : Service) (data header : Bytes) : ∃ e,
      ((Operation.headed service .movedFrom data header).into (.zeros (service.resultLength data.length))).whole =
        .error e ∧ (e.kind = .invalidState ↔ service.InOrder data header (service.resultLength data.length)) ∧
        (e.isArgumentError = true ↔ ¬ service.InOrder data header (service.resultLength data.length)) := by
    obtain ⟨e, hinto, hiff⟩ := refused service data header (.zeros (service.resultLength data.length))
    rw [Bytes.length_zeros] at hiff
    exact ⟨e, by rw [hinto]; rfl, hiff⟩
  cases call with
  | result service data header =>
    obtain ⟨e, he, hiff⟩ := refusedWhole service data header
    exact ⟨e, failure?_eq_some_iff.mpr ((result_movedFrom service data header).trans he), rfl, hiff⟩
  | into service data header buffer =>
    obtain ⟨e, hinto, hiff⟩ := refused service data header buffer
    have hanswer : answer .movedFrom (.into service data header buffer) = .delivered ⟨.error e, buffer⟩ :=
      congrArg Answer.delivered hinto
    exact ⟨e, by rw [hanswer]; rfl, by rw [hanswer]; rfl, hiff⟩
  | fixed service data header =>
    obtain ⟨e, he, hiff⟩ := refusedWhole service data header
    exact ⟨e, failure?_eq_some_iff.mpr he, rfl, hiff⟩

/-- **An object that was moved from says so exactly if the arguments are in order**: whatever went before, and whatever
came after the move unless it put another object into the slot, every call is refused and leaves the caller's buffer
alone. -/
theorem says_moved_iff_in_order {past later : List kind.Step} {slot target : String}
    (hobject : (kind.run .empty past).1.object? slot ≠ none) (hne : slot ≠ target)
    (hlater : ∀ step ∈ later, ¬ step.Assigns slot) (call : Call) :
    ∃ answer e, (kind.step (kind.run .empty (past ++ .move slot target :: later)).1 (.call slot call)).2 =
        .answered answer ∧ Answer.error? answer = some e ∧ Answer.buffer? answer = call.buffer? ∧
      (e.kind = .invalidState ↔ call.InOrder) ∧ (e.isArgumentError = true ↔ ¬ call.InOrder) := by
  have hmoved := ObjectKind.movedFrom_of_moved hobject hne hlater
  obtain ⟨e, he, hbuffer, hiff⟩ := exists_answer_movedFrom call
  exact ⟨_, e, congrArg Prod.snd (ObjectKind.step_call hmoved call), he, hbuffer, hiff⟩

/-- After a move and a creation that failed, a header of 15 bytes is what the object complains of. -/
theorem says_moved_iff_in_order_short_header :
    let past : List kind.Step := [.create "a" (.zeros 32)]
    let later : List kind.Step := [.create "a" (.zeros 5)]
    let call : Call := .into .wrap (.zeros 16) (.zeros 15) [1, 2, 3]
    ((kind.run .empty past).1.object? "a" ≠ none ∧ "a" ≠ "b" ∧ ∀ step ∈ later, ¬ step.Assigns "a") ∧
      ∃ answer e, (kind.step (kind.run .empty (past ++ .move "a" "b" :: later)).1 (.call "a" call)).2 =
          .answered answer ∧ Answer.error? answer = some e ∧ Answer.buffer? answer = some [1, 2, 3] ∧
        e.isArgumentError = true := by
  intro past later call
  have hobject : (kind.run .empty past).1.object? "a" ≠ none := by
    rintro ⟨⟩
  have hlater : ∀ step ∈ later, ¬ step.Assigns "a" := by
    refine List.forall_mem_singleton.mpr ?_
    rintro ⟨-, content, hcontent⟩
    cases hcontent
  have hne : "a" ≠ "b" := by decide
  have horder : ¬ call.InOrder := fun h => absurd h.header (by decide)
  obtain ⟨answer, e, hanswer, he, hbuffer, -, hargument⟩ := says_moved_iff_in_order hobject hne hlater call
  exact ⟨⟨hobject, hne, hlater⟩, answer, e, hanswer, he, hbuffer, hargument.mpr horder⟩

/-- Of an object that was moved from, a bad header, data of no whole blocks and a short buffer are noticed instead. -/
theorem moved_object_complains_of_arguments :
    let slots := (kind.run .empty [.create "a" (.zeros 32), .move "a" "b"]).1
    let reply := fun call => (kind.step slots (.call "a" call)).2
    slots.object? "a" = some .movedFrom ∧
      reply (.result .wrap (.zeros 16) (.zeros 15)) =
        .answered (.result (.error (.invalidArgument "BelT-KWP header must be 16 bytes"))) ∧
      reply (.result .unwrap (.zeros 31) (.zeros 16)) =
        .answered (.result (.error (.invalidDataLength "BelT-KWP" 31))) ∧
      reply (.into .wrap (.zeros 16) (.zeros 16) [1, 2, 3]) =
        .answered (.delivered ⟨.error (.bufferTooSmall "BelT-KWP" 32 3), [1, 2, 3]⟩) :=
  ⟨rfl, rfl, rfl, rfl⟩

end KeyWrapping.BeltKek
