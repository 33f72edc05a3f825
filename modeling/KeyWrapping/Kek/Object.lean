import KeyWrapping.Bytes
import KeyWrapping.Error

/-!
# Objects that hold a key encryption key

An object holds its content until the content is moved into another object; from then on it is empty, and whatever
needs the content fails. Objects live in named slots (`Slots`). A slot is filled by creating an object from a key
encryption key or by moving the content of another slot into it; a creation that fails leaves every slot alone.
-/

namespace KeyWrapping

/-- An object whose content can be moved away. -/
inductive Object (α : Type) where
  | holding (content : α)
  | movedFrom
  deriving DecidableEq, Repr

/-- The content of an object, or the error that it was moved away. -/
def Object.content {α : Type} : Object α → Except Error α
  | holding content => .ok content
  | movedFrom => .error (.invalidState "Invalid state: m_cipher != nullptr does not hold")

/-- A kind of object: how one is created from a key encryption key, what it can be asked, and what it answers. -/
structure ObjectKind where
  Content : Type
  Call : Type
  Answer : Type
  create : Bytes → Except Error Content
  answer : Object Content → Call → Answer

/-- The objects in named slots. -/
structure Slots (α : Type) where
  object? : String → Option (Object α)

namespace Slots

variable {α : Type}

/-- No slot holds an object. -/
def empty : Slots α := ⟨fun _ => none⟩

/-- The slots with an object put into one of them. -/
def put (slots : Slots α) (slot : String) (object : Object α) : Slots α :=
  ⟨fun s => if s = slot then some object else slots.object? s⟩

/-- The slots after the content of one object was moved into another slot; moving within a slot changes nothing. -/
def move (slots : Slots α) (source target : String) (object : Object α) : Slots α :=
  if source = target then slots else (slots.put target object).put source .movedFrom

end Slots

namespace ObjectKind

variable (kind : ObjectKind)

/-- What can happen to the slots. -/
inductive Step where
  | create (slot : String) (kek : Bytes)
  | move (source target : String)
  | call (slot : String) (call : kind.Call)

/-- What a step answers. -/
inductive Reply where
  | done
  | failed (e : Error)
  | answered (answer : kind.Answer)
  | noObject

/-- The slots after a step, and the step's reply. -/
def step (slots : Slots kind.Content) : kind.Step → Slots kind.Content × kind.Reply
  | .create slot kek =>
    match kind.create kek with
    | .ok content => (slots.put slot (.holding content), .done)
    | .error e => (slots, .failed e)
  | .move source target =>
    match slots.object? source with
    | some object => (slots.move source target object, .done)
    | none => (slots, .noObject)
  | .call slot call =>
    match slots.object? slot with
    | some object => (slots, .answered (kind.answer object call))
    | none => (slots, .noObject)

/-- The slots after a run of steps, and the replies in order. -/
def run (slots : Slots kind.Content) : List kind.Step → Slots kind.Content × List kind.Reply
  | [] => (slots, [])
  | s :: steps =>
    let (slots, reply) := step kind slots s
    let (slots, replies) := run slots steps
    (slots, reply :: replies)

end ObjectKind

end KeyWrapping
