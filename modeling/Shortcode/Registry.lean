import Shortcode.Fault
import Shortcode.OrderedMap.Basic
import Shortcode.Text.Quoted

/-! Which handler serves which tag. A registry is a value: a snapshot of it is the registry itself. -/
namespace Shortcode

/-- One handler for each tag, in the order in which the tags were first registered. -/
structure Registry (α : Type) where
  handlers : OrderedMap Text α

/-- What a registry reports of an attempt to register a tag. -/
inductive Registration where
  | registered (tag : Text)
  | ignored (tag : Text)
deriving DecidableEq

def Registration.message : Registration → Text
  | registered tag => "Registered shortcode ".toList ++ tag.quoted
  | ignored tag => "Ignoring non-callable handler for shortcode ".toList ++ tag.quoted

/-- A change of a registry. What is offered as a handler may be none at all. -/
inductive Change (α : Type) where
  | add (tag : Text) (handler : Option α)
  | remove (tag : Text)
  | removeAll
  /-- One handler for several tags. -/
  | addAll (tags : List Text) (handler : Option α)

def Change.map {α β : Type} (f : α → β) : Change α → Change β
  | add tag handler => .add tag (handler.map f)
  | remove tag => .remove tag
  | removeAll => .removeAll
  | addAll tags handler => .addAll tags (handler.map f)

namespace Registry
variable {α : Type}

def empty : Registry α := ⟨.empty⟩

instance : Inhabited (Registry α) := ⟨empty⟩

def get? (r : Registry α) (tag : Text) : Option α := r.handlers.get? tag

def has (r : Registry α) (tag : Text) : Bool := r.handlers.contains tag

def names (r : Registry α) : List Text := r.handlers.keys

def size (r : Registry α) : Nat := r.handlers.size

/-- Registers a handler; what is no handler is passed over. -/
def add (r : Registry α) (tag : Text) : Option α → Registry α
  | some handler => ⟨r.handlers.insert tag handler⟩
  | none => r

def remove (r : Registry α) (tag : Text) : Registry α := ⟨r.handlers.erase tag⟩

def addAll (r : Registry α) (tags : List Text) (handler : Option α) : Registry α :=
  tags.foldl (fun r tag => r.add tag handler) r

/-- What is reported when a tag is offered a handler. -/
def report (tag : Text) (handler : Option α) : Registration :=
  if handler.isSome then .registered tag else .ignored tag

/-- Carries out a change: the new registry and what it reports. Only registrations are reported. -/
def apply (r : Registry α) : Change α → Except Fault (Registry α × List Registration)
  | .add tag handler => .ok (r.add tag handler, [report tag handler])
  | .remove tag => .ok (r.remove tag, [])
  | .removeAll => .ok (empty, [])
  | .addAll tags handler =>
    if tags.isEmpty then .error .noTags
    else .ok (r.addAll tags handler, tags.map fun tag => report tag handler)

end Registry
end Shortcode
