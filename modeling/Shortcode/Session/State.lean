import Shortcode.Session.Program

/-! The state of a session: what identifiers stand for, the configuration and the profile in force,
and the trail of what has been done. -/
namespace Shortcode

/-- A handler as it was registered; `object` tells it from other handlers that act alike. -/
structure Registered (η : Type) extends Labelled η where
  object : Nat

/-- One call of a handler, with the answers it put on record. -/
structure Visit (η : Type) where
  object : Nat
  handler : η
  call : Call
  notes : List Answer

/-- What is done with texts and matches, in the order in which it is begun. What happens under an
inner profile or in a thread stands between `opened` and `closed`. -/
inductive Activity (η : Type) where
  | rendered (length : Nat)
  | stripped (length : Nat)
  /-- A handler was called for a match. -/
  | called (v : Visit η)
  /-- An escaped tag was left standing. -/
  | spared
  /-- A match was removed. -/
  | removed (escaped : Bool)
  | opened
  | closed

structure Engine where
  config : Config
  /-- The number of its registry. -/
  registry : Nat

/-- What an identifier stands for. -/
inductive Item (η : Type) where
  | engine (e : Engine)
  | registry (number : Nat)
  | snapshot (r : Registry (Registered η))

structure State (η : Type) where
  registries : List (Registry (Registered η)) := []
  items : OrderedMap Text (Item η) := .empty
  /-- The configuration in force. -/
  config : Config := {}
  /-- The profile that counts, if there is one. -/
  profile : Option Counters := none
  trail : List (Activity η) := []
  /-- How many handlers have been registered. -/
  objects : Nat := 0

namespace Activity
variable {η : Type}

def visit? : Activity η → Option (Visit η)
  | called v => some v
  | _ => none

/-- Puts answers on record with a call. -/
def note (notes : List Answer) : Activity η → Activity η
  | called v => .called { v with notes := notes }
  | a => a

end Activity

namespace State
variable {η : Type}

/-- The registry with a number, empty if there is none. -/
def registry (s : State η) (number : Nat) : Registry (Registered η) :=
  s.registries.getD number .empty

def engine? (s : State η) (id : Text) : Option Engine :=
  match s.items.get? id with
  | some (.engine e) => some e
  | _ => none

/-- The number of the registry that an identifier stands for. -/
def number? (s : State η) (id : Text) : Option Nat :=
  match s.items.get? id with
  | some (.engine e) => some e.registry
  | some (.registry number) => some number
  | _ => none

/-- The handlers that an identifier stands for, now or when the snapshot was taken. -/
def handlers? (s : State η) (id : Text) : Option (Registry (Registered η)) :=
  match s.items.get? id with
  | some (.snapshot r) => some r
  | _ => (s.number? id).map s.registry

def visits (s : State η) : List (Visit η) := s.trail.filterMap Activity.visit?

/-- How often a handler has been called. -/
def callCount (s : State η) (object : Nat) : Nat :=
  (s.visits.filter fun v => v.object = object).length

def assign (s : State η) (id : Text) (item : Item η) : State η :=
  { s with items := s.items.insert id item }

end State

end Shortcode
