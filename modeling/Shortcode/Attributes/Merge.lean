import Shortcode.Attributes.Basic

/-! Filling in defaults for the attributes that a handler knows. -/
namespace Shortcode.Attributes

/-- What is offered to be merged: nothing, a text in the first position, or values by key. -/
inductive Supplied where
  | nothing
  | plain (t : Text)
  | values (m : OrderedMap Key Value)

def Supplied.get? : Supplied → Key → Option Value
  | nothing, _ => none
  | plain t, k => if k = .position 0 then some (.text t) else none
  | values m, k => m.get? k

def supplied : Attributes → Supplied
  | table values => .values (values.mapValues fun _ t => .text t)
  | plain t => .plain t

/-- Exactly the keys of the defaults, in their order, each with the supplied value if there is one. -/
def merge (defaults : OrderedMap Key Value) (supplied : Supplied) : OrderedMap Key Value :=
  defaults.mapValues fun k d => (supplied.get? k).getD d

end Shortcode.Attributes
