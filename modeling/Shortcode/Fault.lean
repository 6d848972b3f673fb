import Shortcode.Text.Basic

/-! What can go wrong, and how it is worded. -/
namespace Shortcode

inductive Fault where
  /-- A tag was found whose name has no handler; a wording of its own can be given. -/
  | unregistered (tag : Text) (wording : Option Text)
  /-- A handler was offered without a tag. -/
  | noTags
  /-- Nothing of the right kind goes by this name. -/
  | unknown (id : Text)
  /-- A handler raised an error of a kind of its own. -/
  | raised (kind message : Text)
deriving DecidableEq

namespace Fault

def unregisteredMessage (tag : Text) : Text :=
  "Shortcode '".toList ++ tag ++ "' matched but is not registered".toList

/-- An empty wording counts as none. -/
def message : Fault → Text
  | unregistered tag wording =>
    match wording with
    | some (c :: rest) => c :: rest
    | _ => unregisteredMessage tag
  | noTags => "At least one shortcode tag must be provided".toList
  | unknown id => id
  | raised _ message => message

/-- Whether a fault belongs to the family that concerns tags and their rendering. -/
def isRenderFault : Fault → Bool
  | unregistered _ _ => true
  | _ => false

end Fault
end Shortcode
