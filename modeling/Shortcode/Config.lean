import Shortcode.Value

/-! The two switches of a render. -/
namespace Shortcode

/-- Whether a tag in doubled brackets stands for itself, and whether backslash escapes in attribute
values are resolved. Any value can be stored; it counts as on or off where it is used. -/
structure Config where
  escapingEnabled : Value := .bool true
  unescapeValues : Value := .bool true

namespace Config

/-- Both switches on. -/
def default : Config := {}

instance : Inhabited Config := ⟨default⟩

def escapes (c : Config) : Bool := c.escapingEnabled.isOn

def unescapes (c : Config) : Bool := c.unescapeValues.isOn

/-- Stores one named setting; a name that is no setting is passed over. -/
def set (c : Config) (name : Text) (v : Value) : Config :=
  if name = "escaping_enabled".toList then { c with escapingEnabled := v }
  else if name = "unescape_values".toList then { c with unescapeValues := v }
  else c

def ofFields (fields : List (Text × Value)) : Config :=
  fields.foldl (fun c f => c.set f.1 f.2) default

end Config
end Shortcode
