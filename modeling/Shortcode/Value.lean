import Shortcode.Text.Decimal
import Shortcode.Text.Quoted

/-! The values that a setting or a default can hold. -/
namespace Shortcode

inductive Value where
  | null
  | bool (b : Bool)
  | int (n : Int)
  | text (t : Text)
  | list (items : List Value)
  | object (fields : List (Text × Value))

namespace Value

/-- A switch is off if its value is null, false, zero or empty. -/
def isOn : Value → Bool
  | null => false
  | bool b => b
  | int n => n ≠ 0
  | text t => !t.isEmpty
  | list items => !items.isEmpty
  | object fields => !fields.isEmpty

mutual
/-- A value as it stands inside another one: texts are quoted. -/
def nested : Value → Text
  | null => "None".toList
  | bool b => (if b then "True" else "False").toList
  | int n => Text.decimal n
  | text t => t.quoted
  | list items => '[' :: nestedItems items ++ [']']
  | object fields => '\x7b' :: nestedFields fields ++ ['\x7d']

def nestedItems : List Value → Text
  | [] => []
  | [v] => nested v
  | v :: next :: rest => nested v ++ ", ".toList ++ nestedItems (next :: rest)

def nestedFields : List (Text × Value) → Text
  | [] => []
  | [(k, v)] => k.quoted ++ ": ".toList ++ nested v
  | (k, v) :: next :: rest =>
    k.quoted ++ ": ".toList ++ nested v ++ ", ".toList ++ nestedFields (next :: rest)
end

/-- A value on its own: a text stands for itself. -/
def display : Value → Text
  | text t => t
  | v => nested v

end Value
end Shortcode
