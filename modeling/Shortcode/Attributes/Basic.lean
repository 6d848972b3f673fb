import Shortcode.Attributes.Escape
import Shortcode.Attributes.Token
import Shortcode.Config
import Shortcode.OrderedMap.Basic
import Shortcode.Text.Lowercase

/-! The attributes of a tag, as they are read from the text behind its name. -/
namespace Shortcode

/-- An attribute is known by its name in lower case or by its position, counted from zero. -/
inductive Key where
  | name (t : Text)
  | position (n : Int)
deriving DecidableEq

/-- What attribute text stands for: a table of values, or plain text if there is no token in it. -/
inductive Attributes where
  | table (values : OrderedMap Key Text)
  | plain (t : Text)

namespace Attributes

/-- Enters tokens into a table; `next` is the next free position. A quoted token that is empty is
dropped and takes no position. -/
def enter (decode : Text → Text) : (next : Nat) → OrderedMap Key Text → List Token →
    OrderedMap Key Text
  | _, m, [] => m
  | next, m, .named name value :: rest =>
    enter decode next (m.insert (.name (Text.lower name)) (decode value)) rest
  | next, m, .quoted [] :: rest => enter decode next m rest
  | next, m, .quoted value :: rest =>
    enter decode (next + 1) (m.insert (.position next) (decode value)) rest
  | next, m, .bare value :: rest =>
    enter decode (next + 1) (m.insert (.position next) (decode value)) rest

/-- Reads attribute text with values decoded by `decode`. -/
def read (decode : Text → Text) (t : Text) : Attributes :=
  let t := Text.softenSpaces t
  match tokens t with
  | [] => .plain (Text.trimLeft t)
  | first :: rest => .table (enter decode 0 .empty (first :: rest))

/-- How values are decoded under a configuration. -/
def decoder (config : Config) : Text → Text := if config.unescapes then unescape else id

def parse (config : Config) (t : Text) : Attributes := read (decoder config) t

end Attributes
end Shortcode
