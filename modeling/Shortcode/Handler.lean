import Shortcode.Attributes.Merge
import Shortcode.Session.Program

/-! Handlers of common kinds. -/
namespace Shortcode

inductive Handler where
  /-- the same text always -/
  | constant (out : Text)
  /-- a letter for a tag alone, and another one in front of an enclosed text -/
  | box
  | wrap (before after : Text)
  /-- the enclosed text as an element of markup -/
  | element
  /-- the attributes merged into defaults -/
  | merge (defaults : OrderedMap Key Value)
  /-- the enclosed text, rendered by an engine -/
  | render (engine before after : Text)
  /-- the enclosed text, stripped by an engine -/
  | strip (engine before after : Text)
  /-- nothing, but notes the enclosed text read as attributes -/
  | parse
  /-- the configuration in force, in two letters -/
  | config
  /-- how often this handler has been called -/
  | count
  | raise (f : Fault)
  /-- some program, whatever the call -/
  | script (p : Program Handler)

namespace Handler

def keyText : Key → Text
  | .name t => t
  | .position n => Text.decimal n

/-- The values of attributes by key, separated by bars. -/
def listing : List (Key × Value) → Text
  | [] => []
  | [(k, v)] => keyText k ++ '=' :: v.display
  | (k, v) :: e :: rest => keyText k ++ '=' :: v.display ++ '|' :: listing (e :: rest)

/-- Capital letters for what is on. -/
def switches (c : Config) : Text :=
  [if c.escapes then 'E' else 'e', if c.unescapes then 'U' else 'u']

/-- What a handler does when it is called for the `n`-th time. -/
def respond : Handler → Call → (n : Nat) → Program Handler
  | constant out, _, _ => .done out []
  | box, c, _ => .done (c.content.elim ['E'] fun t => 'B' :: ':' :: t) []
  | wrap before after, c, _ => .done (before ++ c.body ++ after) []
  | element, c, _ =>
    .done ('<' :: c.tag ++ '>' :: c.body ++ ['<', '/'] ++ c.tag ++ ['>']) []
  | merge defaults, c, _ =>
    .done (listing (Attributes.merge defaults c.attributes.supplied).entries) []
  | render engine before after, c, _ =>
    .step (.render engine c.body) (.withText fun t => .done (before ++ t ++ after) [])
  | strip engine before after, c, _ =>
    .step (.strip engine c.body) (.withText fun t => .done (before ++ t ++ after) [])
  | parse, c, _ => .step (.parse c.body) fun a => .done [] [a]
  | config, _, _ => .step .getConfig fun
    | .config c => .done (switches c) []
    | _ => .done [] []
  | count, _, n => .done (Text.decimal n) []
  | raise f, _, _ => .raise f
  | script p, _, _ => p

end Handler
end Shortcode
