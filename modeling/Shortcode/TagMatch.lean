import Shortcode.Pattern.Search

/-! A tag with its parts, and a tag found at a place in a text. -/
namespace Shortcode

/-- The parts of a tag with the characters around it. What is done with a tag depends on these alone
and not on its place. -/
structure TagParts where
  leading : Text
  tag : Text
  rawAttributes : Text
  selfClosing : Bool
  content : Option Text
  trailing : Text
  text : Text
deriving DecidableEq

namespace TagParts

/-- A tag in doubled brackets. -/
def isEscaped (p : TagParts) : Bool := p.leading == ['['] && p.trailing == [']']

def isEnclosing (p : TagParts) : Bool := p.content.isSome

/-- The characters around a tag, without the tag. -/
def context (p : TagParts) : Text := p.leading ++ p.trailing

end TagParts

/-- A tag with the place of its text, the characters around it included. -/
structure TagMatch extends TagParts where
  start : Nat
  stop : Nat
deriving DecidableEq

namespace TagMatch

/-- The tag that an occurrence of the tag pattern describes by its six groups. -/
def ofOccurrence (o : Pattern.Occurrence) : TagMatch where
  leading := (o.taken 1).getD []
  tag := (o.taken 2).getD []
  rawAttributes := (o.taken 3).getD []
  selfClosing := (o.taken 4).isSome
  content := o.taken 5
  trailing := (o.taken 6).getD []
  text := o.text
  start := o.start
  stop := o.stop

end TagMatch
end Shortcode
