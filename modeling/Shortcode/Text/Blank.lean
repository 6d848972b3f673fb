import Shortcode.Text.Basic
import Shortcode.Text.Ranges

/-! White space, and the two invisible characters that count as white space between attributes. -/
namespace Shortcode.Text

/-- The white space of Unicode, the four information separators included. -/
def blanks : Ranges :=
  [(0x9, 0xd), (0x1c, 0x20), (0x85, 0x85), (0xa0, 0xa0), (0x1680, 0x1680), (0x2000, 0x200a),
  (0x2028, 0x2029), (0x202f, 0x202f), (0x205f, 0x205f), (0x3000, 0x3000)]

def isBlank (c : Char) : Bool := blanks.has c

/-- The no-break space and the zero-width space. -/
def isHardSpace (c : Char) : Bool := c == '\u00a0' || c == '\u200b'

/-- Writes one space for every run of hard spaces. -/
def softenSpaces : Text → Text
  | [] => []
  | c :: rest =>
    if isHardSpace c then
      if rest.head?.any isHardSpace then softenSpaces rest else ' ' :: softenSpaces rest
    else c :: softenSpaces rest

/-- Drops leading white space. -/
def trimLeft (t : Text) : Text := t.dropWhile isBlank

end Shortcode.Text
