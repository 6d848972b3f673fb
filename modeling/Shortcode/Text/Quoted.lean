import Shortcode.Text.Basic
import Shortcode.Text.Printable

/-! A text between quotation marks, with all that cannot be shown written as an escape. -/
namespace Shortcode.Text

/-- The lowest `width` hexadecimal digits of a number, in lower case. -/
def hexDigits : Nat → Nat → Text
  | 0, _ => []
  | width + 1, n => hexDigits width (n / 16) ++ [Nat.digitChar (n % 16)]

/-- Writes a character as it stands between marks `mark`. A character that cannot be shown takes the
shortest of the escapes with two, four and eight digits that has room for it. -/
def quoteChar (mark c : Char) : Text :=
  if c = mark ∨ c = '\\' then ['\\', c]
  else if c = '\n' then ['\\', 'n']
  else if c = '\r' then ['\\', 'r']
  else if c = '\t' then ['\\', 't']
  else if isPrintable c then [c]
  else if c.toNat < 0x100 then '\\' :: 'x' :: hexDigits 2 c.toNat
  else if c.toNat < 0x10000 then '\\' :: 'u' :: hexDigits 4 c.toNat
  else '\\' :: 'U' :: hexDigits 8 c.toNat

/-- Single marks, unless the text holds one of them and no double mark. -/
def quotationMark (t : Text) : Char :=
  if t.contains singleQuote && !t.contains doubleQuote then doubleQuote else singleQuote

def quoted (t : Text) : Text :=
  let mark := quotationMark t
  mark :: t.flatMap (quoteChar mark) ++ [mark]

end Shortcode.Text
