import Shortcode.Pattern.Basic
import Shortcode.Text.Decimal

/-! The written form of a pattern. -/
namespace Shortcode.Pattern

/-- The characters that stand for themselves only behind a backslash. -/
def isSpecial (c : Char) : Bool :=
  ['\t', '\n', '\x0b', '\x0c', '\r', ' ', '#', '$', '&', '(', ')', '*', '+', '-', '.', '?', '[', '\\',
    ']', '^', '\x7b', '|', '\x7d', '~'].contains c

def escape (t : Text) : Text := t.flatMap fun c => if isSpecial c then ['\\', c] else [c]

/-- The texts of an alternation, escaped, with a bar between neighbours. -/
def alternation : List Text → Text
  | [] => []
  | [t] => escape t
  | t :: u :: rest => escape t ++ '|' :: alternation (u :: rest)

/-- An optional character is written without a group of its own. -/
def source : Pattern → Text
  | literal t => escape t
  | any => ['.']
  | boundary => ['\\', 'b']
  | again index => '\\' :: Text.decimal index
  | stretch nonempty => ['.', if nonempty then '+' else '*', '?']
  | oneOf texts => alternation texts
  | optional any => ['.', '?']
  | optional p => ['(', '?', ':'] ++ p.source ++ [')', '?']
  | group _ p => '(' :: p.source ++ [')']
  | seq p q => p.source ++ q.source

/-- Puts a character in front of the first of several texts. -/
def consHead (c : Char) : List Text → List Text
  | [] => [[c]]
  | t :: rest => (c :: t) :: rest

/-- Reads an alternation back: a backslash makes the next character literal, a bar separates, and no
other special character may stand alone. -/
def readAlternation : Text → Option (List Text)
  | [] => some [[]]
  | '\\' :: c :: rest => (readAlternation rest).map (consHead c)
  | c :: rest =>
    if c = '|' then (readAlternation rest).map ([] :: ·)
    else if isSpecial c then none
    else (readAlternation rest).map (consHead c)

end Shortcode.Pattern
