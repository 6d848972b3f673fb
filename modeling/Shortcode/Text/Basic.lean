/-! Text as a sequence of characters. -/
namespace Shortcode

/-- Offsets and lengths count characters, so text is a list of them. -/
abbrev Text := List Char

namespace Text

/-- To decide something of all characters of a text one looks at these, not at all there are. -/
instance (priority := high) decidableAll {p : Char → Prop} [DecidablePred p] (t : Text) :
    Decidable (∀ c ∈ t, p c) := List.decidableBAll p t

def singleQuote : Char := '\x27'

def doubleQuote : Char := '\x22'

/-- Cuts a text at the first occurrence of `mark`: what stands before it, and what follows it. -/
def cut? (mark : Text) : Text → Option (Text × Text)
  | [] => if mark = [] then some ([], []) else none
  | c :: rest =>
    match mark.isPrefixOf? (c :: rest) with
    | some after => some ([], after)
    | none => (cut? mark rest).map fun (before, after) => (c :: before, after)

/-- The text without its first and its last character. -/
def inner (t : Text) : Text := t.tail.dropLast

end Text
end Shortcode
