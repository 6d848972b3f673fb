import Shortcode.Text.Basic

/-! Patterns over text, with numbered groups, and the pattern of a tag. -/
namespace Shortcode

inductive Pattern where
  /-- exactly this text -/
  | literal (t : Text)
  /-- any one character -/
  | any
  /-- no character, at the edge of a word -/
  | boundary
  /-- the text that a group took -/
  | again (index : Nat)
  /-- any characters, as few as possible, at least one if `nonempty` holds -/
  | stretch (nonempty : Bool)
  /-- one of the texts, the first one preferred -/
  | oneOf (texts : List Text)
  /-- the pattern if possible, else nothing -/
  | optional (p : Pattern)
  | group (index : Nat) (p : Pattern)
  | seq (p q : Pattern)

namespace Pattern

instance : Append Pattern := ⟨seq⟩

def groupCount : Pattern → Nat
  | group _ p => p.groupCount + 1
  | optional p => p.groupCount
  | seq p q => p.groupCount + q.groupCount
  | _ => 0

/-- The opening of a tag, up to its closing bracket: the character in front of it, the name, the raw
attributes and the slash. -/
def opening (names : List Text) : Pattern :=
  group 1 (optional any) ++ literal ['['] ++ group 2 (oneOf names) ++ boundary ++
    group 3 (stretch false) ++ optional (group 4 (literal ['/'])) ++ literal [']']

/-- An enclosed text, as short as possible but not empty, with the closer of the same name. -/
def enclosed : Pattern :=
  group 5 (stretch true) ++ literal ['[', '/'] ++ again 2 ++ literal [']']

/-- The pattern of a tag with one of the names, and the characters around it. -/
def tag (names : List Text) : Pattern :=
  opening names ++ optional enclosed ++ group 6 (optional any)

theorem groupCount_tag (names : List Text) : (tag names).groupCount = 6 := rfl

end Pattern
end Shortcode
