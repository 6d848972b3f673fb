import Shortcode.Pattern.Basic
import Shortcode.Text.Word

/-! Matching by backtracking: all ways to match, in the order of preference, and the leftmost search
that takes the first of them. -/
namespace Shortcode

/-- A place in a text with the texts that groups took on the way to it. -/
structure Cursor where
  before : Option Char
  rest : Text
  taken : Nat → Option Text

namespace Cursor

/-- The text between a cursor and a later one. -/
def textTo (c d : Cursor) : Text := c.rest.take (c.rest.length - d.rest.length)

def capture (c : Cursor) (index : Nat) (t : Text) : Cursor :=
  { c with taken := fun i => if i = index then some t else c.taken i }

/-- Moves over a text if it comes next. -/
def advance (t : Text) (c : Cursor) : List Cursor :=
  match t.isPrefixOf? c.rest with
  | some rest => [{ c with before := t.getLast? <|> c.before, rest := rest }]
  | none => []

/-- This place and all later ones. -/
def onward (taken : Nat → Option Text) : (before : Option Char) → Text → List Cursor
  | before, [] => [⟨before, [], taken⟩]
  | before, c :: rest => ⟨before, c :: rest, taken⟩ :: onward taken (some c) rest

end Cursor

namespace Pattern

/-- The places where a match can end, the preferred one first. -/
def ends : Pattern → Cursor → List Cursor
  | literal t, c => c.advance t
  | any, c =>
    match c.rest with
    | [] => []
    | x :: rest => [{ c with before := some x, rest := rest }]
  | boundary, c => if Text.isBoundary c.before c.rest.head? then [c] else []
  | again index, c =>
    match c.taken index with
    | some t => c.advance t
    | none => []
  | stretch nonempty, c =>
    let places := Cursor.onward c.taken c.before c.rest
    if nonempty then places.tail else places
  | oneOf texts, c => texts.flatMap fun t => c.advance t
  | optional p, c => p.ends c ++ [c]
  | group index p, c => (p.ends c).map fun d => d.capture index (c.textTo d)
  | seq p q, c => (p.ends c).flatMap q.ends

/-- An occurrence of a pattern: where it begins and ends, and what its groups took. -/
structure Occurrence where
  start : Nat
  stop : Nat
  text : Text
  taken : Nat → Option Text

/-- The preferred occurrence at a place. -/
def occurrenceAt? (p : Pattern) (start : Nat) (before : Option Char) (t : Text) :
    Option Occurrence :=
  (p.ends ⟨before, t, fun _ => none⟩).head?.map fun d =>
    ⟨start, start + (t.length - d.rest.length), t.take (t.length - d.rest.length), d.taken⟩

/-- The occurrences from left to right, each search going on where the last occurrence ended, of a
pattern that takes at least one character. The first `skip` characters are passed over. -/
def occurrencesAfter (p : Pattern) : (skip start : Nat) → (before : Option Char) → Text →
    List Occurrence
  | _, _, _, [] => []
  | skip + 1, start, _, c :: rest => occurrencesAfter p skip (start + 1) (some c) rest
  | 0, start, before, c :: rest =>
    match p.occurrenceAt? start before (c :: rest) with
    | some o => o :: occurrencesAfter p (o.text.length - 1) (start + 1) (some c) rest
    | none => occurrencesAfter p 0 (start + 1) (some c) rest

def occurrences (p : Pattern) (t : Text) : List Occurrence := occurrencesAfter p 0 0 none t

end Pattern
end Shortcode
