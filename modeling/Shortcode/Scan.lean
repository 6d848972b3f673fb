import Shortcode.TagMatch

/-! Finding tags directly, without backtracking. A tag begins where a name follows a bracket, a word
boundary follows the name and some closing bracket follows that; all else is settled by the first
closing bracket and the first closer of the same name. -/
namespace Shortcode.Scan

/-- The closer of a name. -/
def closer (name : Text) : Text := '[' :: '/' :: name ++ [']']

/-- Whether a tag can bear a name that `rest` follows. -/
def admits (name rest : Text) : Bool :=
  Text.isBoundary (name.getLast? <|> some '[') rest.head? && rest.contains ']'

/-- The first of the names that a tag can bear at a text, and what follows it. -/
def nameAt? (names : List Text) (t : Text) : Option (Text × Text) :=
  names.findSome? fun name =>
    match name.isPrefixOf? t with
    | some rest => if admits name rest then some (name, rest) else none
    | none => none

/-- What stands between a name and the first closing bracket, and what follows the bracket. -/
def insideAt (t : Text) : Text × Text := (t.takeWhile (· ≠ ']'), (t.dropWhile (· ≠ ']')).tail)

/-- The non-empty text up to the first closer of a name, and what follows the closer. -/
def enclosedAt? (name : Text) : Text → Option (Text × Text)
  | [] => none
  | c :: rest => (Text.cut? (closer name) rest).map fun (t, after) => (c :: t, after)

/-- The tag whose name follows an opening bracket, with what precedes the bracket. -/
def tagOf (start : Nat) (leading name rest : Text) : TagMatch :=
  let (inside, after) := insideAt rest
  let selfClosing := inside.getLast? = some '/'
  let enclosed := enclosedAt? name after
  let trailing := ((enclosed.map (·.2)).getD after).take 1
  let written := match enclosed with
    | some (t, _) => t ++ closer name
    | none => []
  let text := leading ++ '[' :: name ++ inside ++ ']' :: written ++ trailing
  { leading, tag := name
    rawAttributes := if selfClosing then inside.dropLast else inside
    selfClosing
    content := enclosed.map (·.1)
    trailing, text, start, stop := start + text.length }

/-- The tag that opens at the bracket at the front of a text. -/
def opensAt? (names : List Text) (start : Nat) (leading : Text) : Text → Option TagMatch
  | [] => none
  | c :: rest =>
    if c = '[' then (nameAt? names rest).map fun (name, after) => tagOf start leading name after
    else none

/-- The match that starts at the front of a text: a tag that opens behind its first character is
preferred to one that opens at it. -/
def matchAt? (names : List Text) (start : Nat) (t : Text) : Option TagMatch :=
  opensAt? names start (t.take 1) (t.drop 1) <|> opensAt? names start [] t

/-- The matches of a text from left to right, after passing over its first `skip` characters. -/
def scanAfter (names : List Text) : (skip start : Nat) → Text → List TagMatch
  | _, _, [] => []
  | skip + 1, start, _ :: rest => scanAfter names skip (start + 1) rest
  | 0, start, c :: rest =>
    match matchAt? names start (c :: rest) with
    | some m => m :: scanAfter names (m.text.length - 1) (start + 1) rest
    | none => scanAfter names 0 (start + 1) rest

end Scan

/-- All tags with one of the names in a text, from left to right. -/
def scan (names : List Text) (content : Text) : List TagMatch := Scan.scanAfter names 0 0 content

namespace Scan

theorem scanAfter_skip (names : List Text) (skip start : Nat) (t : Text) :
    scanAfter names skip start t = scanAfter names 0 (start + skip) (t.drop skip) := by
  induction skip generalizing start t with
  | zero => rfl
  | succ skip ih =>
    cases t with
    | nil => rfl
    | cons c t =>
      rw [scanAfter, ih, List.drop_succ_cons]
      congr 1
      omega

end Scan
end Shortcode
