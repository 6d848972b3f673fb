import Shortcode.Text.Blank
import Shortcode.Text.Word

/-! The tokens of attribute text. A token stands between white space; the forms are tried in the
order of the constructors of `Token`, and any run without white space is at least a bare token. -/
namespace Shortcode.Attributes
open Text

inductive Token where
  | named (name value : Text)
  | quoted (value : Text)
  | bare (value : Text)
deriving DecidableEq

/-- Whether a token can end here: at white space or at the end of the text. -/
def endsHere (rest : Text) : Bool := rest.head?.all isBlank

/-- Reads a value between two marks `mark` that ends a token: the value and what follows. -/
def quotedBy? (mark : Char) : Text → Option (Text × Text)
  | [] => none
  | c :: rest =>
    if c = mark then
      match rest.dropWhile (· ≠ mark) with
      | _ :: after => if endsHere after then some (rest.takeWhile (· ≠ mark), after) else none
      | [] => none
    else none

/-- Characters of a value that stands after an equals sign without marks. -/
def isUnquoted (c : Char) : Bool := !isBlank c && c != singleQuote && c != doubleQuote

/-- Reads a non-empty value without marks that ends a token. -/
def unquoted? (t : Text) : Option (Text × Text) :=
  let value := t.takeWhile isUnquoted
  let after := t.dropWhile isUnquoted
  if value ≠ [] ∧ endsHere after then some (value, after) else none

/-- Reads a name and an equals sign, with white space around the sign: the name and what follows. -/
def assigned? (t : Text) : Option (Text × Text) :=
  match t.takeWhile isWord, (t.dropWhile isWord).dropWhile isBlank with
  | c :: name, '=' :: after => some (c :: name, after.dropWhile isBlank)
  | _, _ => none

def named? (t : Text) : Option (Token × Text) :=
  match assigned? t with
  | none => none
  | some (name, rest) =>
    (quotedBy? doubleQuote rest <|> quotedBy? singleQuote rest <|> unquoted? rest).map
      fun (value, after) => (.named name value, after)

/-- The token at the front of a text, and what follows it. -/
def tokenAt (t : Text) : Token × Text :=
  match named? t with
  | some r => r
  | none =>
    match quotedBy? doubleQuote t with
    | some (value, after) => (.quoted value, after)
    | none => (.bare (t.takeWhile (!isBlank ·)), t.dropWhile (!isBlank ·))

/-- A token with the piece of text that it was read from. -/
structure Lexeme where
  source : Text
  token : Token
deriving DecidableEq

def lexemeAt (t : Text) : Lexeme :=
  let (token, after) := tokenAt t
  ⟨t.take (t.length - after.length), token⟩

/-- The lexemes of a text, after passing over its first `skip` characters. -/
def lexemesAfter : (skip : Nat) → Text → List Lexeme
  | _, [] => []
  | skip + 1, _ :: rest => lexemesAfter skip rest
  | 0, c :: rest =>
    if isBlank c then lexemesAfter 0 rest
    else
      let lexeme := lexemeAt (c :: rest)
      lexeme :: lexemesAfter (lexeme.source.length - 1) rest

def lexemes (t : Text) : List Lexeme := lexemesAfter 0 t

def tokens (t : Text) : List Token := (lexemes t).map (·.token)

theorem lexemesAfter_eq_drop (n : Nat) (t : Text) : lexemesAfter n t = lexemes (t.drop n) := by
  induction t generalizing n with
  | nil => cases n <;> rfl
  | cons c t ih =>
    cases n with
    | zero => rfl
    | succ n => exact ih n

theorem lexemes_cons_blank {c : Char} (h : isBlank c = true) (t : Text) :
    lexemes (c :: t) = lexemes t := by
  simp [lexemes, lexemesAfter, h]

end Shortcode.Attributes
