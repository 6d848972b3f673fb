import Shortcode.Text.Basic

/-! Backslash escapes in attribute values: `\x` with one or two hexadecimal digits, one to three octal
digits, the seven control letters, and any other character for itself. -/
namespace Shortcode.Attributes

def hexDigit? (c : Char) : Option Nat :=
  if c.isDigit then some (c.toNat - '0'.toNat)
  else if 'a' ≤ c ∧ c ≤ 'f' then some (c.toNat - 'a'.toNat + 10)
  else if 'A' ≤ c ∧ c ≤ 'F' then some (c.toNat - 'A'.toNat + 10)
  else none

def octalDigit? (c : Char) : Option Nat :=
  if '0' ≤ c ∧ c ≤ '7' then some (c.toNat - '0'.toNat) else none

/-- The longest run of at most `most` digits at the front of a text. -/
def leadingDigits (digit? : Char → Option Nat) : (most : Nat) → Text → List Nat
  | 0, _ => []
  | _ + 1, [] => []
  | most + 1, c :: rest =>
    match digit? c with
    | some d => d :: leadingDigits digit? most rest
    | none => []

def ofDigits (base : Nat) (digits : List Nat) : Nat := digits.foldl (fun n d => n * base + d) 0

/-- The control character that a letter stands for; any other character stands for itself. -/
def control : Char → Char
  | 'n' => '\n'
  | 't' => '\t'
  | 'r' => '\r'
  | 'a' => '\x07'
  | 'v' => '\x0b'
  | 'b' => '\x08'
  | 'f' => '\x0c'
  | c => c

/-- Reads what follows a backslash: the character it stands for and how many characters it takes.
Octal values wrap to one byte. -/
def escape? : Text → Option (Char × Nat)
  | [] => none
  | c :: rest =>
    match (if c = 'x' then leadingDigits hexDigit? 2 rest else []) with
    | d :: ds => some (Char.ofNat (ofDigits 16 (d :: ds)), ds.length + 2)
    | [] =>
      match leadingDigits octalDigit? 3 (c :: rest) with
      | d :: ds => some (Char.ofNat (ofDigits 8 (d :: ds) % 256), ds.length + 1)
      | [] => some (control c, 1)

/-- Resolves escapes from the left, after passing over the first `skip` characters. -/
def unescapeAfter : (skip : Nat) → Text → Text
  | _, [] => []
  | skip + 1, _ :: rest => unescapeAfter skip rest
  | 0, c :: rest =>
    if c = '\\' then
      match escape? rest with
      | some (d, width) => d :: unescapeAfter width rest
      | none => ['\\']
    else c :: unescapeAfter 0 rest

/-- Resolves all escapes. A backslash at the very end is kept. -/
def unescape (t : Text) : Text := unescapeAfter 0 t

theorem unescapeAfter_eq_drop (n : Nat) (t : Text) : unescapeAfter n t = unescape (t.drop n) := by
  induction t generalizing n with
  | nil => cases n <;> rfl
  | cons c t ih =>
    cases n with
    | zero => rfl
    | succ n => exact ih n

@[simp] theorem unescape_nil : unescape [] = [] := rfl

theorem unescape_cons {c : Char} (h : c ≠ '\\') (t : Text) :
    unescape (c :: t) = c :: unescape t := by
  simp [unescape, unescapeAfter, h]

end Shortcode.Attributes
