import Shortcode.Proofs.Scan.WordNames
import Shortcode.TagMatch

/-! Documents: chunks of plain text with elements between them, and their printing. -/
namespace Shortcode
open Scan

/-- How an element goes on behind its attributes. -/
inductive Form where
  | single
  | slash
  | enclosing (body : Text)
deriving DecidableEq

/-- An element of a document; it is wrapped if it stands in brackets of its own. -/
structure Element where
  name : Text
  attributes : Text
  form : Form
  wrapped : Bool
deriving DecidableEq

namespace Element

def slashed (e : Element) : Bool := e.form = .slash

def body? (e : Element) : Option Text :=
  match e.form with
  | .enclosing body => some body
  | _ => none

/-- What stands between the name and the closing bracket. -/
def inside (e : Element) : Text := e.attributes ++ if e.slashed then ['/'] else []

/-- The enclosed text with the closer. -/
def ending (e : Element) : Text := e.body?.elim [] fun body => body ++ closer e.name

def front (e : Element) : Text := if e.wrapped then ['['] else []

def back (e : Element) : Text := if e.wrapped then [']'] else []

def text (e : Element) : Text :=
  e.front ++ '[' :: e.name ++ e.inside ++ ']' :: e.ending ++ e.back

/-- An element with one of the names that can be told from the text around it. -/
structure Proper (names : List Text) (e : Element) : Prop where
  name_mem : e.name ∈ names
  bracket_notMem : ']' ∉ e.attributes
  head_not_word : ∀ c ∈ e.attributes.head?, Text.isWord c = false
  getLast_ne_slash : e.form ≠ .slash → e.attributes.getLast? ≠ some '/'
  body_ne_nil : ∀ body ∈ e.body?, body ≠ []
  closer_notInfix : ∀ body ∈ e.body?, ¬ closer e.name <:+: body

/-- A match that gives back an element. -/
structure ReadAs (e : Element) (m : TagMatch) : Prop where
  tag : m.tag = e.name
  rawAttributes : m.rawAttributes = e.attributes
  selfClosing : m.selfClosing = e.slashed
  content : m.content = e.body?
  isEscaped : m.isEscaped = e.wrapped

end Element

namespace Document

/-- A chunk and the elements that follow, each with the chunk behind it, as one text. -/
def print (t : Text) : List (Element × Text) → Text
  | [] => t
  | (e, u) :: more => t ++ e.text ++ print u more

/-- The same without its elements: of a wrapped one the brackets are left. -/
def bare (t : Text) : List (Element × Text) → Text
  | [] => t
  | (e, u) :: more => t ++ (if e.wrapped then ['[', ']'] else []) ++ bare u more

/-- Chunks without opening brackets and not empty between two elements, and elements none of which
encloses what follows it. -/
inductive WellFormed (names : List Text) : Text → List (Element × Text) → Prop
  | chunk {t : Text} (ht : '[' ∉ t) : WellFormed names t []
  | element {t : Text} {e : Element} {u : Text} {more : List (Element × Text)} (ht : '[' ∉ t)
      (he : e.Proper names) (hc : e.body? = none → ¬ closer e.name <:+: e.back ++ print u more)
      (hu : more ≠ [] → u ≠ []) (hw : WellFormed names u more) :
      WellFormed names t ((e, u) :: more)

variable {names : List Text} {t u : Text} {more : List (Element × Text)}

theorem print_append (t u : Text) (more : List (Element × Text)) :
    print (t ++ u) more = t ++ print u more := by
  cases more with
  | nil => rfl
  | cons => simp [print]

theorem bare_append (t u : Text) (more : List (Element × Text)) :
    bare (t ++ u) more = t ++ bare u more := by
  cases more with
  | nil => rfl
  | cons => simp [bare]

theorem WellFormed.notMem (h : WellFormed names t more) : '[' ∉ t := by
  cases h with
  | chunk ht => exact ht
  | element ht => exact ht

/-- The first chunk can be cut. -/
theorem WellFormed.of_suffix (h : WellFormed names t more) (hs : u <:+ t) :
    WellFormed names u more := by
  have hu : '[' ∉ u := fun hm => h.notMem (hs.mem hm)
  cases h with
  | chunk => exact WellFormed.chunk hu
  | element _ he hc hne hw => exact WellFormed.element hu he hc hne hw

end Document
end Shortcode
