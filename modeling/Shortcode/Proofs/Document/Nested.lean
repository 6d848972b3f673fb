import Shortcode.Proofs.Document.Basic

/-! Documents whose elements enclose documents again. A closer in the text of one is the closer of an
element of it, so each level of a well-nested document is a well-formed document of its own. -/
namespace Shortcode
open Scan
variable {names : List Text} {name n t u r : Text}

/-- The elements of one level, each with the chunk behind it. What an element encloses is a chunk
with elements behind it again. -/
inductive Forest where
  | empty
  | alone (name attributes : Text) (slash : Bool) (chunk : Text) (more : Forest)
  | around (name attributes first : Text) (body : Forest) (chunk : Text) (more : Forest)

namespace Forest

/-- The elements of the outermost level; what they enclose is printed. -/
def elements : Forest → List (Element × Text)
  | empty => []
  | alone name attributes slash chunk more =>
    (⟨name, attributes, if slash then .slash else .single, false⟩, chunk) :: more.elements
  | around name attributes first body chunk more =>
    (⟨name, attributes, .enclosing (Document.print first body.elements), false⟩, chunk) ::
      more.elements

/-- The text of a document: its first chunk and its elements. -/
def print (t : Text) (f : Forest) : Text := Document.print t f.elements

/-- An element with the name encloses something, at whatever depth. -/
def Encloses (n : Text) : Forest → Prop
  | empty => False
  | alone _ _ _ _ more => more.Encloses n
  | around name _ _ body _ more => name = n ∨ body.Encloses n ∨ more.Encloses n

/-- How many elements stand inside each other at most. -/
def height : Forest → Nat
  | empty => 0
  | alone _ _ _ _ more => max 1 more.height
  | around _ _ _ body _ more => max (body.height + 1) more.height

end Forest

/-- What can open an element: one of the names, and attributes that neither go on with the name nor
hold brackets nor seem to end with the slash of another form. -/
structure Heads (names : List Text) (name attributes : Text) (slash : Bool) : Prop where
  name_mem : name ∈ names
  opening_notMem : '[' ∉ attributes
  closing_notMem : ']' ∉ attributes
  head_not_word : ∀ c ∈ attributes.head?, Text.isWord c = false
  getLast_ne_slash : slash = false → attributes.getLast? ≠ some '/'

/-- Chunks hold no opening brackets and are not empty between two elements. An element that stands
alone is not followed by one of its name that encloses something, and no element encloses another one
of its name that does. -/
inductive WellNested (names : List Text) : Text → Forest → Prop
  | chunk {t : Text} (ht : '[' ∉ t) : WellNested names t .empty
  | alone {t name attributes chunk : Text} {slash : Bool} {more : Forest} (ht : '[' ∉ t)
      (hh : Heads names name attributes slash) (hl : ¬ more.Encloses name)
      (hu : more ≠ .empty → chunk ≠ []) (hm : WellNested names chunk more) :
      WellNested names t (.alone name attributes slash chunk more)
  | around {t name attributes first chunk : Text} {body more : Forest} (ht : '[' ∉ t)
      (hh : Heads names name attributes false) (hb : WellNested names first body)
      (hne : body.print first ≠ []) (hi : ¬ body.Encloses name)
      (hu : more ≠ .empty → chunk ≠ []) (hm : WellNested names chunk more) :
      WellNested names t (.around name attributes first body chunk more)

namespace Scan

theorem closer_isInfix_of_bracket (hn : '[' ∉ n) (h : closer n <:+: u ++ '[' :: r) :
    closer n <:+: u ∨ closer n <:+: '[' :: r := by
  induction u with
  | nil => exact Or.inr h
  | cons c u ih =>
    rcases List.infix_cons_iff.mp h with hp | hi
    · exact Or.inl (closer_isPrefix_of_bracket hn (List.cons_ne_nil c u) hp).isInfix
    · rcases ih hi with hu | hr
      · exact Or.inl (List.infix_cons hu)
      · exact Or.inr hr

/-- A text without opening brackets in front makes no closer. -/
theorem closer_isInfix_of_notMem (hu : '[' ∉ u) (h : closer n <:+: u ++ r) : closer n <:+: r := by
  induction u with
  | nil => exact h
  | cons c u ih =>
    rcases List.infix_cons_iff.mp h with hp | hi
    · have hc : '[' = c := (List.cons_prefix_cons.mp hp).1
      exact (hu (hc ▸ List.mem_cons_self)).elim
    · exact ih (fun hm => hu (List.mem_cons_of_mem c hm)) hi

/-- Where a name follows a bracket, no closer begins. -/
theorem closer_isInfix_of_name (hname : IsWordName name) (h : closer n <:+: '[' :: (name ++ r)) :
    closer n <:+: name ++ r := by
  rcases List.infix_cons_iff.mp h with hp | hi
  · obtain ⟨c, w, rfl, hc⟩ := hname.head
    have hs : '/' = c := (List.cons_prefix_cons.mp (List.cons_prefix_cons.mp hp).2).1
    rw [← hs] at hc
    exact absurd hc (by decide)
  · exact hi

/-- A closer that begins with a closer of another name is one of that name. -/
theorem closer_isInfix_of_closer (hn : IsWordName n) (hname : IsWordName name)
    (h : closer n <:+: closer name ++ r) : name = n ∨ closer n <:+: r := by
  rcases List.infix_cons_iff.mp h with ⟨x, hx⟩ | hi
  · left
    have ht : n ++ ']' :: x = name ++ ']' :: r := by simpa [closer] using hx
    have hb : ∀ (z : Text), ∀ c ∈ (']' :: z).head?, Text.isWord c = false := by
      rintro z c hc
      obtain rfl := Option.some.inj hc
      decide
    exact (eq_of_append_eq hn hname (hb x) (hb r) ht).symm
  · right
    have hb : '[' ∉ '/' :: (name ++ [']']) := by simp [hname.notMem (c := '[') (by decide)]
    exact closer_isInfix_of_notMem hb (by simpa using hi)

end Scan

namespace Forest
variable {attributes first chunk : Text} {slash : Bool} {body more : Forest}

@[simp] theorem print_empty (t : Text) : empty.print t = t := rfl

theorem print_alone (t : Text) : (alone name attributes slash chunk more).print t =
    t ++ '[' :: (name ++ (attributes ++ (if slash then ['/'] else []) ++ ']' ::
      more.print chunk)) := by
  cases slash <;> simp [print, elements, Document.print, Element.text, Element.front, Element.back,
    Element.inside, Element.slashed, Element.ending, Element.body?]

theorem print_around (t : Text) : (around name attributes first body chunk more).print t =
    t ++ '[' :: (name ++ (attributes ++ ']' ::
      (body.print first ++ (closer name ++ more.print chunk)))) := by
  simp [print, elements, Document.print, Element.text, Element.front, Element.back, Element.inside,
    Element.slashed, Element.ending, Element.body?]

theorem elements_ne_nil (h : more.elements ≠ []) : more ≠ .empty := by
  rintro rfl
  exact h rfl

end Forest

/-- Every closer in the text of a document closes an element of it. -/
theorem WellNested.encloses_of_closer {f : Forest} (hn : ∀ n ∈ names, IsWordName n)
    (hw : WellNested names t f) (hx : IsWordName n) (h : closer n <:+: f.print t) :
    f.Encloses n := by
  have hb : '[' ∉ n := hx.notMem (by decide)
  induction hw with
  | @chunk t ht =>
    have he : closer n <:+: [] := closer_isInfix_of_notMem (r := []) ht (by simpa using h)
    simp [closer] at he
  | @alone t name attributes chunk slash more ht hh hl hu hm ih =>
    have hname := hn name hh.name_mem
    rw [Forest.print_alone] at h
    have ha := closer_isInfix_of_name hname (closer_isInfix_of_notMem ht h)
    have hs : '[' ∉ name ++ (attributes ++ (if slash then ['/'] else []) ++ [']']) := by
      have hname := hname.notMem (c := '[') (by decide)
      cases slash <;> simp [hname, hh.opening_notMem]
    exact ih (closer_isInfix_of_notMem hs (by simpa using ha))
  | @around t name attributes first chunk body more ht hh hb' hne hi hu hm ihb ih =>
    have hname := hn name hh.name_mem
    rw [Forest.print_around] at h
    have ha := closer_isInfix_of_name hname (closer_isInfix_of_notMem ht h)
    have hs : '[' ∉ name ++ (attributes ++ [']']) := by
      simp [hname.notMem (c := '[') (by decide), hh.opening_notMem]
    have hbody := closer_isInfix_of_notMem hs (r := body.print first ++ (closer name ++
      more.print chunk)) (by simpa using ha)
    -- the closer stands in the body, is the one of the element, or stands behind it
    rcases closer_isInfix_of_bracket hb hbody with hin | hc
    · exact Or.inr (Or.inl (ihb hin))
    · rcases closer_isInfix_of_closer hx hname hc with he | hr
      · exact Or.inl he
      · exact Or.inr (Or.inr (ih hr))

theorem Heads.proper {attributes : Text} {slash : Bool} (h : Heads names name attributes slash)
    {form : Form} (hf : form = .slash ↔ slash = true)
    (hb : ∀ body, form = .enclosing body → body ≠ [] ∧ ¬ closer name <:+: body) :
    Element.Proper names ⟨name, attributes, form, false⟩ := by
  refine ⟨h.name_mem, h.closing_notMem, h.head_not_word, ?_, ?_, ?_⟩
  · intro hs
    apply h.getLast_ne_slash
    cases slash with
    | true => exact (hs (hf.mpr rfl)).elim
    | false => rfl
  · rintro body hm
    cases form with
    | enclosing b =>
      obtain rfl := Option.some.inj hm
      exact (hb _ rfl).1
    | single => cases hm
    | slash => cases hm
  · rintro body hm
    cases form with
    | enclosing b =>
      obtain rfl := Option.some.inj hm
      exact (hb _ rfl).2
    | single => cases hm
    | slash => cases hm

theorem WellNested.mono {names' : List Text} {f : Forest} (h : names ⊆ names')
    (hw : WellNested names t f) : WellNested names' t f := by
  have hh {name attributes : Text} {slash : Bool} (hh : Heads names name attributes slash) :
      Heads names' name attributes slash := { hh with name_mem := h hh.name_mem }
  induction hw with
  | chunk ht => exact .chunk ht
  | alone ht ho hl hu _ ih => exact .alone ht (hh ho) hl hu ih
  | around ht ho _ hne hi hu _ ihb ih => exact .around ht (hh ho) ihb hne hi hu ih

/-- The outermost level of a well-nested document is a well-formed document. -/
theorem WellNested.wellFormed {f : Forest} (hn : ∀ n ∈ names, IsWordName n)
    (hw : WellNested names t f) : Document.WellFormed names t f.elements := by
  induction hw with
  | chunk ht => exact .chunk ht
  | @alone t name attributes chunk slash more ht hh hl hu hm ih =>
    have hp : Element.Proper names
        ⟨name, attributes, if slash then .slash else .single, false⟩ := by
      apply hh.proper
      · cases slash <;> simp
      · intro body hb
        cases slash <;> cases hb
    refine .element ht hp ?_ (fun h => hu (Forest.elements_ne_nil h)) ih
    exact fun _ hc => hl (hm.encloses_of_closer hn (hn name hh.name_mem) hc)
  | @around t name attributes first chunk body more ht hh hb hne hi hu hm ihb ih =>
    have hp : Element.Proper names ⟨name, attributes, .enclosing (body.print first), false⟩ := by
      apply hh.proper
      · simp
      · rintro _ ⟨⟩
        exact ⟨hne, fun hc => hi (hb.encloses_of_closer hn (hn name hh.name_mem) hc)⟩
    exact .element ht hp nofun (fun h => hu (Forest.elements_ne_nil h)) ih

/-- The first chunk of a well-nested document can be cut. -/
theorem WellNested.of_suffix {f : Forest} (h : WellNested names t f) (hs : u <:+ t) :
    WellNested names u f := by
  have hu {t : Text} (ht : '[' ∉ t) (hs : u <:+ t) : '[' ∉ u := fun hm => ht (hs.mem hm)
  cases h with
  | chunk ht => exact .chunk (hu ht hs)
  | alone ht hh hl hc hm => exact .alone (hu ht hs) hh hl hc hm
  | around ht hh hb hne hi hc hm => exact .around (hu ht hs) hh hb hne hi hc hm

end Shortcode
