import Mathlib.Data.List.Basic
import Shortcode.Proofs.Text.Cut
import Shortcode.Scan

/-! The preferred way to match each part of the pattern of a tag. -/
namespace Shortcode.Pattern
variable {p q r : Pattern} {c d : Cursor} {t u name after : Text}
  {b : Option Char}

theorem ends_optional (p : Pattern) (c : Cursor) : (optional p).ends c = p.ends c ++ [c] := rfl

theorem ends_group (index : Nat) (p : Pattern) (c : Cursor) :
    (group index p).ends c = (p.ends c).map fun d => d.capture index (c.textTo d) := rfl

theorem ends_append (p q : Pattern) (c : Cursor) :
    (p ++ q).ends c = (p.ends c).flatMap q.ends := rfl

theorem ends_append_assoc (p q r : Pattern) (c : Cursor) :
    (p ++ q ++ r).ends c = (p ++ (q ++ r)).ends c := by
  rw [ends_append, ends_append, ends_append, List.flatMap_assoc]
  rfl

theorem head?_ends_append (p q : Pattern) (c : Cursor) :
    ((p ++ q).ends c).head? = (p.ends c).findSome? fun d => (q.ends d).head? := by
  rw [ends_append, List.head?_flatMap]

/-- Nothing is tried again in front of a part that always matches. -/
theorem head?_ends_append_of_total (hq : ∀ d, q.ends d ≠ []) (c : Cursor) :
    ((p ++ q).ends c).head? = (p.ends c).head?.bind fun d => (q.ends d).head? := by
  rw [head?_ends_append]
  cases p.ends c with
  | nil => rfl
  | cons d ds =>
    obtain ⟨e, es, he⟩ := List.exists_cons_of_ne_nil (hq d)
    simp [he]

theorem optional_ends_ne_nil (p : Pattern) (c : Cursor) : (optional p).ends c ≠ [] := by
  simp [ends_optional]

theorem group_ends_ne_nil {index : Nat} (h : p.ends c ≠ []) : (group index p).ends c ≠ [] := by
  simpa [ends_group] using h

theorem ends_literal_append (h : c.rest = t ++ after) :
    (literal t).ends c = [{ c with before := t.getLast? <|> c.before, rest := after }] := by
  simp [ends, Cursor.advance, h, Text.isPrefixOf?_append]

theorem ends_literal_eq_nil (h : ¬ t <+: c.rest) : (literal t).ends c = [] := by
  simp [ends, Cursor.advance, Text.isPrefixOf?_eq_none_iff.mpr h]

/-! The end of an opening: the slash if there is one, and the bracket. -/

def slashAndBracket : Pattern := optional (group 4 (literal ['/'])) ++ literal [']']

theorem head?_slashAndBracket_of_slash (h : c.rest = '/' :: ']' :: after) :
    (slashAndBracket.ends c).head? = some ⟨some ']', after, (c.capture 4 ['/']).taken⟩ := by
  have hs : (literal ['/']).ends c = [⟨some '/', ']' :: after, c.taken⟩] :=
    ends_literal_append h
  have ht : c.textTo ⟨some '/', ']' :: after, c.taken⟩ = ['/'] := by
    simp [Cursor.textTo, h]
  have hb : (literal [']']).ends (Cursor.capture ⟨some '/', ']' :: after, c.taken⟩ 4 ['/']) =
      [⟨some ']', after, (c.capture 4 ['/']).taken⟩] := ends_literal_append rfl
  rw [slashAndBracket, ends_append, ends_optional, ends_group, hs, List.map_singleton, ht,
    List.cons_append, List.flatMap_cons, hb]
  rfl

theorem head?_slashAndBracket_of_bracket (h : c.rest = ']' :: after) :
    (slashAndBracket.ends c).head? = some ⟨some ']', after, c.taken⟩ := by
  have hs : ¬ ['/'] <+: c.rest := by simp [h]
  have hb : (literal [']']).ends c = [⟨some ']', after, c.taken⟩] := ends_literal_append h
  simp [slashAndBracket, ends_append, ends_optional, ends_group, ends_literal_eq_nil hs, hb]

/-- Elsewhere an opening does not end. -/
theorem slashAndBracket_ends_eq_nil (hb : ¬ [']'] <+: c.rest) (hs : ¬ ['/', ']'] <+: c.rest) :
    slashAndBracket.ends c = [] := by
  have hb' := ends_literal_eq_nil hb
  by_cases hc : ['/'] <+: c.rest
  · obtain ⟨after, he⟩ := hc
    have ha : ¬ [']'] <+: after := by
      rintro ⟨rest, rfl⟩
      exact hs ⟨rest, he⟩
    have hd : (literal ['/']).ends c = [⟨some '/', after, c.taken⟩] :=
      ends_literal_append he.symm
    have hn : ∀ t, (literal [']']).ends (Cursor.capture ⟨some '/', after, c.taken⟩ 4 t) = [] :=
      fun _ => ends_literal_eq_nil ha
    simp [slashAndBracket, ends_append, ends_optional, ends_group, hd, hb', hn]
  · simp [slashAndBracket, ends_append, ends_optional, ends_group, ends_literal_eq_nil hc, hb']

/-- An opening does not end in front of a character that is no bracket, unless it is the slash. -/
theorem slashAndBracket_ends_of_cons {x : Char} (hc : c.rest = x :: (t ++ ']' :: after))
    (hx : ']' ∉ x :: t) (hs : ¬ (x = '/' ∧ t = [])) : slashAndBracket.ends c = [] := by
  apply slashAndBracket_ends_eq_nil
  · intro h
    rw [hc] at h
    obtain ⟨rfl, -⟩ := List.cons_prefix_cons.mp h
    exact hx List.mem_cons_self
  · intro h
    rw [hc] at h
    obtain ⟨rfl, hb⟩ := List.cons_prefix_cons.mp h
    cases t with
    | nil => exact hs ⟨rfl, rfl⟩
    | cons y t =>
      obtain ⟨rfl, -⟩ := List.cons_prefix_cons.mp hb
      exact hx (by simp)

theorem textTo_of_append (h : c.rest = t ++ d.rest) : c.textTo d = t := by
  simp [Cursor.textTo, h]

theorem suffix_of_mem_onward {taken : Nat → Option Text}
    (h : d ∈ Cursor.onward taken b t) : d.rest <:+ t := by
  induction t generalizing b with
  | nil =>
    simp only [Cursor.onward, List.mem_singleton] at h
    simp [h]
  | cons x t ih =>
    rcases List.mem_cons.mp h with rfl | h
    · exact List.suffix_refl _
    · exact (ih h).trans (List.suffix_cons _ _)

/-- What follows a name in an opening: the raw attributes, the slash and the bracket. -/
def inside : Pattern := group 3 (stretch false) ++ slashAndBracket

/-- The place behind an opening, where `t` is what stands between the name and the bracket. -/
def closed (c : Cursor) (t after : Text) : Cursor where
  before := some ']'
  rest := after
  taken :=
    if t.getLast? = some '/' then ((c.capture 3 t.dropLast).capture 4 ['/']).taken
    else (c.capture 3 t).taken

/-- The raw attributes grow until the rest of the opening follows, which is first the case at the
first closing bracket or at a slash in front of it. -/
theorem findSome?_onward_slashAndBracket
    (hc : c.rest = u ++ (t ++ ']' :: after)) (ht : ']' ∉ t) :
    (Cursor.onward c.taken b (t ++ ']' :: after)).findSome?
        (fun d => (slashAndBracket.ends (d.capture 3 (c.textTo d))).head?) =
      some ⟨some ']', after,
        if t.getLast? = some '/' then ((c.capture 3 (u ++ t.dropLast)).capture 4 ['/']).taken
        else (c.capture 3 (u ++ t)).taken⟩ := by
  induction t generalizing b u with
  | nil =>
    have hu : c.textTo ⟨b, ']' :: after, c.taken⟩ = u := textTo_of_append hc
    have hs := head?_slashAndBracket_of_bracket
      (c := Cursor.capture ⟨b, ']' :: after, c.taken⟩ 3 u) rfl
    rw [List.nil_append, Cursor.onward, List.findSome?_cons, hu, hs]
    simp [Cursor.capture]
  | cons x t ih =>
    have hu : c.textTo ⟨b, x :: (t ++ ']' :: after), c.taken⟩ = u := textTo_of_append hc
    have hxt : ']' ∉ t := fun hm => ht (List.mem_cons_of_mem x hm)
    rw [List.cons_append, Cursor.onward, List.findSome?_cons, hu]
    by_cases hs : x = '/' ∧ t = []
    · obtain ⟨rfl, rfl⟩ := hs
      have hs := head?_slashAndBracket_of_slash
        (c := Cursor.capture ⟨b, '/' :: ']' :: after, c.taken⟩ 3 u) rfl
      rw [List.nil_append, hs]
      simp [Cursor.capture]
    · have hn : slashAndBracket.ends
          (Cursor.capture ⟨b, x :: (t ++ ']' :: after), c.taken⟩ 3 u) = [] :=
        slashAndBracket_ends_of_cons rfl ht hs
      have hl : (x :: t).getLast? = some '/' ↔ t.getLast? = some '/' := by
        cases t with
        | nil => simpa using hs
        | cons y t => simp
      have hc : c.rest = u ++ [x] ++ (t ++ ']' :: after) := by simpa using hc
      rw [hn, List.head?_nil, ih hc hxt]
      by_cases hl' : t.getLast? = some '/'
      · have hne : t ≠ [] := by rintro rfl; simp at hl'
        simp [hl', hl.mpr hl', List.dropLast_cons_of_ne_nil hne]
      · simp [hl', mt hl.mp hl']

theorem head?_inside_ends (hc : c.rest = t ++ ']' :: after) (ht : ']' ∉ t) :
    (inside.ends c).head? = some (closed c t after) := by
  have h := findSome?_onward_slashAndBracket (b := c.before) (u := []) hc ht
  rw [← hc] at h
  rw [inside, head?_ends_append, ends_group, List.findSome?_map]
  exact h

theorem inside_ends_eq_nil (h : ']' ∉ c.rest) : inside.ends c = [] := by
  rw [inside, ends_append, ends_group, List.flatMap_eq_nil_iff]
  intro e he
  obtain ⟨d, hd, rfl⟩ := List.mem_map.mp he
  have hr : ']' ∉ d.rest := fun hm => h ((suffix_of_mem_onward hd).mem hm)
  apply slashAndBracket_ends_eq_nil
  · rintro ⟨rest, he⟩
    exact hr (he ▸ by simp)
  · rintro ⟨rest, he⟩
    exact hr (he ▸ by simp)

/-! The closer of a name, and the text that it encloses. -/

def closing : Pattern := literal ['[', '/'] ++ (again 2 ++ literal [']'])

theorem closing_ends_append (hn : c.taken 2 = some name)
    (hc : c.rest = Scan.closer name ++ after) :
    closing.ends c = [⟨some ']', after, c.taken⟩] := by
  have hl : (literal ['[', '/']).ends c = [⟨some '/', name ++ (']' :: after), c.taken⟩] :=
    ends_literal_append (by simpa [Scan.closer] using hc)
  have ha : (again 2).ends ⟨some '/', name ++ (']' :: after), c.taken⟩ =
      [⟨name.getLast? <|> some '/', ']' :: after, c.taken⟩] := by
    simp [ends, hn, Cursor.advance, Text.isPrefixOf?_append]
  have hb : (literal [']']).ends ⟨name.getLast? <|> some '/', ']' :: after, c.taken⟩ =
      [⟨some ']', after, c.taken⟩] := ends_literal_append rfl
  rw [closing, ends_append, hl, List.flatMap_singleton, ends_append, ha, List.flatMap_singleton, hb]

theorem closing_ends_eq_nil (hn : c.taken 2 = some name)
    (hc : ¬ Scan.closer name <+: c.rest) : closing.ends c = [] := by
  rw [closing, ends_append]
  by_cases hl : ['[', '/'] <+: c.rest
  · obtain ⟨u, hu⟩ := hl
    rw [ends_literal_append hu.symm, List.flatMap_singleton, ends_append]
    by_cases ha : name <+: u
    · obtain ⟨v, rfl⟩ := ha
      have hb : ¬ [']'] <+: v := by
        rintro ⟨w, rfl⟩
        exact hc ⟨w, by simpa [Scan.closer] using hu⟩
      simp [ends, hn, Cursor.advance, Text.isPrefixOf?_append, Text.isPrefixOf?_eq_none_iff.mpr hb]
    · simp [ends, hn, Cursor.advance, Text.isPrefixOf?_eq_none_iff.mpr ha]
  · rw [ends_literal_eq_nil hl, List.flatMap_nil]

theorem findSome?_onward_closing (hn : c.taken 2 = some name) (hc : c.rest = u ++ t) :
    (Cursor.onward c.taken b t).findSome?
        (fun d => (closing.ends (d.capture 5 (c.textTo d))).head?) =
      (Text.cut? (Scan.closer name) t).map fun r =>
        ⟨some ']', r.2, (c.capture 5 (u ++ r.1)).taken⟩ := by
  induction t generalizing b u with
  | nil =>
    have hu : c.textTo ⟨b, [], c.taken⟩ = u := textTo_of_append hc
    have hp : ¬ Scan.closer name <+: [] := by simp [Scan.closer]
    have he := closing_ends_eq_nil (c := Cursor.capture ⟨b, [], c.taken⟩ 5 u) hn hp
    rw [Text.cut?_nil (by simp [Scan.closer]), Cursor.onward, List.findSome?_cons, hu, he]
    rfl
  | cons x t ih =>
    have hu : c.textTo ⟨b, x :: t, c.taken⟩ = u := textTo_of_append hc
    rw [Cursor.onward, List.findSome?_cons, hu]
    by_cases hp : Scan.closer name <+: x :: t
    · obtain ⟨after, ha⟩ := hp
      have he := closing_ends_append (c := Cursor.capture ⟨b, x :: t, c.taken⟩ 5 u) hn ha.symm
      rw [he, ← ha, Text.cut?_mark_append]
      simp [Cursor.capture]
    · have he := closing_ends_eq_nil (c := Cursor.capture ⟨b, x :: t, c.taken⟩ 5 u) hn hp
      have hc : c.rest = u ++ [x] ++ t := by simpa using hc
      rw [he, List.head?_nil, ih hc, Text.cut?_cons hp, Option.map_map]
      simp [Function.comp_def]

/-- The shortest text with a closer behind it is preferred. -/
theorem head?_enclosed_ends (hn : c.taken 2 = some name) :
    (enclosed.ends c).head? = (Scan.enclosedAt? name c.rest).map fun r =>
      ⟨some ']', r.2, (c.capture 5 r.1).taken⟩ := by
  rw [enclosed, ends_append_assoc, ends_append_assoc, head?_ends_append, ends_group,
    List.findSome?_map]
  cases hc : c.rest with
  | nil => simp [ends, hc, Cursor.onward, Scan.enclosedAt?]
  | cons x t =>
    have h := findSome?_onward_closing (b := some x) (u := [x]) (t := t) hn (by simpa using hc)
    simpa [closing, ends, hc, Cursor.onward, Scan.enclosedAt?, Function.comp_def] using h

/-! The characters around a tag. -/

theorem head?_group_optional_any (index : Nat) (c : Cursor) :
    ((group index (optional any)).ends c).head? =
      some ⟨c.rest.head? <|> c.before, c.rest.drop 1, (c.capture index (c.rest.take 1)).taken⟩ := by
  cases hc : c.rest with
  | nil => simp [ends, hc, Cursor.textTo, Cursor.capture]
  | cons x t => simp [ends, hc, Cursor.textTo, Cursor.capture]

end Shortcode.Pattern
