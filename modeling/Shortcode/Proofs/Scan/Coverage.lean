import Shortcode.Proofs.Scan.Gaps
import Shortcode.Proofs.Scan.Leftmost

/-! Matches are in order and lose nothing: they and the gaps between them are the text, and every
opening of a tag lies inside a match. -/
namespace Shortcode

/-- The text of a tag by itself, that is without the characters around it. -/
def TagParts.ownText (p : TagParts) : Text :=
  '[' :: p.tag ++ p.rawAttributes ++ (if p.selfClosing then ['/'] else []) ++
    ']' :: (p.content.elim [] fun t => t ++ Scan.closer p.tag)

/-- The text that the parts of a tag describe. -/
def TagParts.written (p : TagParts) : Text :=
  p.leading ++ '[' :: p.tag ++ p.rawAttributes ++ (if p.selfClosing then ['/'] else []) ++
    ']' :: (p.content.elim [] fun t => t ++ Scan.closer p.tag) ++ p.trailing

namespace Scan
variable {names : List Text} {content name inside after t : Text} {pos start b : Nat}
  {m : TagMatch} {ms : List TagMatch}

/-- What holds of a match that a search from `pos` on finds. -/
structure Placed (names : List Text) (content : Text) (pos : Nat) (m : TagMatch) : Prop where
  le_start : pos ≤ m.start
  start_add_three_le : m.start + 3 ≤ m.stop
  stop_le : m.stop ≤ content.length
  text_eq_extract : m.text = content.extract m.start m.stop
  text_eq_written : m.text = m.written
  tag_mem : m.tag ∈ names
  start_eq_of_leading : m.leading = [] → m.start = pos
  /-- Only a tag that ends at the end of the text has no character behind it. -/
  trailing_iff : m.trailing = [] ↔ m.stop - m.trailing.length = content.length

/-- Each match is placed behind the one before it. -/
inductive AllPlaced (names : List Text) (content : Text) : (pos : Nat) → List TagMatch → Prop
  | nil {pos : Nat} : AllPlaced names content pos []
  | cons {pos : Nat} {m : TagMatch} {ms : List TagMatch} (hp : Placed names content pos m)
      (ha : AllPlaced names content m.stop ms) : AllPlaced names content pos (m :: ms)

/-- What stands inside the brackets, cut at the slash at its end if there is one. -/
theorem inside_eq (inside : Text) : inside =
    (if inside.getLast? = some '/' then inside.dropLast else inside) ++
      (if inside.getLast? = some '/' then ['/'] else []) := by
  by_cases h : inside.getLast? = some '/'
  · rw [if_pos h, if_pos h]
    exact (List.dropLast_append_getLast? '/' h).symm
  · rw [if_neg h, if_neg h, List.append_nil]

theorem tagOf_text_eq_written (start : Nat) (leading name after : Text) (hu : ']' ∉ inside) :
    (tagOf start leading name (inside ++ ']' :: after)).text =
      (tagOf start leading name (inside ++ ']' :: after)).written := by
  have hi := insideAt_append hu after
  have hx := inside_eq inside
  cases he : enclosedAt? name after with
  | none => simp [tagOf, TagParts.written, hi, he, ← hx]
  | some r => simp [tagOf, TagParts.written, hi, he, ← hx]

/-- A word character follows an empty name. -/
theorem name_or_inside_ne_nil (h : admits name (inside ++ ']' :: after) = true) :
    1 ≤ name.length + inside.length := by
  by_contra hlt
  obtain rfl : name = [] := List.length_eq_zero_iff.mp (by omega)
  obtain rfl : inside = [] := List.length_eq_zero_iff.mp (by omega)
  rw [admits, Bool.and_eq_true] at h
  have hb : Text.isBoundary (some '[') (some ']') = true := h.1
  exact absurd hb (by decide)

theorem text_eq_written_of_matchAt? (h : matchAt? names start t = some m) :
    m.text = m.written ∧ 3 ≤ m.text.length := by
  obtain ⟨leading, name, rest, -, -, hn, rfl, -⟩ := matchAt?_eq_some h
  have ha := (nameAt?_eq_some_iff.mp hn).2.1
  obtain ⟨inside, after, rfl, hu⟩ := List.eq_append_cons_of_mem (mem_of_admits ha)
  refine ⟨tagOf_text_eq_written start leading name after hu, ?_⟩
  have hl := name_or_inside_ne_nil ha
  simp [tagOf, insideAt_append hu after]
  omega

/-- A tag has two brackets and at least one character between them. -/
theorem text_eq_ownText_of_matchAt? (h : matchAt? names start t = some m) :
    m.text = m.leading ++ m.ownText ++ m.trailing ∧ 3 ≤ m.ownText.length := by
  refine ⟨?_, ?_⟩
  · rw [(text_eq_written_of_matchAt? h).1]
    simp [TagParts.written, TagParts.ownText]
  · obtain ⟨leading, name, rest, -, -, hn, rfl, -⟩ := matchAt?_eq_some h
    have ha := (nameAt?_eq_some_iff.mp hn).2.1
    obtain ⟨inside, after, rfl, hu⟩ := List.eq_append_cons_of_mem (mem_of_admits ha)
    have hl := name_or_inside_ne_nil ha
    have hx := congrArg List.length (inside_eq inside)
    rw [List.length_append] at hx
    simp [TagParts.ownText, tagOf, insideAt_append hu after]
    omega

theorem Layout.Describes.starts {l : Layout} (h : l.Describes names content m) :
    Starts names content m.start := by
  have ho := h.1.tag.opens
  rcases h.1.leading with ⟨hb, -⟩ | ⟨hb, -⟩
  · exact Or.inl (hb ▸ ho)
  · exact Or.inr (hb ▸ ho)

/-- The match that the offsets describe is the one that the direct search finds there. -/
theorem Layout.Describes.matchAt? {l : Layout} (h : l.Describes names content m) :
    Scan.matchAt? names m.start (content.drop m.start) = some m := by
  cases hm : Scan.matchAt? names m.start (content.drop m.start) with
  | none => exact (matchAt?_drop_eq_none_iff.mp hm h.starts).elim
  | some m' =>
    have hs := start_of_matchAt? hm
    rw [← hs] at hm
    obtain ⟨l', hd⟩ := describes_of_matchAt? hm
    rw [h.unique hd hs.symm]

/-- A match without a leading character begins where the search does: else it would have begun one
character earlier. -/
theorem start_eq_of_leading {l : Layout} (h : l.Describes names content m)
    (hs : IsLeast {p | pos ≤ p ∧ Starts names content p} m.start) (hl : m.leading = []) :
    m.start = pos := by
  have ho := h.1.tag.opens
  rcases h.1.leading with ⟨hb, hx⟩ | ⟨hb, -⟩
  · have hlt := (List.getElem?_eq_some_iff.mp h.1.tag.1.1).1
    have hn : (content.extract m.start (m.start + 1)).length = 1 := by
      simp
      omega
    rw [← hx, hl] at hn
    cases hn
  · by_contra hne
    have hle := hs.1.1
    obtain ⟨p, hp⟩ : ∃ p, m.start = p + 1 := ⟨m.start - 1, by omega⟩
    rw [hb, hp] at ho
    have hmin := hs.2 ⟨by omega, Or.inl ho⟩
    omega

theorem placed_of_describes {l : Layout} (h : l.Describes names content m)
    (hs : IsLeast {p | pos ≤ p ∧ Starts names content p} m.start) :
    Placed names content pos m := by
  have hm := h.matchAt?
  obtain ⟨hw, hthree⟩ := text_eq_written_of_matchAt? hm
  have hstop := stop_of_matchAt? hm
  have hle : m.stop ≤ content.length := by
    obtain ⟨tail, ht⟩ := text_of_matchAt? hm
    have hlen := congrArg List.length ht
    rw [List.length_drop, List.length_append] at hlen
    omega
  obtain ⟨-, earlier, later, hmem, -⟩ := h.1.tag
  refine ⟨hs.1.1, by omega, hle, h.2.text, hw, by simp [hmem], start_eq_of_leading h hs, ?_⟩
  have hlast := h.2.stop
  have hx := congrArg List.length h.2.trailing
  rw [List.extract_eq_take_drop, List.length_take, List.length_drop] at hx
  rw [← List.length_eq_zero_iff]
  omega

theorem Finds.allPlaced (h : Finds names content pos ms) : AllPlaced names content pos ms := by
  induction h with
  | none => exact AllPlaced.nil
  | some hs hm _ ih =>
    obtain ⟨l, hd⟩ := hm
    exact AllPlaced.cons (placed_of_describes hd hs) ih

theorem AllPlaced.inOrder (h : AllPlaced names content pos ms) : InOrder content pos ms := by
  induction h with
  | nil => exact InOrder.nil
  | cons hp _ ih =>
    have hs := hp.start_add_three_le
    exact InOrder.cons hp.le_start (by omega) hp.text_eq_extract ih

theorem AllPlaced.tag_mem (h : AllPlaced names content pos ms) : ∀ m ∈ ms, m.tag ∈ names := by
  induction h with
  | nil => simp
  | cons hp _ ih =>
    intro m hm
    rcases List.mem_cons.mp hm with rfl | hm
    · exact hp.tag_mem
    · exact ih m hm

theorem Finds.exists_of_opens (h : Finds names content pos ms) (hb : pos ≤ b)
    (ho : Opens names content b) : ∃ m ∈ ms, m.start ≤ b ∧ b < m.stop := by
  induction h with
  | none hn => exact (hn b hb (Or.inr ho)).elim
  | @some pos m ms hs _ _ ih =>
    by_cases hlt : b < m.stop
    · exact ⟨m, List.mem_cons_self, hs.2 ⟨hb, Or.inr ho⟩, hlt⟩
    · obtain ⟨m', hm, hle, hlt⟩ := ih (by omega)
      exact ⟨m', List.mem_cons_of_mem m hm, hle, hlt⟩

theorem inOrder_scan (names : List Text) (content : Text) :
    InOrder content 0 (scan names content) := (finds_scan names content).allPlaced.inOrder

theorem tag_mem_of_mem_scan (h : m ∈ scan names content) : m.tag ∈ names :=
  (finds_scan names content).allPlaced.tag_mem m h

/-- The matches are placed in order, every opening of a tag lies inside one of them, and with the
gaps between them they are the content. -/
theorem scan_placed_and_complete (names : List Text) (content : Text) :
    AllPlaced names content 0 (scan names content) ∧
      (∀ b, Opens names content b → ∃ m ∈ scan names content, m.start ≤ b ∧ b < m.stop) ∧
      interleave (gaps content 0 (scan names content)) ((scan names content).map (·.text)) =
        content := by
  have hf := finds_scan names content
  refine ⟨hf.allPlaced, ?_, ?_⟩
  · intro b ho
    exact hf.exists_of_opens (Nat.zero_le b) ho
  · exact interleave_gaps_text (inOrder_scan names content)

/-- A match that ends at the end of the text can have a character behind its tag. -/
theorem not_trailing_eq_nil_iff_stop_eq_length :
    ¬ ∀ (names : List Text) (content : Text), names ≠ [] → ∀ m ∈ scan names content,
      (m.trailing = [] ↔ m.stop = content.length) := by
  intro h
  have hm : tagOf 0 [] ['a'] [']', 'x'] ∈ scan [['a']] ['[', 'a', ']', 'x'] := by decide
  have ht := (h [['a']] ['[', 'a', ']', 'x'] (by decide) _ hm).mpr (by decide)
  exact absurd ht (by decide)

end Scan
end Shortcode
