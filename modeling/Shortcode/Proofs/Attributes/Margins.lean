import Shortcode.Proofs.Attributes.Decoding
import Shortcode.Proofs.Attributes.Tiling

/-! Spacing in front of attribute text and behind it. No token begins or ends with white space, so the
tokens of a text are those of the same text with more white space at its ends, and so are the
attributes that are read from it. -/
namespace Shortcode.Attributes
open Text
variable {t rest v : Text} {w : Written} {marks : Marks} {value : Text} {pos : Nat}
  {ps : List Placed}

/-! Where a token stands if white space is added behind the text. -/

theorem Marks.Fit.getLast (h : marks.Fit value) :
    ∀ c ∈ (marks.around value).getLast?, isBlank c = false := by
  have hmark : ∀ mark : Char, isBlank mark = false →
      ∀ c ∈ (mark :: value ++ [mark]).getLast?, isBlank c = false := by
    intro mark hm c hc
    rw [List.getLast?_concat] at hc
    obtain rfl := Option.some.inj hc
    exact hm
  cases marks with
  | double => exact hmark doubleQuote (by decide)
  | single => exact hmark singleQuote (by decide)
  | none =>
    intro c hc
    exact isBlank_eq_false_of_isUnquoted (h.2 c (List.mem_of_getLast? hc))

/-- A token ends with its value or with the mark behind it, and neither is white space. -/
theorem Written.Formed.getLast (h : w.Formed) : ∀ c ∈ w.print.getLast?, isBlank c = false := by
  cases w with
  | named name before after marks value =>
    obtain ⟨-, -, -, hv⟩ := h
    have hlast : (Written.named name before after marks value).print.getLast? =
        (marks.around value).getLast? := by
      obtain ⟨c, u, hu⟩ := List.exists_cons_of_ne_nil hv.around_ne_nil
      simp [Written.print, hu, List.getLast?_append, List.getLast?_cons]
    rw [hlast]
    exact hv.getLast
  | quoted value =>
    have hv : Marks.double.Fit value := h
    exact hv.getLast
  | bare value => exact fun c hc => h.2 c (List.mem_of_getLast? hc)

theorem Written.Stands.append_blank (h : w.Stands t rest) (hv : ∀ c ∈ v, isBlank c = true) :
    w.Stands (t ++ v) (rest ++ v) := by
  obtain ⟨rfl, hw, hr⟩ := h
  refine ⟨by rw [List.append_assoc], hw, ?_⟩
  cases rest with
  | nil =>
    cases v with
    | nil => rfl
    | cons c v => exact hv c List.mem_cons_self
  | cons c rest => exact hr

/-- White space behind a text is part of no token of it. -/
theorem Written.Stands.of_append_blank (h : w.Stands (t ++ v) rest)
    (hv : ∀ c ∈ v, isBlank c = true) : ∃ rest', rest = rest' ++ v ∧ w.Stands t rest' := by
  obtain ⟨he, hw, hr⟩ := h
  rcases List.append_eq_append_iff.mp he with ⟨a, hprint, rfl⟩ | ⟨a, rfl, rfl⟩
  · cases ha : a.getLast? with
    | none =>
      obtain rfl := List.getLast?_eq_none_iff.mp ha
      rw [List.append_nil] at hprint
      exact ⟨[], rfl, by rw [hprint, List.append_nil], hw, rfl⟩
    | some c =>
      -- the token would end within the white space
      have hc : c ∈ w.print.getLast? := by
        rw [hprint, List.getLast?_append, ha]
        rfl
      have hblank := hv c (List.mem_append_left rest (List.mem_of_getLast? ha))
      rw [hw.getLast c hc] at hblank
      cases hblank
  · refine ⟨a, rfl, rfl, hw, ?_⟩
    cases a with
    | nil => rfl
    | cons c a => exact hr

theorem Written.First.append_blank (h : w.First t rest) (hv : ∀ c ∈ v, isBlank c = true) :
    w.First (t ++ v) (rest ++ v) := by
  refine ⟨h.stands.append_blank hv, ?_⟩
  intro w' rest' h'
  obtain ⟨rest'', rfl, hs⟩ := h'.of_append_blank hv
  rcases h.earliest w' rest'' hs with ⟨rfl, rfl⟩ | hlt
  · exact Or.inl ⟨rfl, rfl⟩
  · exact Or.inr hlt

/-! The search for tokens in a text with white space behind it. -/

theorem begins_append_blank_iff (hv : ∀ c ∈ v, isBlank c = true) :
    Begins (t ++ v) pos ↔ Begins t pos := by
  rw [begins_iff, begins_iff]
  constructor
  · rintro ⟨c, hc, hb⟩
    by_cases hlt : pos < t.length
    · rw [List.getElem?_append_left hlt] at hc
      exact ⟨c, hc, hb⟩
    · rw [List.getElem?_append_right (Nat.le_of_not_lt hlt)] at hc
      rw [hv c (List.mem_of_getElem? hc)] at hb
      cases hb
  · rintro ⟨c, hc, hb⟩
    obtain ⟨hlt, -⟩ := List.getElem?_eq_some_iff.mp hc
    exact ⟨c, by rw [List.getElem?_append_left hlt, hc], hb⟩

/-- By induction on the search: it finds the same tokens at the same places. -/
theorem Search.append_blank (h : Search t pos ps) (hv : ∀ c ∈ v, isBlank c = true) :
    Search (t ++ v) pos ps := by
  induction h with
  | done hn => exact .done fun p hp hb => hn p hp ((begins_append_blank_iff hv).mp hb)
  | @found pos a rest ps hs hf _ ih =>
    obtain ⟨c, hc, -⟩ := begins_iff.mp hs.1.2
    obtain ⟨hlt, -⟩ := List.getElem?_eq_some_iff.mp hc
    have hfirst := hf.append_blank hv
    rw [← List.drop_append_of_le_length (Nat.le_of_lt hlt)] at hfirst
    exact .found (by simpa only [begins_append_blank_iff hv] using hs) hfirst ih

theorem lexemes_append_blank (hv : ∀ c ∈ v, isBlank c = true) (t : Text) :
    lexemes (t ++ v) = lexemes t := by
  obtain ⟨ps, hs⟩ := exists_search t 0
  have hleft := hs.lexemes_eq
  have hright := (hs.append_blank hv).lexemes_eq
  rw [List.drop_zero] at hleft hright
  rw [hleft, hright]

/-! Attributes between spacing. -/

variable {lead trail : Text}

theorem lexemes_softenSpaces_between (hl : ∀ c ∈ lead, isSpacing c = true)
    (ht : ∀ c ∈ trail, isSpacing c = true) (t : Text) :
    lexemes (softenSpaces (lead ++ t ++ trail)) = lexemes (softenSpaces t) := by
  obtain ⟨b, hb, hlead⟩ := exists_softenSpaces_append hl (t ++ trail)
  obtain ⟨d, hd, htrail⟩ := exists_append_softenSpaces ht t
  rw [List.append_assoc, hlead, htrail, lexemes_append_of_blank hb, lexemes_append_blank hd]

theorem forall_isSpacing_between_iff (hl : ∀ c ∈ lead, isSpacing c = true)
    (ht : ∀ c ∈ trail, isSpacing c = true) :
    (∀ c ∈ lead ++ t ++ trail, isSpacing c = true) ↔ ∀ c ∈ t, isSpacing c = true := by
  simp only [List.forall_mem_append]
  constructor
  · exact fun h => h.1.2
  · exact fun h => ⟨⟨hl, h⟩, ht⟩

/-- Spacing in front of attribute text and behind it changes neither the tokens nor the attributes:
both times they are plain and empty, if the text is spacing and nothing else, or both times they are
the same table. -/
theorem parse_between_spacing (config : Config) (hl : ∀ c ∈ lead, isSpacing c = true)
    (ht : ∀ c ∈ trail, isSpacing c = true) (t : Text) :
    lexemes (softenSpaces (lead ++ t ++ trail)) = lexemes (softenSpaces t) ∧
    parse config (lead ++ t ++ trail) = parse config t ∧
    ((∀ c ∈ t, isSpacing c = true) ∧ parse config t = .plain [] ∧
        parse config (lead ++ t ++ trail) = .plain [] ∨
      (∃ c ∈ t, isSpacing c = false) ∧ ∃ m, parse config t = .table m ∧
        parse config (lead ++ t ++ trail) = .table m) := by
  have hlexemes := lexemes_softenSpaces_between hl ht t
  refine ⟨hlexemes, ?_⟩
  rcases spacing_or_not t with hs | ⟨c, hc, hb⟩
  · have hinner := parse_of_spacing config hs
    have houter := parse_of_spacing config ((forall_isSpacing_between_iff hl ht).mpr hs)
    exact ⟨houter.trans hinner.symm, Or.inl ⟨hs, hinner, houter⟩⟩
  · have hinner := parse_of_not_spacing config ⟨c, hc, hb⟩
    have hmem : c ∈ lead ++ t ++ trail := List.mem_append_left _ (List.mem_append_right _ hc)
    have houter := parse_of_not_spacing config ⟨c, hmem, hb⟩
    rw [tokens, hlexemes] at houter
    exact ⟨houter.trans hinner.symm, Or.inr ⟨⟨c, hc, hb⟩, _, hinner, houter⟩⟩

/-- A quote that is never closed, a name with its value behind more spacing, and hard spaces at both
ends that run together with those around. -/
def unclosed : Text :=
  ['\u200b', 'a', '=', '"', 'x', '\t', 'b', ' ', '=', '\u00a0', '\\', 't', '\u00a0']

/-- What looks like a name before the quote is a bare value, between spacing as well. -/
theorem parse_between_spacing_unclosed :
    ∃ m, parse .default (['\n', '\u00a0'] ++ unclosed ++ ['\u200b', ' ']) = .table m ∧
      m.entries = [(.position 0, ['a', '=', '"', 'x']), (.name ['b'], ['\t'])] := by
  have hentries : (parse .default unclosed).entries =
      [(.position 0, ['a', '=', '"', 'x']), (.name ['b'], ['\t'])] := by
    decide +kernel
  have hl : ∀ c ∈ ['\n', '\u00a0'], isSpacing c = true := by decide
  have ht : ∀ c ∈ ['\u200b', ' '], isSpacing c = true := by decide
  obtain ⟨-, -, ⟨-, hp, -⟩ | ⟨-, m, hm, hm'⟩⟩ := parse_between_spacing .default hl ht unclosed
  · rw [hp] at hentries
    cases hentries
  · rw [hm] at hentries
    exact ⟨m, hm', hentries⟩

end Shortcode.Attributes
