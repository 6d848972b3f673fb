import Shortcode.Text.Basic

/-! What stands at an offset of a text, told from what is left of the text there. -/
namespace Shortcode.Text
variable {content t u : Text} {b : Nat}

theorem getElem?_of_drop (h : content.drop b = t) (i : Nat) : content[b + i]? = t[i]? := by
  rw [← h, List.getElem?_drop]

theorem drop_of_drop (h : content.drop b = u ++ t) : content.drop (b + u.length) = t := by
  rw [← List.drop_drop, h, List.drop_left]

theorem extract_of_drop (h : content.drop b = u ++ t) :
    content.extract b (b + u.length) = u := by
  simp [h]

theorem drop_cons_of_getElem? {c : Char} (h : content[b]? = some c) :
    content.drop b = c :: content.drop (b + 1) := by
  obtain ⟨hb, rfl⟩ := List.getElem?_eq_some_iff.mp h
  exact List.drop_eq_getElem_cons hb

theorem mem_drop_iff {c : Char} :
    c ∈ content.drop b ↔ ∃ q, b ≤ q ∧ content[q]? = some c := by
  rw [List.mem_iff_getElem?]
  constructor
  · rintro ⟨i, hi⟩
    exact ⟨b + i, Nat.le_add_right b i, by rwa [List.getElem?_drop] at hi⟩
  · rintro ⟨q, hq, hc⟩
    refine ⟨q - b, ?_⟩
    rw [List.getElem?_drop, Nat.add_sub_cancel' hq]
    exact hc

end Shortcode.Text
