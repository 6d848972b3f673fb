import Shortcode.Proofs.Attributes.EscapeUnits

/-! What resolving escapes takes away from a text. Each escape leaves one character, so a text loses
what its escapes take beyond one character each, and it stays as it is only if it has no escape. -/
namespace Shortcode.Attributes
variable {t u rest lone : Text} {us : List EscapeUnit} {c : Char}

/-- Whether a unit is written with a backslash. -/
def EscapeUnit.isEscape : EscapeUnit → Bool
  | plain _ => false
  | hex _ => true
  | octal _ => true
  | other _ => true

/-- How many characters the escapes of a row take beyond one each. -/
def surplus (us : List EscapeUnit) : Nat :=
  ((us.filter EscapeUnit.isEscape).map fun u => u.print.length - 1).sum

/-- No escape begins in a text: it has no backslash, or its first backslash is its last character. -/
def EscapeFree (t : Text) : Prop := '\\' ∉ t ∨ ∃ u, '\\' ∉ u ∧ t = u ++ ['\\']

theorem escapeFree_cons_iff (hc : c ≠ '\\') : EscapeFree (c :: t) ↔ EscapeFree t := by
  constructor
  · rintro (h | ⟨u, hu, he⟩)
    · exact Or.inl fun hm => h (List.mem_cons_of_mem c hm)
    · obtain _ | ⟨d, u⟩ := u
      · exact (hc (List.cons.inj he).1).elim
      · exact Or.inr ⟨u, fun hm => hu (List.mem_cons_of_mem d hm), (List.cons.inj he).2⟩
  · rintro (h | ⟨u, hu, rfl⟩)
    · exact Or.inl (by simp [h, hc.symm])
    · exact Or.inr ⟨c :: u, by simp [hu, hc.symm], rfl⟩

theorem not_escapeFree_backslash (c : Char) (t : Text) : ¬ EscapeFree ('\\' :: c :: t) := by
  rintro (h | ⟨u, hu, he⟩)
  · simp at h
  · cases u with
    | nil => simp at he
    | cons d u =>
      obtain ⟨rfl, -⟩ := List.cons.inj he
      simp at hu

/-- A unit is a character by itself, or a backslash with at least one more character. -/
theorem EscapeUnit.Fits.plain_or_escape {u : EscapeUnit} (h : u.Fits rest) :
    (∃ c, u = plain c ∧ c ≠ '\\') ∨ u.isEscape = true ∧ ∃ c t, u.print = '\\' :: c :: t := by
  cases u with
  | plain c => exact Or.inl ⟨c, rfl, h⟩
  | hex digits => exact Or.inr ⟨rfl, 'x', digits, rfl⟩
  | octal digits =>
    obtain ⟨c, t, rfl⟩ := List.exists_cons_of_ne_nil h.ne_nil
    exact Or.inr ⟨rfl, c, t, rfl⟩
  | other c => exact Or.inr ⟨rfl, c, [], rfl⟩

theorem surplus_cons_plain (c : Char) (us : List EscapeUnit) :
    surplus (.plain c :: us) = surplus us := by
  simp [surplus, EscapeUnit.isEscape]

theorem surplus_cons_escape {u : EscapeUnit} (he : u.isEscape = true) (us : List EscapeUnit) :
    surplus (u :: us) = u.print.length - 1 + surplus us := by
  simp [surplus, he]

/-! What the units of a text leave of it. -/

/-- By induction on the row: a unit leaves one character of those it is written with. -/
theorem Splits.length_eq (h : Splits t us lone) : t.length = (unescape t).length + surplus us := by
  induction h with
  | nil => rfl
  | lone => rfl
  | @cons u rest us lone hu _ ih =>
    rw [unescape_print_append hu]
    rcases hu.plain_or_escape with ⟨c, rfl, -⟩ | ⟨he, c, t, hprint⟩
    · simp only [surplus_cons_plain, EscapeUnit.print, List.length_append, List.length_cons,
        List.length_nil]
      omega
    · simp only [surplus_cons_escape he, hprint, List.length_append, List.length_cons]
      omega

theorem Splits.surplus_eq_zero_iff (h : Splits t us lone) : surplus us = 0 ↔ EscapeFree t := by
  induction h with
  | nil => simp [surplus, EscapeFree]
  | lone =>
    have hfree : EscapeFree ['\\'] := Or.inr ⟨[], by simp, rfl⟩
    simp [surplus, hfree]
  | @cons u rest us lone hu _ ih =>
    rcases hu.plain_or_escape with ⟨c, rfl, hc⟩ | ⟨he, c, t, hprint⟩
    · rw [surplus_cons_plain]
      exact ih.trans (escapeFree_cons_iff hc).symm
    · have hnot := not_escapeFree_backslash c (t ++ rest)
      simp [surplus_cons_escape he, hprint, hnot]

theorem unescape_append_of_notMem (hu : '\\' ∉ u) (rest : Text) :
    unescape (u ++ rest) = u ++ unescape rest := by
  induction u with
  | nil => rfl
  | cons c u ih =>
    obtain ⟨hc, hu⟩ : '\\' ≠ c ∧ '\\' ∉ u := by simpa using hu
    rw [List.cons_append, unescape_cons hc.symm, ih hu, List.cons_append]

theorem EscapeFree.unescape_eq (h : EscapeFree t) : unescape t = t := by
  rcases h with h | ⟨u, hu, rfl⟩
  · have hplain := unescape_append_of_notMem h []
    simpa using hplain
  · rw [unescape_append_of_notMem hu]
    rfl

theorem unescape_eq_self_iff (t : Text) : unescape t = t ↔ EscapeFree t := by
  constructor
  · intro h
    obtain ⟨us, lone, hs⟩ := exists_splits t
    have hlength := hs.length_eq
    rw [h] at hlength
    exact hs.surplus_eq_zero_iff.mp (by omega)
  · exact EscapeFree.unescape_eq

/-- A text with its escapes resolved is shorter by what they take beyond one character each. It is the
text itself if no escape begins in it, and strictly shorter if one does. So to give a text without a
backslash back at once agrees with resolving its escapes. -/
theorem unescape_shortens (t : Text) :
    (∃ us lone, (∀ us' lone', Splits t us' lone' ↔ us' = us ∧ lone' = lone) ∧
      (unescape t).length + surplus us = t.length) ∧
    (unescape t).length ≤ t.length ∧
    (unescape t = t ↔ '\\' ∉ t ∨ ∃ u, '\\' ∉ u ∧ t = u ++ ['\\']) ∧
    (unescape t = t ∨ (unescape t).length < t.length) ∧
    (if '\\' ∈ t then unescape t else t) = unescape t := by
  obtain ⟨us, lone, hs⟩ := exists_splits t
  have hlength := hs.length_eq
  refine ⟨⟨us, lone, ?_, hlength.symm⟩, by omega, unescape_eq_self_iff t, ?_, ?_⟩
  · intro us' lone'
    constructor
    · exact fun h' => h'.unique hs
    · rintro ⟨rfl, rfl⟩
      exact hs
  · by_cases hfree : EscapeFree t
    · exact Or.inl hfree.unescape_eq
    · have hpos : surplus us ≠ 0 := fun hz => hfree (hs.surplus_eq_zero_iff.mp hz)
      exact Or.inr (by omega)
  · split
    · rfl
    · next hn => exact (EscapeFree.unescape_eq (Or.inl hn)).symm

/-- An escape that stands for a backslash, an octal value that wraps, an escaped line break and a lone
backslash, which is no escape. -/
example : unescape ['\\', '\\', '\\', '5', '0', '1', '\\', '\n', '\\'] = ['\\', 'A', '\n', '\\'] := by
  decide

end Shortcode.Attributes
