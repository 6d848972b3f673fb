import Shortcode.Proofs.Scan.WordNames

/-! Names that are words are told apart wherever one is read. A scan for them depends on which of them
stand in the text, and not on how they are listed. -/
namespace Shortcode.Scan
variable {names others : List Text} {name rest t content : Text} {start : Nat} {ms : List TagMatch}

/-- The name that is read is the one that is listed, whatever is listed in front of it. -/
theorem nameAt?_eq_some_iff_mem (hn : ∀ n ∈ names, IsWordName n) :
    nameAt? names t = some (name, rest) ↔
      t = name ++ rest ∧ name ∈ names ∧ admits name rest = true := by
  constructor
  · intro h
    obtain ⟨ht, ha, earlier, later, rfl, -⟩ := nameAt?_eq_some_iff.mp h
    exact ⟨ht, by simp, ha⟩
  · rintro ⟨rfl, hm, ha⟩
    obtain ⟨hr, hb⟩ := (hn name hm).admits_iff.mp ha
    exact nameAt?_append hn hm hr hb

/-- Lists with the same words among those that stand at the front of a text agree on its tag. -/
theorem nameBehind?_congr (hn : ∀ n ∈ names, IsWordName n) (ho : ∀ n ∈ others, IsWordName n)
    (h : ∀ n, '[' :: n <+: t → (n ∈ names ↔ n ∈ others)) :
    nameBehind? names t = nameBehind? others t := by
  apply Option.ext
  rintro ⟨name, rest⟩
  rw [nameBehind?_eq_some_iff, nameBehind?_eq_some_iff, nameAt?_eq_some_iff_mem hn,
    nameAt?_eq_some_iff_mem ho]
  apply and_congr_right
  rintro rfl
  have hm := h name ⟨rest, rfl⟩
  simp [hm]

theorem matchAt?_congr (h : ∀ u, u <:+ t → nameBehind? names u = nameBehind? others u) :
    matchAt? names start t = matchAt? others start t := by
  have hbehind := h (t.drop 1) (List.drop_suffix 1 t)
  have hfront := h t List.suffix_rfl
  simp only [matchAt?, opensAt?_eq_map, hbehind, hfront]

/-- By induction on the search: what is left of a text is one of its ends, so the lists agree there. -/
theorem Found.congr (hf : Found names start t ms)
    (h : ∀ u, u <:+ t → nameBehind? names u = nameBehind? others u) :
    Found others start t ms := by
  induction hf with
  | nil => exact Found.nil
  | @skip start c rest ms hm _ ih =>
    have hrest : rest <:+ c :: rest := List.suffix_cons c rest
    rw [matchAt?_congr h] at hm
    exact Found.skip hm (ih fun u hu => h u (hu.trans hrest))
  | @take start m tail ms hm _ ih =>
    have htail : tail <:+ m.text ++ tail := List.suffix_append m.text tail
    rw [matchAt?_congr h] at hm
    exact Found.take hm (ih fun u hu => h u (hu.trans htail))

theorem scan_congr (h : ∀ u, u <:+ content → nameBehind? names u = nameBehind? others u) :
    scan names content = scan others content :=
  ((found_scan names content).congr h).eq_scanAfter.symm

/-- A scan for words depends only on which of the words that stand behind an opening bracket are
listed: not on their order, nor on a repetition, nor on words that stand nowhere. -/
theorem scan_eq_of_same_words (hn : ∀ n ∈ names, IsWordName n) (ho : ∀ n ∈ others, IsWordName n) :
    ((∀ n, '[' :: n <:+: content → (n ∈ names ↔ n ∈ others)) →
      scan names content = scan others content) ∧
    (names.Perm others → scan names content = scan others content) := by
  have hsame : (∀ n, '[' :: n <:+: content → (n ∈ names ↔ n ∈ others)) →
      scan names content = scan others content := by
    intro h
    apply scan_congr
    intro u hu
    apply nameBehind?_congr hn ho
    intro n hp
    exact h n (hp.isInfix.trans hu.isInfix)
  refine ⟨hsame, ?_⟩
  intro hperm
  apply hsame
  intro n _
  exact hperm.mem_iff

/-- A name and a longer one in both orders, once with a repetition and once with a name that stands
nowhere. -/
theorem scan_eq_of_same_words_longer :
    scan [['a'], ['a', 'b'], ['z']] ['[', 'a', 'b', ']', '[', 'a', ']'] =
      scan [['a', 'b'], ['a'], ['a']] ['[', 'a', 'b', ']', '[', 'a', ']'] ∧
    scan [['a'], ['a', 'b']] ['[', 'a', 'b', ']', '[', 'a', ']'] =
      scan [['a', 'b'], ['a']] ['[', 'a', 'b', ']', '[', 'a', ']'] := by
  refine ⟨(scan_eq_of_same_words (by decide) (by decide)).1 ?_,
    (scan_eq_of_same_words (by decide) (by decide)).2 (List.Perm.swap _ _ _)⟩
  intro n hi
  have hz : 'z' ∉ ['[', 'a', 'b', ']', '[', 'a', ']'] := by decide
  have hne : n ≠ ['z'] := by
    rintro rfl
    exact hz (hi.mem (by simp))
  simp [hne, or_comm]

/-- Of names that are no words the first one listed is read. -/
example : scan [['a'], ['a', '-', 'b']] ['[', 'a', '-', 'b', ']'] ≠
    scan [['a', '-', 'b'], ['a']] ['[', 'a', '-', 'b', ']'] := by decide

end Shortcode.Scan
