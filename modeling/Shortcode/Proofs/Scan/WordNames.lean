import Shortcode.Proofs.Scan.Search

/-! Names that consist of word characters: where a bracket stands, no such name does, and at most
one of them can be that of a tag. -/
namespace Shortcode.Scan
variable {names : List Text} {name n rest t leading : Text} {start : Nat} {c : Char}

/-- A name that is a word. -/
def IsWordName (name : Text) : Prop := name ≠ [] ∧ ∀ c ∈ name, Text.isWord c = true

instance (name : Text) : Decidable (IsWordName name) :=
  decidable_of_iff (name ≠ [] ∧ name.all Text.isWord = true) (by rw [IsWordName, List.all_eq_true])

theorem IsWordName.head (h : IsWordName name) :
    ∃ c rest, name = c :: rest ∧ Text.isWord c = true := by
  obtain ⟨c, rest, rfl⟩ := List.exists_cons_of_ne_nil h.1
  exact ⟨c, rest, rfl, h.2 c List.mem_cons_self⟩

theorem IsWordName.notMem (h : IsWordName name) (hc : Text.isWord c = false) : c ∉ name := by
  intro hm
  rw [h.2 c hm] at hc
  cases hc

theorem IsWordName.admits_iff (h : IsWordName name) : admits name rest = true ↔
    (∀ c ∈ rest.head?, Text.isWord c = false) ∧ ']' ∈ rest := by
  obtain ⟨u, c, rfl⟩ := (List.eq_nil_or_concat name).resolve_left h.1
  have hc : Text.isWord c = true := h.2 c (by simp)
  rw [admits, Bool.and_eq_true, Text.isBoundary]
  cases rest with
  | nil => simp
  | cons d rest => simp [hc]

theorem nameAt?_cons_eq_none (hn : ∀ n ∈ names, IsWordName n) (hc : Text.isWord c = false) :
    nameAt? names (c :: rest) = none := by
  rw [nameAt?_eq_none_iff]
  intro n hm r hr
  obtain ⟨d, u, rfl, hd⟩ := (hn n hm).head
  obtain ⟨rfl, -⟩ := List.cons.inj hr
  rw [hc] at hd
  cases hd

/-- Of two words at one place that no word character follows, neither is longer. -/
theorem eq_of_append_eq {r : Text} (hn : IsWordName n) (hname : IsWordName name)
    (hr : ∀ c ∈ r.head?, Text.isWord c = false) (hrest : ∀ c ∈ rest.head?, Text.isWord c = false)
    (h : n ++ r = name ++ rest) : n = name := by
  rcases List.append_eq_append_iff.mp h with ⟨u, rfl, rfl⟩ | ⟨u, rfl, rfl⟩
  · cases u with
    | nil => simp
    | cons c u =>
      have hw := hname.2 c (by simp)
      have hf := hr c rfl
      rw [hw] at hf
      cases hf
  · cases u with
    | nil => simp
    | cons c u =>
      have hw := hn.2 c (by simp)
      have hf := hrest c rfl
      rw [hw] at hf
      cases hf

/-- A name of the list is found where no word character follows it, whatever the other names are. -/
theorem nameAt?_append (hn : ∀ n ∈ names, IsWordName n) (hm : name ∈ names)
    (hr : ∀ c ∈ rest.head?, Text.isWord c = false) (hb : ']' ∈ rest) :
    nameAt? names (name ++ rest) = some (name, rest) := by
  have ha := (hn name hm).admits_iff.mpr ⟨hr, hb⟩
  cases hx : nameAt? names (name ++ rest) with
  | none =>
    rw [nameAt?_eq_none_iff.mp hx name hm rest rfl] at ha
    cases ha
  | some r =>
    obtain ⟨n, u⟩ := r
    obtain ⟨ht, hu, earlier, later, rfl, -⟩ := nameAt?_eq_some_iff.mp hx
    have hw := hn n (by simp)
    obtain rfl := eq_of_append_eq hw (hn name hm) (hw.admits_iff.mp hu).1 hr ht.symm
    rw [List.append_cancel_left ht]

/-- Of two brackets in a row the first one opens no tag. -/
theorem nameBehind?_cons_bracket (hn : ∀ n ∈ names, IsWordName n) (c : Char) (rest : Text) :
    nameBehind? names (c :: '[' :: rest) = none := by
  rw [nameBehind?]
  split
  · exact nameAt?_cons_eq_none hn (by decide)
  · rfl

/-- A tag is found behind a bracket with at most one character in front of it. -/
theorem matchAt?_of_nameAt? (hl : leading.length ≤ 1) (hw : IsWordName name)
    (h : nameAt? names (name ++ rest) = some (name, rest)) :
    matchAt? names start (leading ++ '[' :: (name ++ rest)) =
      some (tagOf start leading name rest) := by
  have hb : nameBehind? names ('[' :: (name ++ rest)) = some (name, rest) :=
    nameBehind?_eq_some_iff.mpr ⟨rfl, h⟩
  rw [matchAt?, opensAt?_eq_map, opensAt?_eq_map]
  cases leading with
  | nil =>
    obtain ⟨c, u, rfl, hc⟩ := hw.head
    have hnone : nameBehind? names (('[' :: (c :: u ++ rest)).drop 1) = none := by
      apply nameBehind?_of_head_ne
      rintro d hd rfl
      obtain rfl := Option.some.inj hd
      exact absurd hc (by decide)
    rw [List.nil_append, hnone, hb]
    rfl
  | cons c u =>
    obtain rfl : u = [] := List.length_eq_zero_iff.mp (by simpa using hl)
    have hsome : nameBehind? names (([c] ++ '[' :: (name ++ rest)).drop 1) = some (name, rest) := hb
    rw [hsome]
    rfl

end Shortcode.Scan
