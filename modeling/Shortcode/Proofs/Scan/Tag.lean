import Shortcode.Proofs.Text.Cut
import Shortcode.Scan

/-! The pieces of a tag in a text: its name, what stands inside the brackets, and what it
encloses. -/
namespace Shortcode.Scan
variable {names : List Text} {name t u inside after rest : Text} {start : Nat}

theorem take_one_append_tail (t : Text) : t.take 1 ++ t.tail = t := by cases t <;> rfl

theorem insideAt_append (hi : ']' ∉ inside) (after : Text) :
    insideAt (inside ++ ']' :: after) = (inside, after) := by
  have hp : ∀ c ∈ inside, (!decide (c = ']')) = true := by
    intro c hc
    simpa using fun he : c = ']' => hi (he ▸ hc)
  simp [insideAt, List.takeWhile_append_of_pos hp, List.dropWhile_append_of_pos hp]

theorem nameAt?_cons_of_admits (names : List Text) (h : admits name rest = true) :
    nameAt? (name :: names) (name ++ rest) = some (name, rest) := by
  simp [nameAt?, Text.isPrefixOf?_append, h]

theorem nameAt?_cons_of_not_admits (h : ∀ rest, t = name ++ rest → admits name rest = false) :
    nameAt? (name :: names) t = nameAt? names t := by
  rw [nameAt?, List.findSome?_cons, ← nameAt?]
  cases hp : name.isPrefixOf? t with
  | none => rfl
  | some rest =>
    have ht := (List.isPrefixOf?_eq_some_iff_append_eq.mp hp).symm
    simp [h rest ht]

/-- More text behind changes nothing for a name where no name is read over the end of the text, and none
is refused for what stands behind. -/
theorem nameAt?_append_of_admits {v : Text}
    (ha : ∀ name rest, t = name ++ rest → admits name (rest ++ v) = admits name rest)
    (hv : ∀ name rest, t ++ v = name ++ rest → admits name rest = true →
      ∃ r, t = name ++ r ∧ rest = r ++ v) (names : List Text) :
    nameAt? names (t ++ v) = (nameAt? names t).map fun r => (r.1, r.2 ++ v) := by
  induction names with
  | nil => rfl
  | cons name names ih =>
    by_cases h : ∃ rest, t = name ++ rest ∧ admits name rest = true
    · obtain ⟨rest, rfl, hn⟩ := h
      rw [nameAt?_cons_of_admits names hn, List.append_assoc, nameAt?_cons_of_admits]
      · rfl
      · rw [ha name rest rfl, hn]
    · have hn : ∀ rest, t = name ++ rest → admits name rest = false := by
        intro rest ht
        by_contra hx
        exact h ⟨rest, ht, by simpa using hx⟩
      rw [nameAt?_cons_of_not_admits hn, nameAt?_cons_of_not_admits, ih]
      intro rest ht
      rw [Bool.eq_false_iff]
      intro hx
      obtain ⟨r, hr, rfl⟩ := hv name rest ht hx
      rw [ha name r hr, hn r hr] at hx
      cases hx

theorem nameAt?_eq_none_iff : nameAt? names t = none ↔
    ∀ name ∈ names, ∀ rest, t = name ++ rest → admits name rest = false := by
  induction names with
  | nil => simp [nameAt?]
  | cons name names ih =>
    by_cases h : ∃ rest, t = name ++ rest ∧ admits name rest = true
    · obtain ⟨rest, rfl, ha⟩ := h
      rw [nameAt?_cons_of_admits names ha]
      simp only [reduceCtorEq, false_iff]
      intro hn
      simp [hn name List.mem_cons_self rest rfl] at ha
    · have hn : ∀ rest, t = name ++ rest → admits name rest = false := by
        intro rest ht
        by_contra ha
        exact h ⟨rest, ht, by simpa using ha⟩
      rw [nameAt?_cons_of_not_admits hn, ih]
      simp only [List.mem_cons, forall_eq_or_imp]
      exact ⟨fun h => ⟨hn, h⟩, fun h => h.2⟩

/-- The first name in the order of the list that a tag can bear. -/
theorem nameAt?_eq_some_iff : nameAt? names t = some (name, rest) ↔
    t = name ++ rest ∧ admits name rest = true ∧ ∃ earlier later,
      names = earlier ++ name :: later ∧ nameAt? earlier t = none := by
  constructor
  · intro h
    rw [nameAt?, List.findSome?_eq_some_iff] at h
    obtain ⟨earlier, n, later, rfl, hn, he⟩ := h
    cases hp : n.isPrefixOf? t with
    | none => simp [hp] at hn
    | some r =>
      have ht := List.isPrefixOf?_eq_some_iff_append_eq.mp hp
      by_cases ha : admits n r = true
      · simp only [hp, ha, if_true, Option.some.injEq, Prod.mk.injEq] at hn
        obtain ⟨rfl, rfl⟩ := hn
        refine ⟨ht.symm, ha, earlier, later, rfl, ?_⟩
        rw [nameAt?, List.findSome?_eq_none_iff]
        exact he
      · simp [hp, ha] at hn
  · rintro ⟨rfl, ha, earlier, later, rfl, he⟩
    have hl := nameAt?_cons_of_admits later ha
    rw [nameAt?] at he hl ⊢
    rw [List.findSome?_append, he, hl]
    rfl

theorem enclosedAt?_eq_none_iff : enclosedAt? name t = none ↔
    ∀ k, 1 ≤ k → ¬ closer name <+: t.drop k := by
  cases t with
  | nil => simp [enclosedAt?, closer]
  | cons c t =>
    rw [enclosedAt?, Option.map_eq_none_iff, Text.cut?_eq_none_iff]
    constructor
    · intro h k hk
      obtain ⟨k, rfl⟩ := Nat.exists_eq_add_of_le' hk
      exact h k
    · intro h k
      exact h (k + 1) (Nat.le_add_left 1 k)

theorem enclosedAt?_eq_some_iff : enclosedAt? name t = some (inside, after) ↔
    t = inside ++ (closer name ++ after) ∧ inside ≠ [] ∧
      ∀ k, 1 ≤ k → k < inside.length → ¬ closer name <+: t.drop k := by
  cases t with
  | nil => simp [enclosedAt?, closer]
  | cons c t =>
    simp only [enclosedAt?, Option.map_eq_some_iff, Prod.exists, Text.cut?_eq_some_iff,
      Prod.mk.injEq]
    constructor
    · rintro ⟨before, _, ⟨rfl, h⟩, rfl, rfl⟩
      refine ⟨rfl, by simp, ?_⟩
      intro k hk hlt
      obtain ⟨k, rfl⟩ := Nat.exists_eq_add_of_le' hk
      exact h k (Nat.lt_of_succ_lt_succ hlt)
    · rintro ⟨ht, hne, h⟩
      obtain ⟨d, before, rfl⟩ := List.exists_cons_of_ne_nil hne
      obtain ⟨rfl, rfl⟩ := List.cons.inj ht
      refine ⟨before, after, ⟨rfl, ?_⟩, rfl, rfl⟩
      intro k hk
      exact h (k + 1) (Nat.le_add_left 1 k) (Nat.succ_lt_succ hk)

/-- A closer cannot begin in front of an opening bracket and end behind it, since it holds one opening
bracket only. -/
theorem closer_isPrefix_of_bracket (hn : '[' ∉ name) (hu : u ≠ [])
    (h : closer name <+: u ++ '[' :: rest) : closer name <+: u := by
  obtain ⟨x, hx⟩ := h
  rcases List.append_eq_append_iff.mp hx with ⟨v, hv, -⟩ | ⟨v, hv, hr⟩
  · exact ⟨v, hv.symm⟩
  · cases v with
    | nil => exact ⟨[], by simp [hv]⟩
    | cons c v =>
      obtain ⟨d, u, rfl⟩ := List.exists_cons_of_ne_nil hu
      obtain ⟨rfl, -⟩ := List.cons.inj hr
      have ht : '/' :: (name ++ [']']) = u ++ '[' :: v := (List.cons.inj hv).2
      have hm : '[' ∈ '/' :: (name ++ [']']) := by simp [ht]
      simp [hn] at hm

/-- The first closer behind a text without one is the one that stands there. -/
theorem enclosedAt?_append (hn : '[' ∉ name) (hu : u ≠ []) (hc : ¬ closer name <:+: u) :
    enclosedAt? name (u ++ (closer name ++ after)) = some (u, after) := by
  rw [enclosedAt?_eq_some_iff]
  refine ⟨rfl, hu, ?_⟩
  intro k _ hk hp
  have hne : u.drop k ≠ [] := by
    intro hd
    have hle := List.drop_eq_nil_iff.mp hd
    omega
  rw [List.drop_append_of_le_length (Nat.le_of_lt hk)] at hp
  have hd := closer_isPrefix_of_bracket hn hne hp
  exact hc (hd.isInfix.trans (List.drop_suffix k u).isInfix)

theorem enclosedAt?_of_notInfix (hc : ¬ closer name <:+: t) : enclosedAt? name t = none := by
  rw [enclosedAt?_eq_none_iff]
  intro k _ hp
  exact hc (hp.isInfix.trans (List.drop_suffix k t).isInfix)

/-- The name of the tag that opens at the front of a text, and what follows the name. -/
def nameBehind? (names : List Text) : Text → Option (Text × Text)
  | [] => none
  | c :: rest => if c = '[' then nameAt? names rest else none

theorem opensAt?_eq_map (names : List Text) (start : Nat) (leading t : Text) :
    opensAt? names start leading t =
      (nameBehind? names t).map fun r => tagOf start leading r.1 r.2 := by
  cases t with
  | nil => rfl
  | cons c rest =>
    by_cases hc : c = '['
    · simp [opensAt?, nameBehind?, hc]
    · simp [opensAt?, nameBehind?, hc]

theorem nameBehind?_eq_some_iff : nameBehind? names t = some (name, rest) ↔
    t = '[' :: (name ++ rest) ∧ nameAt? names (name ++ rest) = some (name, rest) := by
  cases t with
  | nil => simp [nameBehind?]
  | cons c t =>
    by_cases hc : c = '['
    · subst hc
      rw [nameBehind?, if_pos rfl]
      constructor
      · intro h
        obtain ⟨rfl, -⟩ := nameAt?_eq_some_iff.mp h
        exact ⟨rfl, h⟩
      · rintro ⟨ht, h⟩
        rw [(List.cons.inj ht).2, h]
    · simp [nameBehind?, hc]

theorem mem_of_admits (h : admits name rest = true) : ']' ∈ rest := by
  rw [admits, Bool.and_eq_true] at h
  simpa using h.2

/-- What follows a tag and the character behind it, where `rest` follows the name. -/
def behind (name rest : Text) : Text :=
  (((enclosedAt? name (insideAt rest).2).map (·.2)).getD (insideAt rest).2).drop 1

theorem tagOf_rawAttributes (start : Nat) (leading name after : Text) (hu : ']' ∉ inside) :
    (tagOf start leading name (inside ++ ']' :: after)).rawAttributes =
      if inside.getLast? = some '/' then inside.dropLast else inside := by
  simp [tagOf, insideAt_append hu after]

theorem tagOf_selfClosing (start : Nat) (leading name after : Text) (hu : ']' ∉ inside) :
    (tagOf start leading name (inside ++ ']' :: after)).selfClosing = true ↔
      inside.getLast? = some '/' := by
  simp [tagOf, insideAt_append hu after]

theorem tagOf_content (start : Nat) (leading name after : Text) (hu : ']' ∉ inside) :
    (tagOf start leading name (inside ++ ']' :: after)).content =
      (enclosedAt? name after).map (·.1) := by
  simp [tagOf, insideAt_append hu after]

theorem tagOf_trailing (start : Nat) (leading name after : Text) (hu : ']' ∉ inside) :
    (tagOf start leading name (inside ++ ']' :: after)).trailing =
      (((enclosedAt? name after).map (·.2)).getD after).take 1 := by
  simp [tagOf, insideAt_append hu after]

theorem behind_append (name after : Text) (hu : ']' ∉ inside) :
    behind name (inside ++ ']' :: after) =
      (((enclosedAt? name after).map (·.2)).getD after).drop 1 := by
  simp [behind, insideAt_append hu after]

theorem tagOf_text_append (start : Nat) (leading name : Text) (hm : ']' ∈ rest) :
    (tagOf start leading name rest).text ++ behind name rest =
      leading ++ '[' :: (name ++ rest) := by
  obtain ⟨inside, after, rfl, hu⟩ := List.eq_append_cons_of_mem hm
  have hi := insideAt_append hu after
  cases he : enclosedAt? name after with
  | none => simp [tagOf, behind, hi, he, take_one_append_tail]
  | some r =>
    obtain ⟨t, tail⟩ := r
    obtain ⟨rfl, -, -⟩ := enclosedAt?_eq_some_iff.mp he
    simp [tagOf, behind, hi, he, take_one_append_tail]

end Shortcode.Scan
