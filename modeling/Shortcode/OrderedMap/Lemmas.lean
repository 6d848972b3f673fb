import Shortcode.OrderedMap.Basic

/-! What each operation of an ordered map does to its keys and to a look-up. -/
namespace Shortcode.OrderedMap
variable {κ α β : Type} [DecidableEq κ] {m : OrderedMap κ α} {k k' : κ} {a : α}

omit [DecidableEq κ] in
theorem keys_nodup (m : OrderedMap κ α) : m.keys.Nodup := m.nodup

omit [DecidableEq κ] in
@[simp] theorem keys_empty : (empty : OrderedMap κ α).keys = [] := rfl

omit [DecidableEq κ] in
@[simp] theorem keys_mapValues (f : κ → α → β) (m : OrderedMap κ α) :
    (m.mapValues f).keys = m.keys := by
  simp [keys, mapValues, Function.comp_def]

omit [DecidableEq κ] in
theorem length_keys (m : OrderedMap κ α) : m.keys.length = m.size := by simp [keys, size]

theorem keys_insert (m : OrderedMap κ α) (k : κ) (a : α) :
    (m.insert k a).keys = if k ∈ m.keys then m.keys else m.keys ++ [k] := by
  by_cases h : k ∈ m.keys
  · simp [insert, h]
  · simp only [insert, h, dite_false, ite_false]
    simp [keys]

theorem mapValues_insert (f : α → β) (m : OrderedMap κ α) (k : κ) (a : α) :
    (m.insert k a).mapValues (fun _ => f) = (m.mapValues fun _ => f).insert k (f a) := by
  by_cases h : k ∈ m.keys
  · simp only [insert, keys_mapValues, h, dite_true]
    simp [mapValues, apply_ite f]
  · simp only [insert, keys_mapValues, h, dite_false]
    simp [mapValues]

theorem keys_erase (m : OrderedMap κ α) (k : κ) : (m.erase k).keys = m.keys.filter (· ≠ k) := by
  simp [keys, erase, List.filter_map, Function.comp_def]

@[simp] theorem get?_empty : (empty : OrderedMap κ α).get? k = none := rfl

theorem lookup_cons_ite (x : κ) (a : α) (es : List (κ × α)) (k : κ) :
    ((x, a) :: es).lookup k = if k = x then some a else es.lookup k := by
  by_cases h : k = x
  · simp [h]
  · have hb : (k == x) = false := by simpa using h
    simp [List.lookup_cons, h, hb]

theorem lookup_isSome_iff (es : List (κ × α)) (k : κ) :
    (es.lookup k).isSome ↔ k ∈ es.map Prod.fst := by
  induction es with
  | nil => simp
  | cons e es ih =>
    rw [lookup_cons_ite]
    by_cases h : k = e.1 <;> simp_all

theorem contains_iff : m.contains k = true ↔ k ∈ m.keys := lookup_isSome_iff _ _

theorem get?_eq_none_iff : m.get? k = none ↔ k ∉ m.keys := by
  rw [← contains_iff, contains, Option.not_isSome_iff_eq_none]

theorem exists_get?_iff : (∃ a, m.get? k = some a) ↔ k ∈ m.keys := by
  rw [← contains_iff, contains, Option.isSome_iff_exists]

theorem lookup_map (es : List (κ × α)) (f : κ → α → β) (k : κ) :
    (es.map fun (k, a) => (k, f k a)).lookup k = (es.lookup k).map (f k) := by
  induction es with
  | nil => rfl
  | cons e es ih =>
    rw [List.map_cons, lookup_cons_ite, lookup_cons_ite, ih]
    by_cases h : k = e.1 <;> simp [h]

theorem get?_mapValues (f : κ → α → β) (m : OrderedMap κ α) (k : κ) :
    (m.mapValues f).get? k = (m.get? k).map (f k) := lookup_map _ _ _

theorem get?_insert (m : OrderedMap κ α) (k k' : κ) (a : α) :
    (m.insert k a).get? k' = if k' = k then some a else m.get? k' := by
  by_cases h : k ∈ m.keys
  · rw [insert, dif_pos h, get?_mapValues]
    by_cases hk : k' = k
    · subst hk
      obtain ⟨v, hv⟩ := Option.isSome_iff_exists.1 (contains_iff.2 h)
      simp [hv]
    · simp [hk]
  · have hn : m.entries.lookup k = none := get?_eq_none_iff.2 h
    simp only [insert, h, dite_false, get?, List.lookup_append, lookup_cons_ite]
    by_cases hk : k' = k <;> simp [hk, hn]

theorem lookup_filter_ne (es : List (κ × α)) (k k' : κ) :
    (es.filter fun e => e.1 ≠ k).lookup k' = if k' = k then none else es.lookup k' := by
  induction es with
  | nil => simp
  | cons e es ih =>
    obtain ⟨x, a⟩ := e
    by_cases hx : x = k
    · rw [List.filter_cons_of_neg (by simpa using hx), ih, lookup_cons_ite]
      by_cases hk : k' = k
      · rw [if_pos hk, if_pos hk]
      · rw [if_neg hk, if_neg hk, if_neg fun he => hk (he.trans hx)]
    · rw [List.filter_cons_of_pos (by simpa using hx), lookup_cons_ite, lookup_cons_ite, ih]
      by_cases hk : k' = x
      · rw [if_pos hk, if_pos hk, if_neg fun he => hx (hk.symm.trans he)]
      · rw [if_neg hk, if_neg hk]

theorem get?_erase (m : OrderedMap κ α) (k k' : κ) :
    (m.erase k).get? k' = if k' = k then none else m.get? k' := lookup_filter_ne _ _ _

theorem erase_of_not_mem (h : k ∉ m.keys) : m.erase k = m := by
  have he : m.entries.filter (fun e => e.1 ≠ k) = m.entries := by
    rw [List.filter_eq_self]
    intro e hm
    simpa using fun hk => h (List.mem_map.mpr ⟨e, hm, hk⟩)
  cases m
  rw [erase, OrderedMap.mk.injEq]
  exact he

end Shortcode.OrderedMap
