import Mathlib.Data.Nat.Find
import Mathlib.Order.Bounds.Basic
import Shortcode.OrderedMap.Lemmas
import Shortcode.Registry

/-! A registry is the ordered map that the history of its changes defines. -/
namespace Shortcode
variable {α : Type} {r : Registry α} {tag : Text} {h : α} {i : Nat}

/-- What happens to the tags of a registry, one tag at a time or all at once. -/
inductive Event (α : Type) where
  | added (tag : Text) (handler : α)
  | removed (tag : Text)
  | cleared

/-- A tag is not registered after an event, whatever was before. -/
def Event.Ends (tag : Text) : Event α → Prop
  | added _ _ => False
  | removed t => t = tag
  | cleared => True

/-- To offer what is no handler is no event. -/
def Event.offered (handler : Option α) (tag : Text) : List (Event α) :=
  handler.toList.map (added tag)

def Change.events : Change α → List (Event α)
  | add tag handler => Event.offered handler tag
  | remove tag => [.removed tag]
  | removeAll => [.cleared]
  | addAll tags handler => tags.flatMap (Event.offered handler)

variable {es : List (Event α)} {e : Event α}

/-- An event registers a handler for a tag, and no later event ends that. -/
def Stands (es : List (Event α)) (i : Nat) (tag : Text) (h : α) : Prop :=
  es[i]? = some (.added tag h) ∧ ∀ j e, i < j → es[j]? = some e → ¬ e.Ends tag

/-- The events that register a tag and have not been ended. -/
def standing (es : List (Event α)) (tag : Text) : Set Nat := {i | ∃ h, Stands es i tag h}

theorem Stands.lt_length (hs : Stands es i tag h) : i < es.length := by
  obtain ⟨hi, -⟩ := List.getElem?_eq_some_iff.mp hs.1
  exact hi

/-- A further event ends some, and may be one itself. -/
theorem stands_append_iff :
    Stands (es ++ [e]) i tag h ↔
      (Stands es i tag h ∧ ¬ e.Ends tag) ∨ (i = es.length ∧ e = .added tag h) := by
  constructor
  · rintro ⟨hi, hl⟩
    rcases Nat.lt_or_ge i es.length with hlt | hge
    · rw [List.getElem?_append_left hlt] at hi
      refine Or.inl ⟨⟨hi, fun j f hj hf => ?_⟩, hl es.length e hlt (by simp)⟩
      obtain ⟨hjl, -⟩ := List.getElem?_eq_some_iff.mp hf
      exact hl j f hj ((List.getElem?_append_left hjl).trans hf)
    · obtain ⟨hil, -⟩ := List.getElem?_eq_some_iff.mp hi
      obtain rfl : i = es.length := by
        rw [List.length_append, List.length_singleton] at hil
        omega
      exact Or.inr ⟨rfl, by simpa using hi⟩
  · rintro (⟨hs, he⟩ | ⟨rfl, rfl⟩)
    · refine ⟨(List.getElem?_append_left hs.lt_length).trans hs.1, fun j f hj hf => ?_⟩
      rcases Nat.lt_trichotomy j es.length with hjl | rfl | hjl
      · exact hs.2 j f hj ((List.getElem?_append_left hjl).symm.trans hf)
      · obtain rfl : e = f := by simpa using hf
        exact he
      · rw [List.getElem?_eq_none (by simp; omega)] at hf
        cases hf
    · refine ⟨by simp, fun j f hj hf => ?_⟩
      rw [List.getElem?_eq_none (by simp; omega)] at hf
      cases hf

theorem standing_append_of_ends (he : e.Ends tag) : standing (es ++ [e]) tag = ∅ := by
  ext i
  simp only [standing, stands_append_iff, Set.mem_ofPred_eq, Set.mem_empty_iff_false, iff_false]
  rintro ⟨h, ⟨-, hn⟩ | ⟨-, rfl⟩⟩
  · exact hn he
  · exact he

/-- To an event that does not concern a tag what stands for the tag is indifferent. -/
theorem stands_append_of_ne (he : ¬ e.Ends tag) (ha : ∀ h, e ≠ .added tag h) :
    Stands (es ++ [e]) i tag h ↔ Stands es i tag h := by
  simp [stands_append_iff, he, ha]

theorem standing_append_of_ne (he : ¬ e.Ends tag) (ha : ∀ h, e ≠ .added tag h) :
    standing (es ++ [e]) tag = standing es tag := by
  ext i
  simp [standing, stands_append_of_ne he ha]

theorem standing_append_added (es : List (Event α)) (tag : Text) (h : α) :
    standing (es ++ [.added tag h]) tag = insert es.length (standing es tag) := by
  ext i
  simp only [standing, stands_append_iff, Set.mem_ofPred_eq, Set.mem_insert_iff]
  constructor
  · rintro ⟨g, ⟨hs, -⟩ | ⟨rfl, -⟩⟩
    · exact Or.inr ⟨g, hs⟩
    · exact Or.inl rfl
  · rintro (rfl | ⟨g, hs⟩)
    · exact ⟨h, Or.inr ⟨rfl, rfl⟩⟩
    · exact ⟨g, Or.inl ⟨hs, id⟩⟩

theorem exists_isLeast_standing (hs : (standing es tag).Nonempty) :
    ∃ i, IsLeast (standing es tag) i := by
  classical
  exact ⟨Nat.find hs, Nat.find_spec hs, fun j hj => Nat.find_min' hs hj⟩

/-- The earliest event that stands for a tag remains the earliest when more handlers are
registered. -/
theorem isLeast_append_added {t : Text} (hi : IsLeast (standing es tag) i) :
    IsLeast (standing (es ++ [.added t h]) tag) i := by
  by_cases ht : t = tag
  · subst ht
    obtain ⟨g, hg⟩ := hi.1
    have hm := hi.insert es.length
    rwa [min_eq_right hg.lt_length.le, ← standing_append_added] at hm
  · rwa [standing_append_of_ne id]
    rintro g ⟨⟩
    exact ht rfl

/-- For a tag for which nothing stands, the next event that registers it is the earliest one. -/
theorem isLeast_append_added_of_empty (hs : standing es tag = ∅) (h : α) :
    IsLeast (standing (es ++ [.added tag h]) tag) es.length := by
  rw [standing_append_added, hs, insert_empty_eq]
  exact isLeast_singleton

theorem isGreatest_append_added (es : List (Event α)) (tag : Text) (h : α) :
    IsGreatest (standing (es ++ [.added tag h]) tag) es.length := by
  rw [standing_append_added]
  refine ⟨Set.mem_insert _ _, ?_⟩
  rintro j (rfl | ⟨_, hj⟩)
  · exact Nat.le_refl _
  · exact hj.lt_length.le

namespace Registry

/-- The registry after an event. -/
def happen (r : Registry α) : Event α → Registry α
  | .added tag handler => r.add tag (some handler)
  | .removed tag => r.remove tag
  | .cleared => empty

/-- The registry after a change. A change that fails leaves it as it is. -/
def changed (r : Registry α) (c : Change α) : Registry α :=
  match r.apply c with
  | .ok p => p.1
  | .error _ => r

/-- The registry after some changes, one after another. -/
def after (r : Registry α) (changes : List (Change α)) : Registry α := changes.foldl changed r

@[simp] theorem after_nil (r : Registry α) : r.after [] = r := rfl

@[simp] theorem after_singleton (r : Registry α) (c : Change α) : r.after [c] = r.changed c := rfl

theorem after_append (r : Registry α) (cs ds : List (Change α)) :
    r.after (cs ++ ds) = (r.after cs).after ds := List.foldl_append

/-- A registry is the ordered map that some events define: it lists each tag once for which an event
stands, in the order of the earliest ones, and gives the handler of the latest one. -/
structure Follows (es : List (Event α)) (r : Registry α) : Prop where
  nodup : r.names.Nodup
  mem_names : ∀ tag, tag ∈ r.names ↔ (standing es tag).Nonempty
  ordered : r.names.Pairwise fun a b =>
    ∃ i j, IsLeast (standing es a) i ∧ IsLeast (standing es b) j ∧ i < j
  get : ∀ tag h, r.get? tag = some h ↔ ∃ i, IsGreatest (standing es tag) i ∧ Stands es i tag h

theorem follows_empty : Follows [] (empty : Registry α) where
  nodup := List.nodup_nil
  mem_names tag := by
    refine iff_of_false List.not_mem_nil ?_
    rintro ⟨i, h, hi, -⟩
    cases hi
  ordered := List.Pairwise.nil
  get tag h := by
    refine iff_of_false (by rintro ⟨⟩) ?_
    rintro ⟨i, -, hi, -⟩
    cases hi

theorem names_happen_added_of_mem (h : α) (ht : tag ∈ r.names) :
    (r.happen (.added tag h)).names = r.names :=
  (OrderedMap.keys_insert r.handlers tag h).trans (if_pos ht)

theorem names_happen_added_of_not_mem (h : α) (ht : tag ∉ r.names) :
    (r.happen (.added tag h)).names = r.names ++ [tag] :=
  (OrderedMap.keys_insert r.handlers tag h).trans (if_neg ht)

theorem mem_names_happen_added (r : Registry α) (tag : Text) (h : α) (t : Text) :
    t ∈ (r.happen (.added tag h)).names ↔ t = tag ∨ t ∈ r.names := by
  by_cases ht : tag ∈ r.names
  · rw [names_happen_added_of_mem h ht]
    exact ⟨Or.inr, fun hm => hm.elim (fun he => he ▸ ht) id⟩
  · rw [names_happen_added_of_not_mem h ht, List.mem_append, List.mem_singleton]
    exact Or.comm

/-- A tag that is registered again keeps its place; a new one comes last. -/
theorem Follows.added (hr : Follows es r) (tag : Text) (h : α) :
    Follows (es ++ [.added tag h]) (r.happen (.added tag h)) := by
  have hne : ∀ {t}, t ≠ tag → ∀ g, Event.added tag h ≠ .added t g := by
    rintro t ht g ⟨⟩
    exact ht rfl
  refine ⟨OrderedMap.keys_nodup _, fun t => ?_, ?_, fun t g => ?_⟩
  · rw [mem_names_happen_added]
    by_cases ht : t = tag
    · subst ht
      rw [standing_append_added]
      exact iff_of_true (Or.inl rfl) (Set.insert_nonempty _ _)
    · rw [standing_append_of_ne id (hne ht), ← hr.mem_names t]
      exact or_iff_right ht
  · have hold : r.names.Pairwise fun a b => ∃ i j,
        IsLeast (standing (es ++ [.added tag h]) a) i ∧
          IsLeast (standing (es ++ [.added tag h]) b) j ∧ i < j := by
      refine hr.ordered.imp ?_
      rintro a b ⟨i, j, hi, hj, hij⟩
      exact ⟨i, j, isLeast_append_added hi, isLeast_append_added hj, hij⟩
    by_cases htag : tag ∈ r.names
    · rw [names_happen_added_of_mem h htag]
      exact hold
    · rw [names_happen_added_of_not_mem h htag]
      refine List.pairwise_append.mpr ⟨hold, List.pairwise_singleton _ _, fun a ha b hb => ?_⟩
      obtain rfl := List.mem_singleton.mp hb
      obtain ⟨i, hi⟩ := exists_isLeast_standing ((hr.mem_names a).mp ha)
      obtain ⟨g, hg⟩ := hi.1
      have hb0 : standing es b = ∅ := Set.not_nonempty_iff_eq_empty.mp fun hs =>
        htag ((hr.mem_names b).mpr hs)
      exact ⟨i, es.length, isLeast_append_added hi, isLeast_append_added_of_empty hb0 h,
        hg.lt_length⟩
  · have hg : (r.happen (.added tag h)).get? t = if t = tag then some h else r.get? t :=
      OrderedMap.get?_insert r.handlers tag t h
    rw [hg]
    by_cases ht : t = tag
    · subst ht
      constructor
      · intro he
        obtain rfl : h = g := by simpa using he
        exact ⟨_, isGreatest_append_added es t h, stands_append_iff.mpr (Or.inr ⟨rfl, rfl⟩)⟩
      · rintro ⟨i, hi, hs⟩
        obtain rfl := hi.unique (isGreatest_append_added es t h)
        rcases stands_append_iff.mp hs with ⟨ho, -⟩ | ⟨-, he⟩
        · exact absurd ho.lt_length (Nat.lt_irrefl _)
        · cases he
          simp
    · rw [if_neg ht, hr.get t g, standing_append_of_ne id (hne ht)]
      simp only [stands_append_of_ne (e := .added tag h) id (hne ht)]

theorem names_happen_removed (r : Registry α) (tag : Text) :
    (r.happen (.removed tag)).names = r.names.filter (· ≠ tag) :=
  OrderedMap.keys_erase r.handlers tag

theorem Follows.removed (hr : Follows es r) (tag : Text) :
    Follows (es ++ [.removed tag]) (r.happen (.removed tag)) := by
  have hne : ∀ {t}, t ≠ tag → ¬ (Event.removed tag : Event α).Ends t := fun ht he => ht he.symm
  have hsame : ∀ {t}, t ≠ tag → standing (es ++ [.removed tag]) t = standing es t := fun ht =>
    standing_append_of_ne (hne ht) (by rintro h ⟨⟩)
  refine ⟨OrderedMap.keys_nodup _, fun t => ?_, ?_, fun t g => ?_⟩
  · rw [names_happen_removed]
    by_cases ht : t = tag
    · subst ht
      rw [standing_append_of_ends (e := .removed t) rfl]
      simp
    · rw [hsame ht, ← hr.mem_names t]
      simp [ht]
  · rw [names_happen_removed]
    refine (hr.ordered.filter _).imp_of_mem fun ha hb h => ?_
    rw [hsame (by simpa using (List.mem_filter.mp ha).2),
      hsame (by simpa using (List.mem_filter.mp hb).2)]
    exact h
  · have hg : (r.happen (.removed tag)).get? t = if t = tag then none else r.get? t :=
      OrderedMap.get?_erase r.handlers tag t
    rw [hg]
    by_cases ht : t = tag
    · subst ht
      rw [standing_append_of_ends (e := .removed t) rfl]
      refine iff_of_false (by simp) ?_
      rintro ⟨i, hi, -⟩
      exact hi.1
    · rw [if_neg ht, hr.get t g, hsame ht]
      simp only [stands_append_of_ne (e := .removed tag) (hne ht) (by rintro h ⟨⟩)]

theorem follows_cleared (es : List (Event α)) : Follows (es ++ [.cleared]) empty where
  nodup := List.nodup_nil
  mem_names t := by
    rw [standing_append_of_ends (e := .cleared) trivial]
    exact iff_of_false List.not_mem_nil Set.not_nonempty_empty
  ordered := List.Pairwise.nil
  get t h := by
    rw [standing_append_of_ends (e := .cleared) trivial]
    refine iff_of_false (by rintro ⟨⟩) ?_
    rintro ⟨i, hi, -⟩
    exact hi.1

theorem Follows.happen (hr : Follows es r) (e : Event α) : Follows (es ++ [e]) (r.happen e) := by
  cases e with
  | added tag h => exact hr.added tag h
  | removed tag => exact hr.removed tag
  | cleared => exact follows_cleared es

theorem follows_foldl_happen (hr : Follows es r) (fs : List (Event α)) :
    Follows (es ++ fs) (fs.foldl Registry.happen r) := by
  induction fs generalizing es r with
  | nil => simpa using hr
  | cons f fs ih => simpa using ih (hr.happen f)

theorem add_eq_happen (r : Registry α) (tag : Text) (handler : Option α) :
    r.add tag handler = (Event.offered handler tag).foldl happen r := by
  cases handler <;> rfl

/-- A change is what it does to single tags, in order. -/
theorem changed_eq_happen (r : Registry α) (c : Change α) :
    r.changed c = c.events.foldl happen r := by
  cases c with
  | add tag handler => exact add_eq_happen r tag handler
  | remove tag => rfl
  | removeAll => rfl
  | addAll tags handler =>
    have hall : r.addAll tags handler = (tags.flatMap (Event.offered handler)).foldl happen r := by
      induction tags generalizing r with
      | nil => rfl
      | cons tag tags ih =>
        rw [List.flatMap_cons, List.foldl_append, ← add_eq_happen]
        exact ih _
    cases tags with
    | nil => rfl
    | cons tag tags => exact hall

theorem after_eq_happen (r : Registry α) (cs : List (Change α)) :
    r.after cs = (cs.flatMap Change.events).foldl happen r := by
  induction cs generalizing r with
  | nil => rfl
  | cons c cs ih =>
    rw [List.flatMap_cons, List.foldl_append, ← changed_eq_happen]
    exact ih _

theorem follows_after (cs : List (Change α)) :
    Follows (cs.flatMap Change.events) (empty.after cs) := by
  rw [after_eq_happen]
  exact follows_foldl_happen follows_empty _

theorem remove_of_not_mem (ht : tag ∉ r.names) : r.remove tag = r :=
  congrArg Registry.mk (OrderedMap.erase_of_not_mem ht)

/-- One handler for several tags is the same as the handler for each of them in turn. -/
theorem addAll_eq_after (r : Registry α) (tags : List Text) (handler : Option α) :
    r.addAll tags handler = r.after (tags.map (.add · handler)) := by
  induction tags generalizing r with
  | nil => rfl
  | cons tag tags ih => exact ih _

end Registry
end Shortcode
