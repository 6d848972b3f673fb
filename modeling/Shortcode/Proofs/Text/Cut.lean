import Mathlib.Data.List.Basic
import Shortcode.Text.Basic

/-! Cutting a text at the first occurrence of a mark. -/
namespace Shortcode.Text
variable {mark t before after : Text} {c : Char}

theorem isPrefixOf?_append (mark after : Text) : mark.isPrefixOf? (mark ++ after) = some after :=
  List.isPrefixOf?_eq_some_iff_append_eq.mpr rfl

theorem isPrefixOf?_eq_none_iff : mark.isPrefixOf? t = none ↔ ¬ mark <+: t := by
  rw [Option.eq_none_iff_forall_ne_some]
  constructor
  · rintro h ⟨rest, hr⟩
    exact h rest (List.isPrefixOf?_eq_some_iff_append_eq.mpr hr)
  · intro h rest hr
    exact h ⟨rest, List.isPrefixOf?_eq_some_iff_append_eq.mp hr⟩

@[simp] theorem cut?_mark_append (mark after : Text) :
    cut? mark (mark ++ after) = some ([], after) := by
  have hm := isPrefixOf?_append mark after
  cases ht : mark ++ after with
  | nil =>
    obtain ⟨rfl, rfl⟩ := List.append_eq_nil_iff.mp ht
    rfl
  | cons c t =>
    rw [ht] at hm
    simp only [cut?, hm]

theorem cut?_cons (h : ¬ mark <+: c :: t) :
    cut? mark (c :: t) = (cut? mark t).map fun r => (c :: r.1, r.2) := by
  rw [cut?, isPrefixOf?_eq_none_iff.mpr h]

theorem cut?_nil (h : mark ≠ []) : cut? mark [] = none := by simp [cut?, h]

theorem cut?_append (h : ∀ k < before.length, ¬ mark <+: (before ++ (mark ++ after)).drop k) :
    cut? mark (before ++ (mark ++ after)) = some (before, after) := by
  induction before with
  | nil => exact cut?_mark_append mark after
  | cons c before ih =>
    have hb : cut? mark (before ++ (mark ++ after)) = some (before, after) := by
      apply ih
      intro k hk
      exact h (k + 1) (Nat.succ_lt_succ hk)
    have hm : ¬ mark <+: c :: (before ++ (mark ++ after)) := h 0 (Nat.succ_pos _)
    rw [List.cons_append, cut?_cons hm, hb]
    rfl

/-- A cut stands at the first place where the mark occurs. -/
theorem cut?_eq_some_iff : cut? mark t = some (before, after) ↔
    t = before ++ (mark ++ after) ∧ ∀ k < before.length, ¬ mark <+: t.drop k := by
  constructor
  · intro h
    induction t generalizing before with
    | nil =>
      simp only [cut?] at h
      split at h <;> simp_all
    | cons c t ih =>
      by_cases hm : mark <+: c :: t
      · obtain ⟨rest, hr⟩ := hm
        rw [← hr, cut?_mark_append] at h
        cases h
        exact ⟨hr.symm, by simp⟩
      · rw [cut?_cons hm, Option.map_eq_some_iff] at h
        obtain ⟨⟨b, a⟩, hc, he⟩ := h
        cases he
        obtain ⟨rfl, hb⟩ := ih hc
        refine ⟨rfl, ?_⟩
        intro k hk
        cases k with
        | zero => exact hm
        | succ k => exact hb k (Nat.lt_of_succ_lt_succ hk)
  · rintro ⟨rfl, h⟩
    exact cut?_append h

theorem cut?_eq_none_iff : cut? mark t = none ↔ ∀ k, ¬ mark <+: t.drop k := by
  constructor
  · intro h k
    rintro ⟨rest, hr⟩
    induction t generalizing k with
    | nil =>
      obtain ⟨rfl, rfl⟩ := List.append_eq_nil_iff.mp (hr.trans List.drop_nil)
      cases h
    | cons c t ih =>
      by_cases hm : mark <+: c :: t
      · obtain ⟨rest, hr⟩ := hm
        rw [← hr, cut?_mark_append] at h
        cases h
      · rw [cut?_cons hm, Option.map_eq_none_iff] at h
        cases k with
        | zero => exact hm ⟨rest, hr⟩
        | succ k => exact ih h k hr
  · intro h
    rw [Option.eq_none_iff_forall_ne_some]
    rintro ⟨before, after⟩ hc
    apply h before.length
    rw [(cut?_eq_some_iff.mp hc).1, List.drop_left]
    exact List.prefix_append _ _

theorem cut?_eq_none_iff_notInfix : cut? mark t = none ↔ ¬ mark <:+: t := by
  rw [cut?_eq_none_iff]
  constructor
  · rintro h ⟨before, after, rfl⟩
    apply h before.length
    rw [List.append_assoc, List.drop_left]
    exact List.prefix_append _ _
  · intro h k hp
    exact h (hp.isInfix.trans (List.drop_suffix k t).isInfix)

end Shortcode.Text
