import Mathlib.Algebra.Order.BigOperators.Group.List
import Mathlib.Algebra.Order.Group.Nat
import Shortcode.Proofs.Engine.Render
import Shortcode.Proofs.Engine.Strip
import Shortcode.Proofs.Scan.Brackets

/-! The characters that stand around a tag are kept when it is removed, and may be part of a new tag.
But each tag takes three characters or more along, so there is an end to it. -/
namespace Shortcode
open Scan
variable {η : Type} {names : List Text} {content : Text} {start : Nat} {m : TagMatch}

namespace Scan

/-- Without its tag a match is three characters shorter or more. -/
theorem context_of_mem_scan (hm : m ∈ scan names content) :
    m.context.Sublist m.text ∧ m.context.length + 3 ≤ m.text.length := by
  obtain ⟨ht, hl⟩ := text_eq_ownText_of_mem_scan hm
  rw [ht, TagParts.context]
  constructor
  · exact (List.sublist_append_left m.leading m.ownText).append (List.Sublist.refl m.trailing)
  · simp only [List.length_append]
    omega

end Scan

theorem stripText_eq_interleave (names : List Text) (content : Text) :
    stripText names content = interleave (gaps content 0 (scan names content))
      ((scan names content).map (·.context)) := by
  have hs := splice_eq_interleave (inOrder_scan names content)
    ((scan names content).map (·.context)) (List.length_map _)
  rw [← hs, ← List.map_prod_left_eq_zip]
  rfl

theorem interleave_gaps_scan (names : List Text) (content : Text) :
    interleave (gaps content 0 (scan names content)) ((scan names content).map (·.text)) =
      content :=
  interleave_gaps_text (inOrder_scan names content)

theorem stripText_sublist (names : List Text) (content : Text) :
    (stripText names content).Sublist content := by
  have hc : ∀ m ∈ scan names content, m.context.Sublist m.text := by
    intro m hm
    exact (context_of_mem_scan hm).1
  have hs := interleave_map_sublist hc (gaps content 0 (scan names content))
  rwa [← stripText_eq_interleave, interleave_gaps_scan] at hs

/-- The length of a text with its matches replaced: only the replacements make a difference. -/
theorem length_interleave_gaps (ms : List TagMatch) (f : TagMatch → Text) :
    (interleave (gaps content start ms) (ms.map f)).length =
      ((gaps content start ms).map List.length).sum + (ms.map fun m => (f m).length).sum := by
  rw [length_interleave (by simp [length_gaps]), List.map_map]
  rfl

theorem length_stripText_add_le (names : List Text) (content : Text) :
    (stripText names content).length + 3 * (scan names content).length ≤ content.length := by
  have hle : ((scan names content).map fun m => m.context.length + 3).sum ≤
      ((scan names content).map fun m => m.text.length).sum :=
    List.sum_le_sum fun m hm => (context_of_mem_scan hm).2
  have hc := congrArg List.length (interleave_gaps_scan names content)
  rw [length_interleave_gaps] at hc
  rw [stripText_eq_interleave, length_interleave_gaps]
  rw [List.sum_map_add, List.map_const', List.sum_replicate, Nat.nsmul_eq_mul] at hle
  omega

theorem stripText_eq_self_iff : stripText names content = content ↔ scan names content = [] := by
  constructor
  · intro h
    have hl := length_stripText_add_le names content
    rw [h] at hl
    exact List.length_eq_zero_iff.mp (by omega)
  · intro h
    rw [stripText, h]
    rfl

/-- By induction on the length: a text with a match is three characters shorter without it. -/
theorem exists_iterate_stripText (names : List Text) (content : Text) :
    ∃ k, 3 * k ≤ content.length ∧ scan names ((stripText names)^[k] content) = [] := by
  induction hn : content.length using Nat.strong_induction_on generalizing content with
  | h n ih =>
    by_cases hs : scan names content = []
    · exact ⟨0, by omega, hs⟩
    · have hl := length_stripText_add_le names content
      have hpos := List.length_pos_iff.mpr hs
      obtain ⟨k, hk, hp⟩ := ih _ (by omega) (stripText names content) rfl
      exact ⟨k + 1, by omega, hp⟩

namespace Engine
variable {call : Caller η} {e : Engine} {s : State η}

/-- Strips a content, then what is left of it, and so on. -/
def stripTimes (e : Engine) : Nat → Text → Run η Text
  | 0, content => pure content
  | k + 1, content => do stripTimes e k (← strip e content)

theorem stripTimes_records (e : Engine) (k : Nat) (content : Text) (s : State η) :
    ∃ t, stripTimes e k content s =
        some (.ok ((stripText (s.registry e.registry).names)^[k] content), t) ∧
      s.OnlyRecords t := by
  induction k generalizing content s with
  | zero => exact ⟨s, rfl, State.OnlyRecords.refl s⟩
  | succ k ih =>
    obtain ⟨t, ht, hr⟩ := strip_records e content s
    obtain ⟨u, hu, hv⟩ := ih (stripText (s.registry e.registry).names content) t
    rw [hr.registry_eq] at hu
    refine ⟨u, ?_, hr.trans hv⟩
    rw [stripTimes, Run.bind_apply, ht]
    exact hu

/-- Nothing happens to a text without tags. -/
theorem render_of_scan_eq_nil (call : Caller η)
    (h : scan (s.registry e.registry).names content = []) :
    ∃ t, render call e content s = some (.ok content, t) ∧ s.OnlyRecords t := by
  have he : Run.Each (Handled call (s.registry e.registry))
      (scan (s.registry e.registry).names content) (entered e content s) []
      (entered e content s) := by
    rw [h]
    exact Run.Each.nil
  obtain ⟨t, ht, hs⟩ := exists_render_of_each he
  have hc : interleave (gaps content 0 []) [] = content := by
    simp [interleave, gaps]
  rw [h, hc] at ht
  refine ⟨t, ht, ?_⟩
  rcases hs with rfl | rfl
  · exact State.OnlyRecords.refl t
  · exact ⟨[.rendered content.length], _, by simp [Activity.visit?], rfl⟩

/-- Neither a stripping nor a rendering does anything to a text. -/
def Inert (call : Caller η) (e : Engine) (content : Text) (s : State η) : Prop :=
  (∃ t, strip e content s = some (.ok content, t) ∧ s.OnlyRecords t) ∧
    ∃ t, render call e content s = some (.ok content, t) ∧ s.OnlyRecords t

theorem inert_of_scan_eq_nil (call : Caller η)
    (h : scan (s.registry e.registry).names content = []) : Inert call e content s := by
  refine ⟨?_, render_of_scan_eq_nil call h⟩
  obtain ⟨t, ht, hr⟩ := strip_records e content s
  rw [stripText_eq_self_iff.mpr h] at ht
  exact ⟨t, ht, hr⟩

/-- Stripping leaves a part of a text, three characters shorter or more for each match, so it changes
nothing exactly if there is no match. Stripping again and again therefore comes to a text without
matches, after a third as many times as there are characters at most. All of this is settled by
the names alone, and no handler is called. -/
theorem strip_comes_to_plain_text (names : List Text) (content : Text) :
    (stripText names content).Sublist content ∧
      (stripText names content).length + 3 * (scan names content).length ≤ content.length ∧
      (stripText names content = content ↔ scan names content = []) ∧
      (stripText names (stripText names content) = stripText names content ↔
        scan names (stripText names content) = []) ∧
      ∃ k plain, k ≤ content.length / 3 ∧ scan names plain = [] ∧
        ∀ (call : Caller η) (e : Engine) (s : State η), (s.registry e.registry).names = names →
          (∃ t, strip e content s = some (.ok (stripText names content), t) ∧ s.OnlyRecords t) ∧
            (∃ t, stripTimes e k content s = some (.ok plain, t) ∧ s.OnlyRecords t) ∧
            Inert call e plain s := by
  obtain ⟨k, hk, hp⟩ := exists_iterate_stripText names content
  refine ⟨stripText_sublist names content, length_stripText_add_le names content,
    stripText_eq_self_iff, stripText_eq_self_iff, k, (stripText names)^[k] content, by omega, hp, ?_⟩
  rintro call e s rfl
  exact ⟨strip_records e content s, stripTimes_records e k content s, inert_of_scan_eq_nil call hp⟩

/-- An engine with one name. -/
def oneName : State Unit where
  registries := [Registry.empty.add ['a'] (some ⟨⟨[], ()⟩, 0⟩)]

/-- Without its inner tag the characters around that are a tag. -/
theorem strip_comes_to_plain_text_nested : ∃ k plain t u,
    strip ⟨.default, 0⟩ ['[', '[', 'a', ']', 'a', ']'] oneName = some (.ok ['[', 'a', ']'], t) ∧
      k ≤ 2 ∧ stripTimes ⟨.default, 0⟩ k ['[', '[', 'a', ']', 'a', ']'] oneName =
        some (.ok plain, u) ∧
      scan [['a']] plain = [] := by
  obtain ⟨-, -, -, -, k, plain, hk, hp, h⟩ :=
    @strip_comes_to_plain_text Unit [['a']] ['[', '[', 'a', ']', 'a', ']']
  obtain ⟨⟨t, ht, -⟩, ⟨u, hu, -⟩, -⟩ := h (fun _ _ _ => pure ([], [])) ⟨.default, 0⟩ oneName rfl
  have hs : stripText [['a']] ['[', '[', 'a', ']', 'a', ']'] = ['[', 'a', ']'] := by decide
  rw [hs] at ht
  exact ⟨k, plain, t, u, ht, hk, hu, hp⟩

end Engine
end Shortcode
