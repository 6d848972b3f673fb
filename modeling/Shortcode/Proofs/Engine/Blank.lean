import Shortcode.Proofs.Engine.Plain

/-! Handlers that give no text. What they make of a content is the content without its tags, but for
escaped tags that are left standing. -/
namespace Shortcode
open Scan
variable {η : Type} {names : List Text} {content : Text} {m : TagMatch} {ms : List TagMatch}
  {c : Config}

/-- What is left of a match of which nothing is made: its text without the ends if it is escaped and
escaping is on, else the characters around it. -/
def TagMatch.kept (c : Config) (m : TagMatch) : Text :=
  if m.isEscaped && c.escapes then Text.inner m.text else m.context

namespace Scan

/-- An escaped match is a tag in one more pair of brackets. -/
theorem parts_of_isEscaped (hm : m ∈ scan names content) (he : m.isEscaped = true) :
    m.context = ['[', ']'] ∧ Text.inner m.text = m.ownText ∧ 3 ≤ m.ownText.length := by
  obtain ⟨ht, hthree⟩ := text_eq_ownText_of_mem_scan hm
  simp only [TagParts.isEscaped, Bool.and_eq_true, beq_iff_eq] at he
  obtain ⟨hl, hr⟩ := he
  rw [hl, hr] at ht
  refine ⟨?_, ?_, hthree⟩
  · simp [TagParts.context, hl, hr]
  · simp [ht, Text.inner]

theorem length_context_le_kept (hm : m ∈ scan names content) :
    m.context.length ≤ (m.kept c).length := by
  rw [TagMatch.kept]
  split
  · next he =>
    obtain ⟨hc, hi, hthree⟩ := parts_of_isEscaped hm (Bool.and_eq_true_iff.mp he).1
    rw [hc, hi, List.length_cons, List.length_singleton]
    omega
  · exact Nat.le_refl _

theorem length_context_lt_kept (hm : m ∈ scan names content) (he : m.isEscaped = true)
    (hc : c.escapes = true) : m.context.length < (m.kept c).length := by
  obtain ⟨hx, hi, hthree⟩ := parts_of_isEscaped hm he
  rw [TagMatch.kept, he, hc, hx, Bool.and_self, if_pos rfl, hi]
  exact hthree

/-- What is left of the matches is the same for both if none is left standing, and more of the text is
left if one is. -/
theorem interleave_kept_eq_iff (c : Config) (names : List Text) (content : Text) :
    interleave (gaps content 0 (scan names content)) ((scan names content).map (·.kept c)) =
        stripText names content ↔
      c.escapes = false ∨ ∀ m ∈ scan names content, m.isEscaped = false := by
  rw [stripText_eq_interleave]
  constructor
  · intro h
    by_contra hn
    simp only [not_or, not_forall, Bool.not_eq_false] at hn
    obtain ⟨hc, m, hm, he⟩ := hn
    have hlt : ((scan names content).map fun m => m.context.length).sum <
        ((scan names content).map fun m => (m.kept c).length).sum :=
      List.sum_lt_sum _ _ (fun _ => length_context_le_kept) ⟨m, hm, length_context_lt_kept hm he hc⟩
    have hl := congrArg List.length h
    rw [length_interleave_gaps, length_interleave_gaps] at hl
    omega
  · intro h
    have hk : ∀ m ∈ scan names content, m.kept c = m.context := by
      intro m hm
      rcases h with h | h
      · simp [TagMatch.kept, h]
      · simp [TagMatch.kept, h m hm]
    rw [List.map_congr_left hk]

end Scan

namespace Engine
variable {call : Caller η} {handlers : Registry (Registered η)} {e : Engine} {s : State η}

/-- All handlers give the empty text and leave the state as it is. What they put on record is of no
account. -/
def AllBlank (call : Caller η) (handlers : Registry (Registered η)) : Prop :=
  ∀ tag h, handlers.get? tag = some h →
    ∀ c n s, ∃ notes, call h.handler c n s = some (.ok ([], notes), s)

theorem exists_handled_of_blank (hb : AllBlank call handlers) (hm : m.tag ∈ handlers.names)
    (s : State η) :
    ∃ t, Handled call handlers m s (m.kept s.config) t ∧ t.config = s.config := by
  by_cases hs : Spares m s
  · have hk : m.kept s.config = Text.inner m.text := by
      simp [TagMatch.kept, hs.1, hs.2]
    rw [hk]
    exact ⟨_, Handled.spared hs, rfl⟩
  · obtain ⟨h, hg⟩ := OrderedMap.exists_get?_iff.mpr hm
    obtain ⟨notes, hn⟩ := hb m.tag h hg (callFor m s)
      ((begun h (callFor m s) s).callCount h.object) (begun h (callFor m s) s)
    have hk : m.kept s.config = m.leading ++ [] ++ m.trailing := by
      have hx : (m.isEscaped && s.config.escapes) = false := by
        rw [Bool.eq_false_iff]
        intro hx
        exact hs (Bool.and_eq_true_iff.mp hx)
      simp [TagMatch.kept, hx, TagParts.context]
    rw [hk]
    exact ⟨_, Handled.called ⟨hs, h, hg, hn⟩, rfl⟩

/-- By induction on the matches: the configuration is the same at each of them. -/
theorem exists_each_of_blank (hb : AllBlank call handlers) (hm : ∀ m ∈ ms, m.tag ∈ handlers.names)
    (s : State η) :
    ∃ t, Run.Each (Handled call handlers) ms s (ms.map (·.kept s.config)) t := by
  induction ms generalizing s with
  | nil => exact ⟨s, Run.Each.nil⟩
  | cons m ms ih =>
    obtain ⟨t, ht, hc⟩ := exists_handled_of_blank hb (hm m List.mem_cons_self) s
    obtain ⟨u, hu⟩ := ih (fun m' h => hm m' (List.mem_cons_of_mem m h)) t
    rw [hc] at hu
    exact ⟨u, Run.Each.cons ht hu⟩

theorem exists_render_of_blank (hb : AllBlank call (s.registry e.registry)) (content : Text) :
    ∃ t, render call e content s = some (.ok (interleave
      (gaps content 0 (scan (s.registry e.registry).names content))
      ((scan (s.registry e.registry).names content).map (·.kept e.config))), t) := by
  obtain ⟨t, ht⟩ := exists_each_of_blank hb (fun m => tag_mem_of_mem_scan) (entered e content s)
  obtain ⟨u, hu, -⟩ := exists_render_of_each ht
  exact ⟨u, hu⟩

/-- Handlers that give no text leave of a content what stripping leaves of it, match by match, but for
the tags that are escaped, if escaping is on: of these stripping leaves a pair of brackets, and
rendering leaves the tag. So both give the same text exactly if escaping is off or no match is
escaped. -/
theorem render_of_blank_and_strip (hb : AllBlank call (s.registry e.registry)) (content : Text) :
    ∃ out stripped t u, render call e content s = some (.ok out, t) ∧
      strip e content s = some (.ok stripped, u) ∧
      out = interleave (gaps content 0 (scan (s.registry e.registry).names content))
        ((scan (s.registry e.registry).names content).map (·.kept e.config)) ∧
      stripped = interleave (gaps content 0 (scan (s.registry e.registry).names content))
        ((scan (s.registry e.registry).names content).map (·.context)) ∧
      (∀ m ∈ scan (s.registry e.registry).names content, m.isEscaped = true →
        m.context = ['[', ']'] ∧ Text.inner m.text = m.ownText) ∧
      (out = stripped ↔ e.config.escapes = false ∨
        ∀ m ∈ scan (s.registry e.registry).names content, m.isEscaped = false) := by
  obtain ⟨t, ht⟩ := exists_render_of_blank hb content
  obtain ⟨u, hu⟩ := strip_apply e content s
  refine ⟨_, _, t, u, ht, hu, rfl, stripText_eq_interleave _ content, ?_,
    interleave_kept_eq_iff e.config _ content⟩
  intro m hm he
  obtain ⟨hc, hi, -⟩ := parts_of_isEscaped hm he
  exact ⟨hc, hi⟩

/-- Of an escaped tag and one that is not, only the first one is left standing. -/
theorem render_of_blank_and_strip_escaped : ∃ t u,
    render (fun _ _ _ => pure ([], [])) ⟨.default, 0⟩
        ['[', '[', 'a', ']', ']', '[', 'a', '/', ']', 'x'] oneName =
      some (.ok ['[', 'a', ']', 'x'], t) ∧
    strip ⟨.default, 0⟩ ['[', '[', 'a', ']', ']', '[', 'a', '/', ']', 'x'] oneName =
      some (.ok ['[', ']', 'x'], u) := by
  have hb : AllBlank (fun _ _ _ => pure ([], [])) (oneName.registry 0) := by
    intro tag h _ c n s
    exact ⟨[], rfl⟩
  obtain ⟨out, stripped, t, u, ht, hu, hout, hstripped, -, -⟩ :=
    @render_of_blank_and_strip Unit _ ⟨.default, 0⟩ oneName hb
      ['[', '[', 'a', ']', ']', '[', 'a', '/', ']', 'x']
  have ho : out = ['[', 'a', ']', 'x'] := by
    rw [hout]
    decide
  have hs : stripped = ['[', ']', 'x'] := by
    rw [hstripped]
    decide
  rw [ho] at ht
  rw [hs] at hu
  exact ⟨t, u, ht, hu⟩

end Engine
end Shortcode
