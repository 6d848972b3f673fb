import Shortcode.Proofs.Engine.Render
import Shortcode.Proofs.Scan.Replace
import Shortcode.Proofs.Scan.WordNames

/-! A name in doubled brackets. It is a tag left standing only if no closer of the name follows: else
the tag reaches over the second closing bracket to the closer. -/
namespace Shortcode
open Scan
variable {η : Type} {names : List Text} {name u v body rest content : Text} {m : TagMatch}
  {ms : List TagMatch} {start : Nat}

namespace Scan

/-- A name in doubled brackets, with a text behind it. -/
def doubled (name v : Text) : Text := '[' :: '[' :: (name ++ ']' :: ']' :: v)

/-- The match that begins at a name in doubled brackets. -/
def doubledMatch (start : Nat) (name v : Text) : TagMatch :=
  tagOf start ['['] name (']' :: ']' :: v)

/-- A name in doubled brackets alone. -/
def doubledName (name : Text) : Text := doubled name []

theorem enclosedAt?_bracket (name v : Text) : enclosedAt? name (']' :: v) =
    (Text.cut? (closer name) v).map fun r => (']' :: r.1, r.2) := rfl

theorem insideAt_brackets (v : Text) : insideAt (']' :: ']' :: v) = ([], ']' :: v) :=
  insideAt_append List.not_mem_nil _

/-- Without a closer the second closing bracket goes with the match as the character behind it. -/
theorem doubledMatch_of_not_closer (hc : ¬ closer name <:+: v) (start : Nat) :
    (doubledMatch start name v).text = doubledName name ∧
      (doubledMatch start name v).isEscaped = true := by
  have hv := Text.cut?_eq_none_iff_notInfix.mpr hc
  simp [doubledMatch, tagOf, insideAt_brackets, enclosedAt?_bracket, hv, doubledName, doubled,
    TagParts.isEscaped]

/-- With a closer the second closing bracket is the first character of what the tag encloses. -/
theorem doubledMatch_of_cut (hc : Text.cut? (closer name) v = some (body, rest)) (start : Nat) :
    (doubledMatch start name v).text =
        '[' :: '[' :: (name ++ ']' :: ']' :: (body ++ closer name ++ rest.take 1)) ∧
      ((doubledMatch start name v).isEscaped = true ↔ rest.head? = some ']') ∧
      (doubledMatch start name v).content = some (']' :: body) := by
  have ht : (doubledMatch start name v).trailing = rest.take 1 := by
    simp [doubledMatch, tagOf, insideAt_brackets, enclosedAt?_bracket, hc]
  refine ⟨?_, ?_, ?_⟩
  · simp [doubledMatch, tagOf, insideAt_brackets, enclosedAt?_bracket, hc]
  · rw [TagParts.isEscaped, ht, Bool.and_eq_true]
    cases rest <;> simp [doubledMatch, tagOf]
  · simp [doubledMatch, tagOf, insideAt_brackets, enclosedAt?_bracket, hc]

theorem scan_doubled (hn : ∀ n ∈ names, IsWordName n) (hm : name ∈ names) (hu : '[' ∉ u)
    (v : Text) : ∃ ms, scan names (u ++ doubled name v) = doubledMatch u.length name v :: ms := by
  have hname : nameAt? names (name ++ ']' :: ']' :: v) = some (name, ']' :: ']' :: v) := by
    apply nameAt?_append hn hm
    · rintro c hc
      obtain rfl := Option.some.inj hc
      decide
    · simp
  have hfound : matchAt? names u.length (doubled name v) = some (doubledMatch u.length name v) := by
    have hl : ['['].length ≤ 1 := Nat.le_refl 1
    exact matchAt?_of_nameAt? hl (hn name hm) hname
  have hskip : nameBehind? names (doubled name v) = none := nameBehind?_cons_bracket hn '[' _
  have hgap : scanAfter names 0 0 (u ++ doubled name v) =
      scanAfter names 0 (0 + u.length) (doubled name v) := scanAfter_gap hu fun _ => hskip
  rw [Nat.zero_add] at hgap
  obtain ⟨tail, ht⟩ := text_of_matchAt? hfound
  rw [ht] at hfound
  exact ⟨_, by rw [scan, hgap, ht, scanAfter_of_some hfound]⟩

theorem doubledMatch_isEscaped_iff (start : Nat) (name v : Text) :
    (doubledMatch start name v).isEscaped = true ↔
      ∀ body rest, Text.cut? (closer name) v = some (body, rest) → rest.head? = some ']' := by
  cases hc : Text.cut? (closer name) v with
  | none => simpa using (doubledMatch_of_not_closer (Text.cut?_eq_none_iff_notInfix.mp hc) start).2
  | some r =>
    rw [(doubledMatch_of_cut hc start).2.1]
    constructor
    · rintro h _ _ ⟨⟩
      exact h
    · exact fun h => h r.1 r.2 rfl

/-- The text of the match without its ends begins with the name in single brackets. -/
theorem prefix_inner_doubledMatch (start : Nat) (name v : Text) :
    '[' :: (name ++ [']']) <+: (doubledMatch start name v).text.tail.dropLast := by
  obtain ⟨y, hy⟩ : ∃ y, (doubledMatch start name v).text =
      '[' :: ('[' :: (name ++ [']']) ++ ']' :: y) := by
    cases hc : Text.cut? (closer name) v with
    | none =>
      refine ⟨[], ?_⟩
      rw [(doubledMatch_of_not_closer (Text.cut?_eq_none_iff_notInfix.mp hc) start).1]
      simp [doubledName, doubled]
    | some r =>
      refine ⟨r.1 ++ closer name ++ r.2.take 1, ?_⟩
      rw [(doubledMatch_of_cut hc start).1]
      simp
  rw [hy, List.tail_cons, List.dropLast_append_of_ne_nil (List.cons_ne_nil _ _)]
  exact List.prefix_append _ _

end Scan

namespace Engine
variable {call : Caller η} {handlers : Registry (Registered η)} {e : Engine} {s t : State η}

/-- Every call that a rendering comes to ends with a text. -/
def Answered (call : Caller η) (e : Engine) (content : Text) (s : State η) : Prop :=
  ∀ m t o, Reaches call e content s m t → Calls call (s.registry e.registry) m t o →
    ∃ out notes u, o = some (.ok (out, notes), u)

theorem exists_each_of_answered (ha : Answered call e content s) :
    ∃ outs t, Run.Each (Handled call (s.registry e.registry))
      (scan (s.registry e.registry).names content) (entered e content s) outs t := by
  have hm : ∀ m ∈ scan (s.registry e.registry).names content,
      m.tag ∈ (s.registry e.registry).names := fun m h => tag_mem_of_mem_scan h
  rcases each_handled_or_calls call hm (entered e content s) with
    h | ⟨before, m, after, outs, t, hm, he, ⟨f, u, hc⟩ | hc⟩
  · exact h
  · obtain ⟨_, _, _, ho⟩ := ha m t _ ⟨before, after, outs, hm, he⟩ hc
    cases ho
  · obtain ⟨_, _, _, ho⟩ := ha m t _ ⟨before, after, outs, hm, he⟩ hc
    cases ho

/-- If the first match is left standing, a rendering begins with the text in front of it and its text
without the ends. -/
theorem exists_render_of_spares (hn : (s.registry e.registry).names ≠ [])
    (hs : scan (s.registry e.registry).names content = m :: ms)
    (hm : Spares m (entered e content s)) (ha : Answered call e content s) :
    ∃ out t, render call e content s = some (.ok out, t) ∧
      content.take m.start ++ m.text.tail.dropLast <+: out := by
  obtain ⟨outs, t, he⟩ := exists_each_of_answered ha
  refine ⟨_, _, (Renders.done hn he).eq, ?_⟩
  rw [hs] at he ⊢
  cases he with
  | cons h he =>
    cases h with
    | spared _ =>
      rw [gaps, interleave]
      simp
    | called hc => exact (hc.1 hm).elim

theorem not_calls_iff_spares (hm : m.tag ∈ handlers.names) :
    (∀ o, ¬ Calls call handlers m s o) ↔ Spares m s := by
  constructor
  · intro h
    by_contra hs
    obtain ⟨r, hg⟩ := OrderedMap.exists_get?_iff.mpr hm
    exact h _ ⟨hs, r, hg, rfl⟩
  · intro hs o hc
    exact hc.1 hs

/-- A name in doubled brackets behind a text without opening brackets is the first match, and just the
doubled name is that match exactly if no closer of the name follows. Then no handler is called for
it and a rendering begins with the name in single brackets. With a closer the match goes on to the
first one, and a handler is called for it unless a closing bracket follows that closer. -/
theorem doubled_spared_iff (hn : ∀ n ∈ names, IsWordName n) (hm : name ∈ names) (hu : '[' ∉ u)
    (v : Text) : ∃ m ms, scan names (u ++ doubled name v) = m :: ms ∧ m.tag = name ∧
      m.start = u.length ∧
      (m.text = doubledName name ∧ m.isEscaped = true ↔ ¬ closer name <:+: v) ∧
      (m.isEscaped = true ↔
        ∀ body rest, Text.cut? (closer name) v = some (body, rest) → rest.head? = some ']') ∧
      (∀ body rest, Text.cut? (closer name) v = some (body, rest) →
        m.content = some (']' :: body)) ∧
      ∀ (η : Type) (call : Caller η) (e : Engine) (s : State η),
        (s.registry e.registry).names = names → e.config.escapes = true →
          ((∀ o, ¬ Calls call (s.registry e.registry) m (entered e (u ++ doubled name v) s) o) ↔
            m.isEscaped = true) ∧
          (m.isEscaped = true →
            Answered call e (u ++ doubled name v) s →
              ∃ out t, render call e (u ++ doubled name v) s = some (.ok out, t) ∧
                u ++ '[' :: (name ++ [']']) <+: out) := by
  obtain ⟨ms, hs⟩ := scan_doubled hn hm hu v
  refine ⟨_, ms, hs, rfl, rfl, ?_, doubledMatch_isEscaped_iff u.length name v, ?_, ?_⟩
  · constructor
    · rintro ⟨ht, -⟩ hc
      obtain ⟨⟨body, rest⟩, hr⟩ := Option.ne_none_iff_exists'.mp
        fun h => Text.cut?_eq_none_iff_notInfix.mp h hc
      rw [(doubledMatch_of_cut hr u.length).1] at ht
      have hl := congrArg List.length ht
      simp [doubledName, doubled, closer] at hl
    · intro hc
      exact doubledMatch_of_not_closer hc u.length
  · intro body rest hr
    exact (doubledMatch_of_cut hr u.length).2.2
  · intro η call e s hnames hesc
    have hspares : Spares (doubledMatch u.length name v) (entered e (u ++ doubled name v) s) ↔
        (doubledMatch u.length name v).isEscaped = true := and_iff_left hesc
    refine ⟨?_, ?_⟩
    · rw [not_calls_iff_spares (by rw [hnames]; exact hm), hspares]
    · intro he ha
      rw [← hnames] at hs
      have hne : (s.registry e.registry).names ≠ [] := by
        rw [hnames]
        exact List.ne_nil_of_mem hm
      obtain ⟨out, t, hr, hp⟩ := exists_render_of_spares hne hs (hspares.mpr he) ha
      refine ⟨out, t, hr, ?_⟩
      have hstart : (u ++ doubled name v).take (doubledMatch u.length name v).start = u :=
        List.take_left
      rw [hstart] at hp
      have hinner := prefix_inner_doubledMatch u.length name v
      exact ((List.prefix_append_right_inj u).mpr hinner).trans hp

/-- Another tag behind a name in doubled brackets does no harm. -/
theorem doubled_spared_before_tag : ∃ m ms out t,
    scan [['a']] (['x'] ++ doubled ['a'] ['[', 'a', ']']) = m :: ms ∧
      m.text = ['[', '[', 'a', ']', ']'] ∧ m.isEscaped = true ∧
      render (fun _ _ _ => pure (['o'], [])) ⟨.default, 0⟩ (['x'] ++ doubled ['a'] ['[', 'a', ']'])
        ({ registries := [Registry.empty.add ['a'] (some ⟨⟨[], ()⟩, 0⟩)] } : State Unit) =
          some (.ok out, t) ∧ ['x', '[', 'a', ']'] <+: out := by
  obtain ⟨m, ms, hs, -, -, hiff, -, -, hdo⟩ := @doubled_spared_iff [['a']] ['a'] ['x'] (by decide)
    (by decide) (by decide) ['[', 'a', ']']
  obtain ⟨ht, he⟩ := hiff.mpr (by decide)
  obtain ⟨-, hrender⟩ := hdo Unit (fun _ _ _ => pure (['o'], [])) ⟨.default, 0⟩
    { registries := [Registry.empty.add ['a'] (some ⟨⟨[], ()⟩, 0⟩)] } rfl rfl
  obtain ⟨out, t, hr, hp⟩ := hrender he (by
    rintro m' s o - ⟨-, -, -, rfl⟩
    exact ⟨_, _, _, rfl⟩)
  exact ⟨m, ms, out, t, hs, ht, he, hr, hp⟩

/-- With a closer somewhere behind it a name in doubled brackets is not the first match. -/
theorem not_first_match_eq_doubledName :
    ¬ ∀ (names : List Text) (name u v : Text), (∀ n ∈ names, IsWordName n) → name ∈ names →
      '[' ∉ u → ∃ m ms, scan names (u ++ doubled name v) = m :: ms ∧
        m.text = doubledName name ∧ m.isEscaped = true := by
  intro h
  obtain ⟨m, ms, hs, ht, -⟩ := h [['a']] ['a'] [] ['x', '[', '/', 'a', ']'] (by decide) (by decide)
    (by decide)
  have hm := congrArg (fun l => l.map (·.text)) hs
  have hscan : (scan [['a']] ([] ++ doubled ['a'] ['x', '[', '/', 'a', ']'])).map (·.text) =
      [['[', '[', 'a', ']', ']', 'x', '[', '/', 'a', ']']] := by decide
  rw [hscan, List.map_cons, ht] at hm
  exact absurd (List.cons.inj hm).1 (by decide)

end Engine
end Shortcode
