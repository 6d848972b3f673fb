import Shortcode.Proofs.Engine.Bracketed
import Shortcode.Proofs.Scan.Brackets

/-! A text that is one tag from end to end stays that tag in one more pair of brackets, with the new
brackets for the characters around it. So it is left standing, or replaced between the brackets. -/
namespace Shortcode
open Scan
variable {η : Type} {names : List Text} {name after content t : Text} {m : TagMatch}

/-- A match in one more pair of brackets. -/
def TagMatch.wrapped (m : TagMatch) : TagMatch :=
  { m with leading := ['['], trailing := [']'], text := bracketed m.text, stop := m.stop + 2 }

namespace Scan

/-- A text is one tag from end to end, with nothing around it. -/
def IsWholeTag (names : List Text) (content : Text) (m : TagMatch) : Prop :=
  scan names content = [m] ∧ m.text = content ∧ m.leading = [] ∧ m.trailing = []

theorem IsWholeTag.matchAt? (h : IsWholeTag names content m) :
    Scan.matchAt? names 0 content = some m := by
  obtain ⟨hs, ht, -, -⟩ := h
  have hf := found_scan names content
  rw [hs] at hf
  cases hf with
  | skip _ hf =>
    -- a match that is found later is shorter than the text
    have hl := (hf.isInfix m List.mem_cons_self).1.length_le
    rw [ht, List.length_cons] at hl
    omega
  | take hm _ => exact hm

/-- What follows the closer, or the opening if there is none, is the end of the text. -/
theorem IsWholeTag.exists_rest (h : IsWholeTag names content m) : ∃ name inside after,
    content = '[' :: (name ++ (inside ++ ']' :: after)) ∧ ']' ∉ inside ∧
      nameAt? names (name ++ (inside ++ ']' :: after)) = some (name, inside ++ ']' :: after) ∧
      m = tagOf 0 [] name (inside ++ ']' :: after) ∧
      ((enclosedAt? name after).map (·.2)).getD after = [] := by
  obtain ⟨leading, name, rest, ht, -, hn, rfl, -⟩ := matchAt?_eq_some h.matchAt?
  obtain ⟨inside, after, rfl, hu⟩ :=
    List.eq_append_cons_of_mem (mem_of_admits (nameAt?_eq_some_iff.mp hn).2.1)
  obtain ⟨-, -, hl, hr⟩ := h
  obtain rfl : leading = [] := hl
  rw [tagOf_trailing 0 [] name after hu] at hr
  exact ⟨name, inside, after, ht, hu, hn, rfl, by simpa using hr⟩

/-- The opening or the closer at the end of a whole tag ends with a bracket. -/
theorem exists_eq_append_bracket (h : ((enclosedAt? name after).map (·.2)).getD after = []) :
    ∃ u, ']' :: after = u ++ [']'] := by
  cases he : enclosedAt? name after with
  | none =>
    rw [he] at h
    exact ⟨[], congrArg (']' :: ·) h⟩
  | some r =>
    obtain ⟨body, tail⟩ := r
    obtain rfl : tail = [] := by simpa [he] using h
    obtain ⟨rfl, -, -⟩ := enclosedAt?_eq_some_iff.mp he
    exact ⟨']' :: (body ++ '[' :: '/' :: name), by simp [closer]⟩

/-- No name is read over the bracket at the end of a text, and none is refused for one bracket more:
no word ends between two brackets. -/
theorem nameAt?_append_bracket (names : List Text) (t : Text) :
    nameAt? names (t ++ [']'] ++ [']']) =
      (nameAt? names (t ++ [']'])).map fun r => (r.1, r.2 ++ [']']) := by
  have hb : Text.isBoundary (some ']') (some ']') = false := by decide
  apply nameAt?_append_of_admits
  · intro name rest h
    rcases List.eq_nil_or_concat' rest with rfl | ⟨r, c, rfl⟩
    · obtain rfl : t ++ [']'] = name := by simpa using h
      simp [admits, hb]
    · rw [← List.append_assoc] at h
      obtain ⟨-, hc⟩ := List.append_inj' h rfl
      obtain rfl := List.singleton_inj.mp hc
      cases r <;> simp [admits]
  · intro name rest h ha
    have hne : rest ≠ [] := List.ne_nil_of_mem (mem_of_admits ha)
    rcases List.append_eq_append_iff.mp h with ⟨w, rfl, hw⟩ | ⟨w, hw, rfl⟩
    · obtain ⟨rfl, rfl⟩ : w = [] ∧ rest = [']'] := by
        cases w with
        | nil => exact ⟨rfl, hw.symm⟩
        | cons c w => simp [hne] at hw
      exact ⟨[], by simp, rfl⟩
    · exact ⟨w, hw, rfl⟩

/-- A bracket behind a text that ends with a closer makes no closer in front of that one. -/
theorem enclosedAt?_append_bracket (h : ((enclosedAt? name t).map (·.2)).getD t = []) :
    enclosedAt? name (t ++ [']']) = (enclosedAt? name t).map fun r => (r.1, [']']) := by
  cases he : enclosedAt? name t with
  | none =>
    obtain rfl : t = [] := by simpa [he] using h
    simp [enclosedAt?, Text.cut?_nil, closer]
  | some r =>
    obtain ⟨body, tail⟩ := r
    obtain rfl : tail = [] := by simpa [he] using h
    obtain ⟨ht, hne, hk⟩ := enclosedAt?_eq_some_iff.mp he
    show enclosedAt? name (t ++ [']']) = some (body, [']'])
    rw [enclosedAt?_eq_some_iff]
    refine ⟨by simp [ht], hne, ?_⟩
    intro k hpos hlt hp
    have hlen := congrArg List.length ht
    simp only [List.length_append, List.append_nil] at hlen
    rw [List.drop_append_of_le_length (by omega)] at hp
    apply hk k hpos hlt
    apply List.prefix_of_prefix_length_le hp (List.prefix_append _ _)
    rw [List.length_drop]
    omega

theorem tagOf_wrapped {inside : Text} (hu : ']' ∉ inside)
    (h : ((enclosedAt? name after).map (·.2)).getD after = []) :
    tagOf 0 ['['] name (inside ++ ']' :: (after ++ [']'])) =
      (tagOf 0 [] name (inside ++ ']' :: after)).wrapped := by
  have hi := insideAt_append hu after
  have hib := insideAt_append hu (after ++ [']'])
  have he := enclosedAt?_append_bracket h
  cases hx : enclosedAt? name after with
  | none =>
    obtain rfl : after = [] := by simpa [hx] using h
    simp only [hx, List.nil_append, Option.map_none] at hib he
    simp [tagOf, TagMatch.wrapped, bracketed, hi, hib, he, hx]
    omega
  | some r =>
    obtain ⟨body, tail⟩ := r
    obtain rfl : tail = [] := by simpa [hx] using h
    simp [tagOf, TagMatch.wrapped, bracketed, hi, hib, he, hx]
    omega

/-- The new brackets are read as the characters around the tag. -/
theorem IsWholeTag.matchAt?_bracketed (h : IsWholeTag names content m) :
    Scan.matchAt? names 0 (bracketed content) = some m.wrapped := by
  obtain ⟨name, inside, after, rfl, hu, hn, rfl, ha⟩ := h.exists_rest
  obtain ⟨u, hend⟩ := exists_eq_append_bracket ha
  have hname : nameAt? names (name ++ (inside ++ ']' :: (after ++ [']']))) =
      some (name, inside ++ ']' :: (after ++ [']'])) := by
    have hb := nameAt?_append_bracket names (name ++ (inside ++ u))
    have ht : name ++ (inside ++ u) ++ [']'] = name ++ (inside ++ ']' :: after) := by
      simp [hend]
    rw [ht, hn] at hb
    simpa using hb
  have hopens : nameBehind? names ('[' :: (name ++ (inside ++ ']' :: (after ++ [']'])))) =
      some (name, inside ++ ']' :: (after ++ [']'])) :=
    nameBehind?_eq_some_iff.mpr ⟨rfl, hname⟩
  have hb : bracketed ('[' :: (name ++ (inside ++ ']' :: after))) =
      '[' :: '[' :: (name ++ (inside ++ ']' :: (after ++ [']']))) := by
    simp [bracketed]
  rw [hb, Scan.matchAt?, opensAt?_eq_map, List.drop_succ_cons, List.drop_zero, hopens,
    ← tagOf_wrapped hu ha]
  rfl

theorem IsWholeTag.scan_bracketed (h : IsWholeTag names content m) :
    scan names (bracketed content) = [m.wrapped] := by
  have ht : m.wrapped.text = bracketed content := congrArg bracketed h.2.1
  have hm : Scan.matchAt? names 0 (m.wrapped.text ++ []) = some m.wrapped := by
    rw [ht, List.append_nil]
    exact h.matchAt?_bracketed
  have hs := scanAfter_of_some hm
  rwa [ht, List.append_nil] at hs

theorem IsWholeTag.stop_eq (h : IsWholeTag names content m) :
    m.start = 0 ∧ m.stop = content.length := by
  have hs := start_of_matchAt? h.matchAt?
  have hp := stop_of_matchAt? h.matchAt?
  rw [h.2.1, Nat.zero_add] at hp
  exact ⟨hs, hp⟩

end Scan

namespace Engine
variable {call : Caller η} {e : Engine} {s : State η}

/-- A rendering is one call of a handler, and `f` makes the new text of what the handler gives. -/
def IsOneCall (call : Caller η) (e : Engine) (content : Text) (s : State η) (h : Registered η)
    (c : Call) (f : Text → Text) : Prop :=
  render call e content s =
    (visit call h c (entered e content s)).map fun r => (r.1.map f, { r.2 with config := s.config })

theorem isOneCall_of_whole {h : Registered η}
    (hs : scan (s.registry e.registry).names content = [m])
    (he : ¬ Spares m (entered e content s)) (hg : (s.registry e.registry).get? m.tag = some h)
    (hstart : m.start = 0) (hstop : m.stop = content.length) :
    IsOneCall call e content s h ⟨.parse e.config m.rawAttributes, m.content, m.tag⟩
      fun out => m.leading ++ out ++ m.trailing := by
  rw [IsOneCall, render_of_not_spares hs he hg]
  simp only [splice_whole hstart hstop]

/-- A single match that is left standing, the whole of a content: no handler is called. -/
theorem render_of_spares_whole (call : Caller η) (hn : (s.registry e.registry).names ≠ [])
    (hs : scan (s.registry e.registry).names content = [m])
    (hm : Spares m (entered e content s)) (hstart : m.start = 0) (hstop : m.stop = content.length) :
    render call e content s = some (.ok m.text.tail.dropLast, { s with
      trail := s.trail ++ [.rendered content.length, .spared]
      profile := s.profile.map fun c => (c.recordRender content.length).recordMatch true false }) := by
  have hh : Handled call (s.registry e.registry) m (entered e content s) _ _ := Handled.spared hm
  have he := Run.Each.cons hh Run.Each.nil
  rw [← hs] at he
  have hr := (Renders.done hn he).eq
  rw [hs, ← splice_eq_interleave (hs ▸ inOrder_scan _ _) _ rfl, List.zip_cons_cons, List.zip_nil_left,
    splice_whole hstart hstop] at hr
  rw [hr]
  simp [entered, Function.comp_def]

/-- A whole tag in one more pair of brackets is one match, and it is escaped. Under a configuration that
lets escaped tags stand it is rendered without the new brackets, and no handler is called. Else one
handler is called, with what it is told of the tag by itself, and its text is put between the
brackets. -/
theorem whole_tag_protected (call : Caller η)
    (hw : IsWholeTag (s.registry e.registry).names content m) :
    scan (s.registry e.registry).names (bracketed content) = [m.wrapped] ∧
      m.wrapped.isEscaped = true ∧
      (e.config.escapes = true → render call e (bracketed content) s = some (.ok content, { s with
        trail := s.trail ++ [.rendered (bracketed content).length, .spared]
        profile := s.profile.map fun c =>
          (c.recordRender (bracketed content).length).recordMatch true false })) ∧
      ∃ h, (s.registry e.registry).get? m.tag = some h ∧
        IsOneCall call e content s h ⟨.parse e.config m.rawAttributes, m.content, m.tag⟩ id ∧
        (e.config.escapes = false → IsOneCall call e (bracketed content) s h
          ⟨.parse e.config m.rawAttributes, m.content, m.tag⟩ bracketed) := by
  obtain ⟨hstart, hstop⟩ := hw.stop_eq
  have hscan := hw.scan_bracketed
  have hstop' : m.wrapped.stop = (bracketed content).length := by
    show m.stop + 2 = _
    simp [bracketed, hstop]
  have hmem : m ∈ scan (s.registry e.registry).names content := by
    simp [hw.1]
  have htag := tag_mem_of_mem_scan hmem
  obtain ⟨h, hg⟩ := OrderedMap.exists_get?_iff.mpr htag
  refine ⟨hscan, rfl, ?_, h, hg, ?_, ?_⟩
  · intro hesc
    have hr := render_of_spares_whole call (List.ne_nil_of_mem htag) hscan ⟨rfl, hesc⟩ hstart hstop'
    have hinner : m.wrapped.text.tail.dropLast = content := by
      show (bracketed m.text).tail.dropLast = content
      simp [bracketed, hw.2.1]
    rw [hr, hinner]
  · have hspares : ¬ Spares m (entered e content s) := by
      rintro ⟨he, -⟩
      simp [TagParts.isEscaped, hw.2.2.1] at he
    have hone : IsOneCall call e content s h _ _ := isOneCall_of_whole hw.1 hspares hg hstart hstop
    rw [hw.2.2.1, hw.2.2.2] at hone
    have hid : (fun out : Text => [] ++ out ++ []) = id := by
      funext out
      simp
    rwa [hid] at hone
  · intro hesc
    have hspares : ¬ Spares m.wrapped (entered e (bracketed content) s) := by
      rintro ⟨-, he⟩
      exact absurd (he.symm.trans hesc) (by simp)
    exact isOneCall_of_whole hscan hspares hg hstart hstop'

/-- An engine with a name that ends with a bracket. -/
def bracketNamed : State Unit where
  registries := [Registry.empty.add ['a', ']'] (some ⟨⟨[], ()⟩, 0⟩)]

/-- A tag with that name, and with a text that the tag encloses. -/
def bracketNamedTag : Text := ['[', 'a', ']', 'b', ']', 'x', '[', '/', 'a', ']', ']']

/-- The name of the tag is read over its first bracket, with new brackets around the tag or without. -/
theorem whole_tag_protected_bracket_name : ∃ t u,
    render sayTag ⟨.default, 0⟩ (bracketed bracketNamedTag) bracketNamed =
      some (.ok bracketNamedTag, t) ∧
    render sayTag ⟨⟨.bool false, .bool true⟩, 0⟩ (bracketed bracketNamedTag) bracketNamed =
      some (.ok ['[', 'a', ']', ']'], u) := by
  have hw : IsWholeTag (bracketNamed.registry 0).names bracketNamedTag
      ⟨⟨[], ['a', ']'], ['b'], false, some ['x'], [], bracketNamedTag⟩, 0, 11⟩ :=
    ⟨by decide, rfl, rfl, rfl⟩
  obtain ⟨-, -, hon, -⟩ := @whole_tag_protected Unit _ _ ⟨.default, 0⟩ bracketNamed sayTag hw
  obtain ⟨-, -, -, h, hg, -, hoff⟩ :=
    @whole_tag_protected Unit _ _ ⟨⟨.bool false, .bool true⟩, 0⟩ bracketNamed sayTag hw
  obtain rfl := Option.some.inj hg
  exact ⟨_, _, hon rfl, hoff rfl⟩

end Engine
end Shortcode
