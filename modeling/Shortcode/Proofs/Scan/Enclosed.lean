import Shortcode.Proofs.Engine.Render

/-! Which matches enclose a text: those behind whose opening a closer of their name follows, whether
or not the opening ends with a slash. -/
namespace Shortcode

/-- The offset behind the opening of a tag, where an enclosed text begins. -/
def TagMatch.bodyStart (m : TagMatch) : Nat :=
  m.start + m.leading.length + 1 + m.tag.length + m.rawAttributes.length + m.selfClosing.toNat + 1

namespace Scan
variable {names : List Text} {content body : Text} {pos k : Nat} {m : TagMatch}
  {ms : List TagMatch} {l : Layout}

theorem Layout.Describes.bracket_eq (h : l.Describes names content m) :
    l.bracket = m.start + m.leading.length := by
  have hlt := (List.getElem?_eq_some_iff.mp h.1.tag.1.1).1
  rcases h.1.leading with ⟨hb, hl⟩ | ⟨hb, hl, -⟩
  · have hlen := congrArg List.length hl
    simp only [List.extract_eq_take_drop, List.length_take, List.length_drop] at hlen
    omega
  · simp [hb, hl]

theorem Layout.Describes.bodyStart_eq (h : l.Describes names content m) :
    m.bodyStart = l.close + 1 := by
  have hb := h.bracket_eq
  have hq := h.1.close.1.1
  have hlt := (List.getElem?_eq_some_iff.mp h.1.close.1.2).1
  have hlen := congrArg List.length h.1.rawAttributes
  simp only [List.extract_eq_take_drop, List.length_take, List.length_drop] at hlen
  cases hs : m.selfClosing with
  | true =>
    have hslash := (h.1.selfClosing.mp hs).1
    simp only [TagMatch.bodyStart, hs, Bool.toNat_true] at hlen ⊢
    omega
  | false =>
    simp only [TagMatch.bodyStart, hs, Bool.toNat_false] at hlen ⊢
    omega

theorem Finds.exists_describes (h : Finds names content pos ms) :
    ∀ m ∈ ms, ∃ l : Layout, l.Describes names content m := by
  induction h with
  | none => simp
  | some _ hd _ ih =>
    intro m hm
    rcases List.mem_cons.mp hm with rfl | hm
    · exact hd
    · exact ih m hm

/-- No closer of its name follows the opening of a match, behind one character at least. -/
def Unclosed (content : Text) (m : TagMatch) : Prop :=
  ∀ k, m.bodyStart < k → ¬ closer m.tag <+: content.drop k

/-- A match encloses the text up to the first closer of its name, if there is one. -/
theorem Layout.Describes.content_eq_some_iff (h : l.Describes names content m) :
    m.content = some body ↔
      ∃ k, IsLeast {k | m.bodyStart < k ∧ closer m.tag <+: content.drop k} k ∧
        body = content.extract m.bodyStart k := by
  rw [h.bodyStart_eq]
  rcases h.2.enclosed with ⟨k, hk, hc, -⟩ | ⟨hn, hc, -⟩
  · rw [hc]
    constructor
    · intro hb
      exact ⟨k, hk, (Option.some.inj hb).symm⟩
    · rintro ⟨k', hk', rfl⟩
      rw [hk.unique hk']
  · rw [hc]
    constructor
    · rintro ⟨⟩
    · rintro ⟨k, hk, -⟩
      exact (hn k hk.1.1 hk.1.2).elim

theorem Layout.Describes.content_eq_none_iff (h : l.Describes names content m) :
    m.content = none ↔ Unclosed content m := by
  rw [Unclosed, h.bodyStart_eq]
  rcases h.2.enclosed with ⟨k, hk, hc, -⟩ | ⟨hn, hc, -⟩
  · rw [hc]
    constructor
    · rintro ⟨⟩
    · intro hn
      exact (hn k hk.1.1 hk.1.2).elim
  · exact ⟨fun _ => hn, fun _ => hc⟩

theorem content_eq_none_iff (hm : m ∈ scan names content) :
    m.content = none ↔ Unclosed content m := by
  obtain ⟨l, hd⟩ := (finds_scan names content).exists_describes m hm
  exact hd.content_eq_none_iff

theorem content_eq_some_iff (hm : m ∈ scan names content) :
    m.content = some body ↔
      ∃ k, IsLeast {k | m.bodyStart < k ∧ closer m.tag <+: content.drop k} k ∧
        body = content.extract m.bodyStart k := by
  obtain ⟨l, hd⟩ := (finds_scan names content).exists_describes m hm
  exact hd.content_eq_some_iff

/-- Tags with a slash have no content exactly if no closers of their names follow them; else the
slash makes no difference to what a match encloses, and the handler is told just that. -/
theorem selfClosing_without_content_iff (names : List Text) (content : Text) :
    ((∀ m ∈ scan names content, m.selfClosing = true → m.content = none) ↔
      ∀ m ∈ scan names content, m.selfClosing = true → Unclosed content m) ∧
    ∀ m ∈ scan names content,
      (∀ body, m.content = some body ↔
        ∃ k, IsLeast {k | m.bodyStart < k ∧ closer m.tag <+: content.drop k} k ∧
          body = content.extract m.bodyStart k) ∧
      ∀ (η : Type) (call : Caller η) handlers s o, Engine.Calls call handlers m s o →
        ∃ h, handlers.get? m.tag = some h ∧
          call h.handler (Engine.callFor m s)
            ((Engine.begun h (Engine.callFor m s) s).callCount h.object)
            (Engine.begun h (Engine.callFor m s) s) = o ∧
          (Engine.callFor m s).tag = m.tag ∧
          ((Engine.callFor m s).content = none ↔ Unclosed content m) := by
  refine ⟨?_, ?_⟩
  · constructor
    · intro h m hm hs
      exact (content_eq_none_iff hm).mp (h m hm hs)
    · intro h m hm hs
      exact (content_eq_none_iff hm).mpr (h m hm hs)
  · intro m hm
    refine ⟨fun body => content_eq_some_iff hm, ?_⟩
    rintro η call handlers s o ⟨-, h, hh, ho⟩
    exact ⟨h, hh, ho, rfl, content_eq_none_iff hm⟩

/-- Two tags with a slash; a closer follows the first one only. -/
def slashes : Text :=
  ['[', 'a', '/', ']', 'x', '[', '/', 'a', ']', '-', '[', 'b', '/', ']']

/-- A handler that gives back what is enclosed. -/
def giveBack : Caller Unit := fun _ c _ => pure (c.body, [])

def onlyB : Registry (Registered Unit) := Registry.empty.add ['b'] (some ⟨⟨[], ()⟩, 0⟩)

theorem selfClosing_without_content_two :
    ∃ m m', scan [['a'], ['b']] slashes = [m, m'] ∧ m.selfClosing = true ∧
      m'.selfClosing = true ∧
      (∃ k, IsLeast {k | m.bodyStart < k ∧ closer m.tag <+: slashes.drop k} k ∧
        ['x'] = slashes.extract m.bodyStart k) ∧
      (¬ ∀ m'' ∈ [m, m'], m''.selfClosing = true → Unclosed slashes m'') ∧
      ∃ s t h, s = ({} : State Unit) ∧ onlyB.get? m'.tag = some h ∧
        giveBack h.handler (Engine.callFor m' s)
          ((Engine.begun h (Engine.callFor m' s) s).callCount h.object)
          (Engine.begun h (Engine.callFor m' s) s) = some (.ok ([], []), t) ∧
        (Engine.callFor m' s).tag = m'.tag ∧
        ((Engine.callFor m' s).content = none ↔ Unclosed slashes m') := by
  obtain ⟨m, m', t, hs, hm, hm', hc, hh⟩ : ∃ m m' t, scan [['a'], ['b']] slashes = [m, m'] ∧
      m.selfClosing = true ∧ m'.selfClosing = true ∧ m.content = some ['x'] ∧
      Engine.Calls giveBack onlyB m' {} (some (.ok ([], []), t)) :=
    ⟨_, _, _, rfl, rfl, rfl, rfl, fun hs => Bool.false_ne_true hs.1, _, rfl, rfl⟩
  obtain ⟨hall, heach⟩ := selfClosing_without_content_iff [['a'], ['b']] slashes
  rw [hs] at hall heach
  obtain ⟨h, hg, hcall⟩ := (heach m' (by simp)).2 Unit giveBack onlyB {} _ hh
  refine ⟨m, m', hs, hm, hm', ((heach m (by simp)).1 ['x']).mp hc, ?_, {}, t, h, rfl, hg, hcall⟩
  intro hu
  have hn := hall.mpr hu m (by simp) hm
  rw [hc] at hn
  cases hn

/-- A tag with a slash can enclose a text. -/
theorem not_content_eq_none_of_selfClosing :
    ¬ ∀ (names : List Text) (content : Text), ∀ m ∈ scan names content,
      m.selfClosing = true → m.content = none := by
  intro h
  have hm : tagOf 0 [] ['a'] ['/', ']', 'x', '[', '/', 'a', ']'] ∈
      scan [['a']] ['[', 'a', '/', ']', 'x', '[', '/', 'a', ']'] := by decide
  exact absurd (h _ _ _ hm (by decide)) (by decide)

end Scan
end Shortcode
