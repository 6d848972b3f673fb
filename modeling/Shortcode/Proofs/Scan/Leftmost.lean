import Shortcode.Proofs.Pattern.Occurrence
import Shortcode.Proofs.Scan.Offsets

/-! A scan finds the leftmost matches of the pattern, and their offsets describe them. -/
namespace Shortcode.Scan
open Text
variable {names : List Text} {content t : Text} {start : Nat} {m m' : TagMatch}
  {ms : List TagMatch}

/-- What a search finds from `pos` on: the match at the first place where one can start, and then
what a search from its end finds. -/
inductive Finds (names : List Text) (content : Text) : (pos : Nat) → List TagMatch → Prop
  | none {pos : Nat} (h : ∀ p, pos ≤ p → ¬ Starts names content p) : Finds names content pos []
  | some {pos : Nat} {m : TagMatch} {ms : List TagMatch}
      (hs : IsLeast {p | pos ≤ p ∧ Starts names content p} m.start)
      (hm : ∃ l : Layout, l.Describes names content m)
      (hf : Finds names content m.stop ms) : Finds names content pos (m :: ms)

theorem Layout.Opening.bracket_unique {l l' : Layout} (h : l.Opening names content m)
    (h' : l'.Opening names content m') (hs : m.start = m'.start) :
    l.bracket = l'.bracket ∧ m.leading = m'.leading := by
  have ho := h.tag.opens
  have ho' := h'.tag.opens
  rcases h.leading with ⟨hb, hl⟩ | ⟨hb, hl, hn⟩ <;>
    rcases h'.leading with ⟨hb', hl'⟩ | ⟨hb', hl', hn'⟩
  · exact ⟨by rw [hb, hb', hs], by rw [hl, hl', hs]⟩
  · rw [hb, hs] at ho
    exact (hn' ho).elim
  · rw [hb', ← hs] at ho'
    exact (hn ho').elim
  · exact ⟨by rw [hb, hb', hs], by rw [hl, hl']⟩

theorem Layout.Ending.unique {l l' : Layout} (h : l.Ending content m) (h' : l'.Ending content m')
    (hc : l.close = l'.close) (ht : m.tag = m'.tag) :
    m.content = m'.content ∧ l.last = l'.last := by
  rcases h.enclosed with ⟨k, hk, he, hl⟩ | ⟨hn, he, hl⟩ <;>
    rcases h'.enclosed with ⟨k', hk', he', hl'⟩ | ⟨hn', he', hl'⟩
  · rw [← hc, ← ht] at hk'
    obtain rfl := hk.unique hk'
    exact ⟨by rw [he, he', hc], by rw [hl, hl', ht]⟩
  · rw [← hc, ← ht] at hn'
    exact (hn' k hk.1.1 hk.1.2).elim
  · rw [hc, ht] at hn
    exact (hn k' hk'.1.1 hk'.1.2).elim
  · exact ⟨by rw [he, he'], by rw [hl, hl', hc]⟩

/-- There is one match at each place. -/
theorem Layout.Describes.unique {l l' : Layout} (h : l.Describes names content m)
    (h' : l'.Describes names content m') (hs : m.start = m'.start) : m = m' := by
  obtain ⟨ho, he⟩ := h
  obtain ⟨ho', he'⟩ := h'
  obtain ⟨hb, hlead⟩ := ho.bracket_unique ho' hs
  have htag : m.tag = m'.tag := ho.tag.unique (hb ▸ ho'.tag)
  have hclose : l.close = l'.close := by
    have hq := ho'.close
    rw [← hb, ← htag] at hq
    exact ho.close.unique hq
  have hself : m.selfClosing = m'.selfClosing := by
    rw [Bool.eq_iff_iff, ho.selfClosing, ho'.selfClosing, hb, htag, hclose]
  have hraw : m.rawAttributes = m'.rawAttributes := by
    rw [ho.rawAttributes, ho'.rawAttributes, hb, htag, hclose, hself]
  obtain ⟨hcontent, hlast⟩ := he.unique he' hclose htag
  have htrail : m.trailing = m'.trailing := by rw [he.trailing, he'.trailing, hlast]
  have hstop : m.stop = m'.stop := by rw [he.stop, he'.stop, hlast, htrail]
  have htext : m.text = m'.text := by rw [he.text, he'.text, hs, hstop]
  obtain ⟨⟨_, _, _, _, _, _, _⟩, _, _⟩ := m
  obtain ⟨⟨_, _, _, _, _, _, _⟩, _, _⟩ := m'
  simp_all

theorem finds_of_succ (h : ¬ Starts names content start) (hf : Finds names content (start + 1) ms) :
    Finds names content start ms := by
  have hp : ∀ p, start ≤ p → Starts names content p → start + 1 ≤ p := by
    intro p hp hs
    have hne : p ≠ start := by
      rintro rfl
      exact h hs
    omega
  cases hf with
  | none hn => exact Finds.none fun p hsp hs => hn p (hp p hsp hs) hs
  | some hl hm hf =>
    refine Finds.some ⟨⟨Nat.le_of_succ_le hl.1.1, hl.1.2⟩, ?_⟩ hm hf
    rintro p ⟨hsp, hs⟩
    exact hl.2 ⟨hp p hsp hs, hs⟩

theorem finds_of_found (h : Found names start t ms) (ht : content.drop start = t) :
    Finds names content start ms := by
  induction h with
  | @nil start =>
    refine Finds.none ?_
    rintro p hp (⟨_, _, hf⟩ | ⟨_, _, hf⟩)
    · have hl := (List.getElem?_eq_some_iff.mp hf.1).1
      have hd := List.drop_eq_nil_iff.mp ht
      omega
    · have hl := (List.getElem?_eq_some_iff.mp hf.1).1
      have hd := List.drop_eq_nil_iff.mp ht
      omega
  | @skip start c rest ms hm _ ih =>
    rw [← ht, matchAt?_drop_eq_none_iff] at hm
    exact finds_of_succ hm (ih (drop_of_drop (u := [c]) ht))
  | @take start m tail ms hm _ ih =>
    rw [← ht] at hm
    have hs := start_of_matchAt? hm
    have hst : Starts names content start := by
      by_contra hn
      rw [matchAt?_drop_eq_none_iff.mpr hn] at hm
      cases hm
    refine Finds.some ⟨⟨hs.ge, hs.symm ▸ hst⟩, ?_⟩ (describes_of_matchAt? hm) (ih ?_)
    · rintro p ⟨hp, -⟩
      omega
    · rw [stop_of_matchAt? hm]
      exact drop_of_drop ht

theorem Finds.unique {ms' : List TagMatch} (h : Finds names content start ms)
    (h' : Finds names content start ms') : ms = ms' := by
  induction h generalizing ms' with
  | none hn =>
    cases h' with
    | none => rfl
    | some hl _ _ => exact (hn _ hl.1.1 hl.1.2).elim
  | some hl hm _ ih =>
    cases h' with
    | none hn => exact (hn _ hl.1.1 hl.1.2).elim
    | some hl' hm' hf' =>
      obtain ⟨l, hd⟩ := hm
      obtain ⟨l', hd'⟩ := hm'
      obtain rfl := hd.unique hd' (hl.unique hl')
      rw [ih hf']

theorem finds_scan (names : List Text) (content : Text) :
    Finds names content 0 (scan names content) :=
  finds_of_found (found_scan names content) rfl

/-- A scan finds exactly the matches of the pattern in the order in which backtracking prefers them,
and these are the matches that their offsets describe, from the first place on. -/
theorem scan_eq_occurrences_and_iff_finds (names : List Text) (content : Text) :
    scan names content = ((Pattern.tag names).occurrences content).map TagMatch.ofOccurrence ∧
      ∀ ms, scan names content = ms ↔ Finds names content 0 ms := by
  have hf := finds_scan names content
  refine ⟨(Pattern.occurrencesAfter_tag names 0 0 none content).symm, ?_⟩
  intro ms
  exact ⟨fun h => h ▸ hf, fun h => hf.unique h⟩

end Shortcode.Scan
