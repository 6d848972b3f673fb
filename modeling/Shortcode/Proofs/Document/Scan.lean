import Shortcode.Proofs.Document.Basic
import Shortcode.Proofs.Engine.Strip
import Shortcode.Proofs.Scan.Replace

/-! Scanning a printed document gives its elements back. The character in front of an element and
the one behind it go with its match, so what is left to scan behind the match is again a printed
document whose first chunk is cut. -/
namespace Shortcode
open Scan
variable {names : List Text} {t u leading after : Text} {e : Element}
  {more : List (Element × Text)} {start : Nat}

namespace Element

theorem Proper.head_inside_not_word (he : e.Proper names) (t : Text) :
    ∀ c ∈ (e.inside ++ ']' :: t).head?, Text.isWord c = false := by
  intro c hc
  cases ha : e.attributes with
  | nil =>
    cases hs : e.slashed with
    | true =>
      rw [inside, ha, hs] at hc
      obtain rfl := Option.some.inj hc
      decide
    | false =>
      rw [inside, ha, hs] at hc
      obtain rfl := Option.some.inj hc
      decide
  | cons d a =>
    rw [inside, ha] at hc
    obtain rfl := Option.some.inj hc
    exact he.head_not_word d (by rw [ha]; rfl)

theorem Proper.bracket_notMem_inside (he : e.Proper names) : ']' ∉ e.inside := by
  have hb := he.bracket_notMem
  cases hs : e.slashed <;> simp [inside, hs, hb]

theorem Proper.slash_iff (he : e.Proper names) :
    e.inside.getLast? = some '/' ↔ e.slashed = true := by
  cases hs : e.slashed with
  | true => simp [inside, hs]
  | false =>
    have hf : e.form ≠ .slash := by simpa [slashed] using hs
    simpa [inside, hs] using he.getLast_ne_slash hf

theorem Proper.enclosedAt? (he : e.Proper names) (hn : IsWordName e.name)
    (hc : e.body? = none → ¬ closer e.name <:+: after) :
    Scan.enclosedAt? e.name (e.ending ++ after) = e.body?.map fun body => (body, after) := by
  cases hb : e.body? with
  | none =>
    rw [ending, hb]
    exact enclosedAt?_of_notInfix (hc hb)
  | some body =>
    have ha : Scan.enclosedAt? e.name (body ++ (closer e.name ++ after)) = some (body, after) :=
      enclosedAt?_append (hn.notMem (by decide)) (he.body_ne_nil body hb)
        (he.closer_notInfix body hb)
    rw [ending, hb]
    simpa using ha

/-- What follows the name of an element that is printed in front of `after`. -/
def rest (e : Element) (after : Text) : Text := e.inside ++ ']' :: (e.ending ++ after)

/-- What follows the tag of an element. -/
theorem Proper.after_eq (he : e.Proper names) (hn : IsWordName e.name)
    (hc : e.body? = none → ¬ closer e.name <:+: after) :
    ((Scan.enclosedAt? e.name (e.ending ++ after)).map (·.2)).getD (e.ending ++ after) = after := by
  rw [he.enclosedAt? hn hc]
  cases hb : e.body? with
  | none => simp [ending, hb]
  | some body => rfl

theorem Proper.trailing_eq (he : e.Proper names) (hn : IsWordName e.name)
    (hc : e.body? = none → ¬ closer e.name <:+: after) (start : Nat) (leading : Text) :
    (tagOf start leading e.name (e.rest after)).trailing = after.take 1 := by
  have ht := tagOf_trailing start leading e.name (e.ending ++ after) he.bracket_notMem_inside
  rw [he.after_eq hn hc] at ht
  exact ht

/-- The tag of an element gives it back. -/
theorem Proper.readAs (he : e.Proper names) (hn : IsWordName e.name)
    (hc : e.body? = none → ¬ closer e.name <:+: after)
    (hl : leading = ['['] ↔ e.wrapped = true) (ht : e.wrapped = true → after.take 1 = [']'])
    (start : Nat) : e.ReadAs (tagOf start leading e.name (e.rest after)) := by
  have hu := he.bracket_notMem_inside
  refine ⟨rfl, ?_, ?_, ?_, ?_⟩
  · have hr := tagOf_rawAttributes start leading e.name (e.ending ++ after) hu
    cases hs : e.slashed with
    | true =>
      rw [if_pos (he.slash_iff.mpr hs)] at hr
      exact hr.trans (by simp [inside, hs])
    | false =>
      have hg : e.inside.getLast? ≠ some '/' := by
        intro hg
        rw [he.slash_iff.mp hg] at hs
        cases hs
      rw [if_neg hg] at hr
      exact hr.trans (by simp [inside, hs])
  · rw [Bool.eq_iff_iff]
    exact (tagOf_selfClosing start leading e.name (e.ending ++ after) hu).trans he.slash_iff
  · have hx := tagOf_content start leading e.name (e.ending ++ after) hu
    rw [he.enclosedAt? hn hc] at hx
    exact hx.trans (by cases e.body? <;> rfl)
  · have hlead : (tagOf start leading e.name (e.rest after)).leading = leading := rfl
    rw [TagParts.isEscaped, he.trailing_eq hn hc, hlead, Bool.eq_iff_iff, Bool.and_eq_true,
      beq_iff_eq, beq_iff_eq, hl]
    exact ⟨fun h => h.1, fun h => ⟨h, ht h⟩⟩

/-- The tag of an element is found where the element is printed. -/
theorem Proper.matchAt? (he : e.Proper names) (hn : ∀ n ∈ names, IsWordName n)
    (hl : leading.length ≤ 1) (start : Nat) (after : Text) :
    Scan.matchAt? names start (leading ++ '[' :: (e.name ++ e.rest after)) =
      some (tagOf start leading e.name (e.rest after)) := by
  apply matchAt?_of_nameAt? hl (hn e.name he.name_mem)
  apply nameAt?_append hn he.name_mem
  · exact he.head_inside_not_word _
  · simp [rest]

theorem Proper.text_append (he : e.Proper names) (hn : IsWordName e.name)
    (hc : e.body? = none → ¬ closer e.name <:+: after) (start : Nat) (leading : Text) :
    (tagOf start leading e.name (e.rest after)).text ++ after.drop 1 =
      leading ++ '[' :: (e.name ++ e.rest after) := by
  have hm : ']' ∈ e.rest after := by simp [rest]
  have hb := behind_append e.name (e.ending ++ after) he.bracket_notMem_inside
  rw [he.after_eq hn hc] at hb
  have ht := tagOf_text_append start leading e.name hm
  rw [rest, hb] at ht
  exact ht

end Element

namespace Document

theorem print_cons (t u : Text) (e : Element) (more : List (Element × Text)) :
    print t ((e, u) :: more) =
      t ++ e.front ++ '[' :: (e.name ++ e.rest (e.back ++ print u more)) := by
  simp [print, Element.text, Element.rest]

/-- What stands in front of a tag, cut in front of the character that goes with its match. -/
theorem exists_leading (ht : '[' ∉ t) (e : Element) :
    ∃ gap leading, t ++ e.front = gap ++ leading ∧ leading.length ≤ 1 ∧
      (leading = [] → gap = []) ∧ '[' ∉ gap ∧ (leading = ['['] ↔ e.wrapped = true) := by
  cases hw : e.wrapped with
  | true => exact ⟨t, ['['], by simp [Element.front, hw], by simp, by simp, ht, by simp⟩
  | false =>
    rcases List.eq_nil_or_concat t with rfl | ⟨v, c, rfl⟩
    · exact ⟨[], [], by simp [Element.front, hw], by simp, by simp, by simp, by simp⟩
    · have hv : '[' ∉ v ∧ '[' ≠ c := by simpa [not_or] using ht
      refine ⟨v, [c], by simp [Element.front, hw], by simp, by simp, hv.1, ?_⟩
      simpa using hv.2.symm

/-- What is left of the chunk behind an element when the character behind it goes with its match. -/
theorem exists_trailing (hu : more ≠ [] → u ≠ []) (e : Element) :
    ∃ rest, (e.back ++ print u more).drop 1 = print rest more ∧ rest <:+ u ∧
      e.back ++ u = (e.back ++ print u more).take 1 ++ rest ∧
      (e.wrapped = true → (e.back ++ print u more).take 1 = [']']) := by
  cases hw : e.wrapped with
  | true => exact ⟨u, by simp [Element.back, hw], List.suffix_refl u, by simp [Element.back, hw],
      fun _ => by simp [Element.back, hw]⟩
  | false =>
    cases u with
    | nil =>
      have hm : more = [] := by
        by_contra hm
        exact hu hm rfl
      subst hm
      exact ⟨[], by simp [Element.back, hw, print], List.suffix_refl [],
        by simp [Element.back, hw, print], by simp⟩
    | cons c u =>
      have hp : print (c :: u) more = c :: print u more := print_append [c] u more
      exact ⟨u, by simp [Element.back, hw, hp], List.suffix_cons c u,
        by simp [Element.back, hw, hp], by simp⟩

/-- A scan of a document begins with the match of its first element and goes on with a scan of what
is left behind it. -/
theorem scan_element (hn : ∀ n ∈ names, IsWordName n) (hw : WellFormed names t ((e, u) :: more))
    (start : Nat) : ∃ m gap rest, e.ReadAs m ∧ WellFormed names rest more ∧
      t ++ e.front = gap ++ m.leading ∧ e.back ++ u = m.trailing ++ rest ∧
      scanAfter names 0 start (print t ((e, u) :: more)) =
        m :: scanAfter names 0 m.stop (print rest more) ∧
      ∀ out rs, spliceFrom start (print t ((e, u) :: more)) ((m, out) :: rs) =
        gap ++ (out ++ spliceFrom m.stop (print rest more) rs) := by
  obtain _ | ⟨ht, he, hc, hu, hmore⟩ := hw
  obtain ⟨gap, leading, hfront, hlen, hgap, hbracket, hlead⟩ := exists_leading ht e
  obtain ⟨rest, hdrop, hsuffix, hback, htake⟩ := exists_trailing hu e
  have hname := hn e.name he.name_mem
  have hread := he.readAs hname hc hlead htake (start + gap.length)
  have htrail := he.trailing_eq hname hc (start + gap.length) leading
  have htext := he.text_append hname hc (start + gap.length) leading
  have hfound := he.matchAt? hn hlen (start + gap.length) (e.back ++ print u more)
  rw [hdrop] at htext
  rw [← htext] at hfound
  -- in front of its bracket a tag is passed over only if no tag opens at the character between
  have hskip : gap ≠ [] → nameBehind? names
      (leading ++ '[' :: (e.name ++ e.rest (e.back ++ print u more))) = none := by
    intro hne
    cases leading with
    | nil => exact (hne (hgap rfl)).elim
    | cons c l =>
      obtain rfl : l = [] := List.length_eq_zero_iff.mp (by simpa using hlen)
      exact nameBehind?_cons_bracket hn c _
  have hprint := print_cons t u e more
  rw [hfront, List.append_assoc] at hprint
  rw [← htext] at hskip hprint
  refine ⟨_, gap, rest, hread, hmore.of_suffix hsuffix, hfront, htrail ▸ hback, ?_, ?_⟩
  · rw [hprint, scanAfter_gap hbracket hskip, scanAfter_of_some hfound]
  · intro out rs
    have hstart := start_of_matchAt? hfound
    have hstop := stop_of_matchAt? hfound
    have hlen := two_le_of_matchAt? hfound
    rw [hprint, spliceFrom_append, spliceFrom_match hstart hstop]
    rintro _ ⟨⟩
    refine ⟨Nat.le_of_eq hstart.symm, ?_⟩
    dsimp only
    omega

theorem scanAfter_print (hn : ∀ n ∈ names, IsWordName n) (hw : WellFormed names t more)
    (start : Nat) :
    List.Forall₂ Element.ReadAs (more.map (·.1)) (scanAfter names 0 start (print t more)) ∧
      replaceFrom names (fun m => m.context) start (print t more) = bare t more := by
  induction more generalizing t start with
  | nil =>
    have hs : scanAfter names 0 start (t ++ []) = [] := scanAfter_gap hw.notMem fun _ => rfl
    have hr : replaceFrom names (fun m => m.context) start (t ++ []) = t ++ [] :=
      replaceFrom_gap hw.notMem fun _ => rfl
    rw [List.append_nil] at hs hr
    rw [print, hs, hr]
    exact ⟨List.Forall₂.nil, rfl⟩
  | cons p more ih =>
    obtain ⟨e, u⟩ := p
    obtain ⟨m, gap, rest, hread, hrest, hfront, hback, hscan, hreplace⟩ := scan_element hn hw start
    obtain ⟨hall, hbare⟩ := ih hrest m.stop
    refine ⟨?_, ?_⟩
    · rw [hscan]
      exact List.Forall₂.cons hread hall
    · calc replaceFrom names (fun m => m.context) start (print t ((e, u) :: more))
          = gap ++ m.leading ++ (m.trailing ++ bare rest more) := by
            rw [replaceFrom, hscan, List.map_cons, hreplace, ← replaceFrom, hbare]
            simp [TagParts.context]
        _ = t ++ e.front ++ (e.back ++ bare u more) := by
            rw [← hfront, ← bare_append, ← hback, bare_append]
        _ = bare t ((e, u) :: more) := by
            cases hw : e.wrapped <;> simp [bare, Element.front, Element.back, hw]

/-- A scan of a printed document gives its elements back one by one, and stripping it leaves the
chunks and the brackets of the wrapped elements. -/
theorem scan_and_strip_print (hn : ∀ n ∈ names, IsWordName n) (hw : WellFormed names t more) :
    List.Forall₂ Element.ReadAs (more.map (·.1)) (scan names (print t more)) ∧
      ∀ (η : Type) (g : Engine) (s : State η), (s.registry g.registry).names = names →
        ∃ s', g.strip (print t more) s = some (.ok (bare t more), s') := by
  obtain ⟨hread, hbare⟩ := scanAfter_print hn hw 0
  refine ⟨hread, ?_⟩
  intro η g s hs
  obtain ⟨s', hstrip⟩ := g.strip_apply (print t more) s
  refine ⟨s', ?_⟩
  rw [hstrip, hs, stripText_eq_replaceFrom, hbare]

/-- A wrapped element that encloses a text, and one with a slash. -/
theorem scan_and_strip_print_two :
    List.Forall₂ Element.ReadAs
        [⟨['a'], [' ', 'k'], .enclosing ['b'], true⟩, ⟨['a'], [], .slash, false⟩]
        (scan [['a']] ['x', '[', '[', 'a', ' ', 'k', ']', 'b', '[', '/', 'a', ']', ']', 'y', '[',
          'a', '/', ']']) ∧
      ∃ s', Engine.strip ⟨.default, 0⟩ ['x', '[', '[', 'a', ' ', 'k', ']', 'b', '[', '/', 'a', ']',
          ']', 'y', '[', 'a', '/', ']']
        ({ registries := [Registry.empty.add ['a'] (some ⟨⟨[], ()⟩, 0⟩)] } : State Unit) =
          some (.ok ['x', '[', ']', 'y'], s') := by
  have hn : ∀ n ∈ [['a']], IsWordName n := by
    intro n hm
    obtain rfl := List.mem_singleton.mp hm
    refine ⟨by decide, ?_⟩
    intro c hc
    obtain rfl := List.mem_singleton.mp hc
    decide
  have hfirst : Element.Proper [['a']] ⟨['a'], [' ', 'k'], .enclosing ['b'], true⟩ := by
    refine ⟨by decide, by decide, ?_, by decide, by decide, by decide⟩
    rintro c ⟨⟩
    decide
  have hsecond : Element.Proper [['a']] ⟨['a'], [], .slash, false⟩ :=
    ⟨by decide, by decide, nofun, by decide, by decide, by decide⟩
  have hw : WellFormed [['a']] ['x'] [(⟨['a'], [' ', 'k'], .enclosing ['b'], true⟩, ['y']),
      (⟨['a'], [], .slash, false⟩, [])] :=
    WellFormed.element (by decide) hfirst (by decide) (by decide)
      (WellFormed.element (by decide) hsecond (by decide) (by decide)
        (WellFormed.chunk (by decide)))
  obtain ⟨hread, hstrip⟩ := scan_and_strip_print hn hw
  exact ⟨hread, hstrip Unit ⟨.default, 0⟩ _ rfl⟩

end Document
end Shortcode
