import Shortcode.Proofs.Pattern.Preferred
import Shortcode.Proofs.Scan.Tag

/-! The occurrences of the pattern of a tag are the tags that the direct search finds. -/
namespace Shortcode.Pattern
open Scan
variable {c : Cursor} {names : List Text} {name leading rest : Text}

/-- What follows the opening bracket of a tag. -/
def named (names : List Text) : Pattern := group 2 (oneOf names) ++ (boundary ++ inside)

/-- The place behind an opening whose name is in front of `after`. -/
def opened (c : Cursor) (name after : Text) : Cursor :=
  closed ⟨name.getLast? <|> c.before, after, (c.capture 2 name).taken⟩
    (insideAt after).1 (insideAt after).2

theorem opening_ends (names : List Text) (c : Cursor) : (opening names).ends c =
    (group 1 (optional any) ++ (literal ['['] ++ named names)).ends c := by
  have h (p q : Pattern) : (p ++ q).ends = fun c => (p.ends c).flatMap q.ends := rfl
  simp only [opening, named, inside, slashAndBracket, h, List.flatMap_assoc]

theorem head?_boundary_inside (name : Text) (hb : c.before = (name.getLast? <|> some '[')) :
    ((boundary ++ inside).ends c).head? =
      if admits name c.rest then some (closed c (insideAt c.rest).1 (insideAt c.rest).2)
      else none := by
  have he : boundary.ends c = if Text.isBoundary c.before c.rest.head? then [c] else [] := rfl
  rw [ends_append, he, admits, ← hb]
  by_cases hw : Text.isBoundary c.before c.rest.head? = true
  · rw [if_pos hw, hw, List.flatMap_singleton, Bool.true_and]
    by_cases hm : ']' ∈ c.rest
    · obtain ⟨t, after, ht, hi⟩ := List.eq_append_cons_of_mem hm
      rw [head?_inside_ends ht hi, if_pos (by simpa using hm), ht, insideAt_append hi after]
    · rw [inside_ends_eq_nil hm, if_neg (by simpa using hm), List.head?_nil]
  · rw [if_neg hw, if_neg (by simp [hw]), List.flatMap_nil, List.head?_nil]

/-- The first of the names is taken with which the opening goes on. -/
theorem head?_named_ends (names : List Text) (hc : c.before = some '[') :
    ((named names).ends c).head? = (nameAt? names c.rest).map fun r => opened c r.1 r.2 := by
  rw [named, head?_ends_append, ends_group, List.findSome?_map]
  induction names with
  | nil => rfl
  | cons name names ih =>
    have he : (oneOf (name :: names)).ends c = c.advance name ++ (oneOf names).ends c := rfl
    rw [he, List.findSome?_append, ih]
    by_cases hp : name <+: c.rest
    · obtain ⟨after, ha⟩ := hp
      have hl : c.advance name = [⟨name.getLast? <|> c.before, after, c.taken⟩] :=
        ends_literal_append ha.symm
      have ht : c.textTo ⟨name.getLast? <|> c.before, after, c.taken⟩ = name :=
        textTo_of_append ha.symm
      have hb := head?_boundary_inside name
        (c := Cursor.capture ⟨name.getLast? <|> c.before, after, c.taken⟩ 2 name)
        (by rw [← hc]; rfl)
      have hd : (Cursor.capture ⟨name.getLast? <|> c.before, after, c.taken⟩ 2 name).rest = after :=
        rfl
      rw [hl, List.findSome?_cons, Function.comp_apply, ht, hb, hd]
      by_cases hm : admits name after = true
      · rw [if_pos hm, ← ha, nameAt?_cons_of_admits names hm]
        rfl
      · have hn : ∀ rest, c.rest = name ++ rest → admits name rest = false := by
          intro rest hr
          rw [← ha] at hr
          rw [← List.append_cancel_left hr]
          simpa using hm
        rw [if_neg hm, nameAt?_cons_of_not_admits hn]
        rfl
    · have hl : c.advance name = [] := ends_literal_eq_nil hp
      have hn : ∀ rest, c.rest = name ++ rest → admits name rest = false := by
        intro rest hr
        exact (hp ⟨rest, hr.symm⟩).elim
      rw [hl, nameAt?_cons_of_not_admits hn]
      rfl

/-- The place behind the closer, or behind the opening if there is none. -/
def afterCloser (name : Text) (c : Cursor) : Cursor :=
  match enclosedAt? name c.rest with
  | some (t, after) => ⟨some ']', after, (c.capture 5 t).taken⟩
  | none => c

/-- The place behind a tag and the character that follows it, from the place behind the opening. -/
def finished (name : Text) (c : Cursor) : Cursor :=
  let d := afterCloser name c
  ⟨d.rest.head? <|> d.before, d.rest.drop 1, (d.capture 6 (d.rest.take 1)).taken⟩

theorem head?_optional_enclosed_ends (hn : c.taken 2 = some name) :
    ((optional enclosed).ends c).head? = some (afterCloser name c) := by
  rw [ends_optional, List.head?_append, head?_enclosed_ends hn, afterCloser]
  cases enclosedAt? name c.rest <;> rfl

theorem head?_tag_ends (names : List Text) (c : Cursor) :
    ((tag names).ends c).head? = ((opening names).ends c).head?.bind fun d =>
      ((optional enclosed).ends d).head?.bind fun e =>
        some ⟨e.rest.head? <|> e.before, e.rest.drop 1, (e.capture 6 (e.rest.take 1)).taken⟩ := by
  have hl : ∀ d, (group 6 (optional any)).ends d ≠ [] :=
    fun d => group_ends_ne_nil (optional_ends_ne_nil any d)
  rw [tag, head?_ends_append_of_total hl, head?_ends_append_of_total (optional_ends_ne_nil _),
    Option.bind_assoc]
  simp only [head?_group_optional_any]

/-- The tag that the groups describe, when the opening of a tag follows `leading`. -/
theorem ofOccurrence_finished (start : Nat) (leading name : Text) (hm : ']' ∈ rest) :
    let c : Cursor := ⟨some '[', name ++ rest, fun i => if i = 1 then some leading else none⟩
    let d := finished name (opened c name rest)
    let m := tagOf start leading name rest
    d.rest = behind name rest ∧
      TagMatch.ofOccurrence ⟨start, start + m.text.length, m.text, d.taken⟩ = m := by
  intro c d m
  obtain ⟨u, after, rfl, hu⟩ := List.eq_append_cons_of_mem hm
  have hi := insideAt_append hu after
  cases he : enclosedAt? name after with
  | none =>
    refine ⟨by simp [d, finished, afterCloser, opened, closed, behind, hi, he], ?_⟩
    by_cases hs : u.getLast? = some '/' <;>
      simp [TagMatch.ofOccurrence, tagOf, m, d, c, finished, afterCloser, opened, closed,
        Cursor.capture, hi, he, hs]
  | some r =>
    obtain ⟨t, tail⟩ := r
    refine ⟨by simp [d, finished, afterCloser, opened, closed, behind, hi, he], ?_⟩
    by_cases hs : u.getLast? = some '/' <;>
      simp [TagMatch.ofOccurrence, tagOf, m, d, c, finished, afterCloser, opened, closed,
        Cursor.capture, hi, he, hs]

theorem opened_taken_two (c : Cursor) (name after : Text) :
    (opened c name after).taken 2 = some name := by
  simp only [opened, closed, Cursor.capture]
  split <;> rfl

theorem head?_bracket_named (names : List Text) (c : Cursor) :
    ((literal ['['] ++ named names).ends c).head? = (nameBehind? names c.rest).map fun r =>
      opened ⟨some '[', r.1 ++ r.2, c.taken⟩ r.1 r.2 := by
  rw [ends_append]
  cases hc : c.rest with
  | nil => simp [ends_literal_eq_nil (t := ['[']) (c := c) (by simp [hc]), nameBehind?]
  | cons x rest =>
    by_cases hx : x = '['
    · subst hx
      have hl : (literal ['[']).ends c = [⟨some '[', rest, c.taken⟩] := ends_literal_append hc
      rw [hl, List.flatMap_singleton, head?_named_ends names rfl, nameBehind?, if_pos rfl]
      cases hn : nameAt? names rest with
      | none => rfl
      | some r =>
        obtain ⟨rfl, -⟩ := nameAt?_eq_some_iff.mp hn
        rfl
    · have hl : (literal ['[']).ends c = [] := by
        apply ends_literal_eq_nil
        rw [hc]
        exact fun h => hx (List.cons_prefix_cons.mp h).1.symm
      simp [hl, nameBehind?, hx]

/-- The occurrence whose tag opens behind `leading`. -/
theorem ofOccurrence_of_nameBehind? (start : Nat) (leading : Text)
    (hc : c.taken = fun i => if i = 1 then some leading else none)
    (hn : nameBehind? names c.rest = some (name, rest)) :
    let d := finished name (opened ⟨some '[', name ++ rest, c.taken⟩ name rest)
    let length := (leading ++ c.rest).length - d.rest.length
    TagMatch.ofOccurrence ⟨start, start + length, (leading ++ c.rest).take length, d.taken⟩ =
      tagOf start leading name rest := by
  intro d length
  obtain ⟨hr, hn⟩ := nameBehind?_eq_some_iff.mp hn
  obtain ⟨-, ha, -⟩ := nameAt?_eq_some_iff.mp hn
  have hm := mem_of_admits ha
  obtain ⟨hd, ho⟩ := ofOccurrence_finished start leading name hm
  rw [← hc] at hd ho
  have ht : leading ++ c.rest = (tagOf start leading name rest).text ++ d.rest := by
    rw [hr, hd, tagOf_text_append start leading name hm]
  have hl : length = (tagOf start leading name rest).text.length := by
    simp only [length, ht, List.length_append]
    exact Nat.add_sub_cancel _ _
  rw [hl, ht, List.take_left]
  exact ho

theorem occurrenceAt?_tag (names : List Text) (start : Nat) (before : Option Char) (t : Text) :
    ((tag names).occurrenceAt? start before t).map TagMatch.ofOccurrence =
      matchAt? names start t := by
  rw [occurrenceAt?, head?_tag_ends, opening_ends, head?_ends_append, matchAt?, opensAt?_eq_map,
    opensAt?_eq_map]
  cases t with
  | nil =>
    simp [ends_group, ends_optional, ends.eq_def any, head?_bracket_named, nameBehind?,
      Cursor.capture]
  | cons x t =>
    have ht : (group 1 (optional any)).ends ⟨before, x :: t, fun _ => none⟩ =
        [⟨some x, t, fun i => if i = 1 then some [x] else none⟩,
          ⟨before, x :: t, fun i => if i = 1 then some [] else none⟩] := by
      simp [ends, Cursor.textTo, Cursor.capture]
    rw [ht, List.findSome?_cons, List.findSome?_cons, head?_bracket_named, head?_bracket_named]
    cases hb : nameBehind? names t with
    | some r =>
      have ho := ofOccurrence_of_nameBehind? start [x]
        (c := ⟨some x, t, fun i => if i = 1 then some [x] else none⟩) rfl hb
      simp only [Option.map_some, Option.bind_some, List.drop_succ_cons, List.drop_zero, hb,
        head?_optional_enclosed_ends (opened_taken_two _ _ _)]
      exact congrArg some ho
    | none =>
      cases hf : nameBehind? names (x :: t) with
      | none => simp [hb]
      | some r =>
        have ho := ofOccurrence_of_nameBehind? start []
          (c := ⟨before, x :: t, fun i => if i = 1 then some [] else none⟩) rfl hf
        simp only [Option.map_some, Option.map_none, Option.bind_some,
          List.drop_succ_cons, List.drop_zero, hb,
          head?_optional_enclosed_ends (opened_taken_two _ _ _)]
        exact congrArg some ho

theorem occurrencesAfter_tag (names : List Text) (skip start : Nat) (before : Option Char)
    (t : Text) : ((tag names).occurrencesAfter skip start before t).map TagMatch.ofOccurrence =
      scanAfter names skip start t := by
  induction t generalizing skip start before with
  | nil => cases skip <;> rfl
  | cons c t ih =>
    cases skip with
    | succ skip => exact ih skip (start + 1) (some c)
    | zero =>
      have hm := occurrenceAt?_tag names start before (c :: t)
      cases ho : (tag names).occurrenceAt? start before (c :: t) with
      | none =>
        rw [ho, Option.map_none] at hm
        simp [occurrencesAfter, scanAfter, ho, ← hm, ih]
      | some o =>
        rw [ho, Option.map_some] at hm
        simp [occurrencesAfter, scanAfter, ho, ← hm, ih, TagMatch.ofOccurrence]

end Shortcode.Pattern
