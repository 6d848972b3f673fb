import Shortcode.Proofs.Engine.Render

/-! A name in brackets. Which tag it is, is settled by the first registered name that stands at its
front with the edge of a word behind it, and that need not be the whole name. -/
namespace Shortcode
open Scan
variable {η : Type} {names : List Text} {name n rest content : Text} {m : TagMatch}

namespace Scan

/-- A name that a tag is meant to have: not empty, without brackets and white space. -/
def IsTagName (name : Text) : Prop :=
  name ≠ [] ∧ ∀ c ∈ name, c ≠ '[' ∧ c ≠ ']' ∧ Text.isBlank c = false

instance (name : Text) : Decidable (IsTagName name) :=
  inferInstanceAs (Decidable (_ ∧ _))

/-- A name in brackets alone. -/
def bracketed (name : Text) : Text := '[' :: (name ++ [']'])

/-- A text stands at the front of a name, and a word ends or begins behind it. The end of the name is
no word character. -/
def Leads (n name : Text) : Prop :=
  ∃ rest, name = n ++ rest ∧ Text.isBoundary n.getLast? rest.head? = true

theorem leads_self_iff : Leads name name ↔ name.getLast?.any Text.isWord = true := by
  constructor
  · rintro ⟨rest, hr, hb⟩
    obtain rfl : rest = [] := by simpa using hr
    simpa [Text.isBoundary] using hb
  · intro hw
    exact ⟨[], by simp, by simpa [Text.isBoundary] using hw⟩

theorem admits_append_bracket (hn : n ≠ []) (rest : Text) :
    admits n (rest ++ [']']) = Text.isBoundary n.getLast? rest.head? := by
  have hw : Text.isWord ']' = false := by decide
  obtain ⟨u, c, rfl⟩ := (List.eq_nil_or_concat n).resolve_left hn
  cases rest <;> simp [admits, Text.isBoundary, hw]

/-- A name that is read in front of a closing bracket leads the text there. -/
theorem nameAt?_append_bracket_eq_none_iff (hn : ∀ n ∈ names, IsTagName n) (hc : ']' ∉ name) :
    nameAt? names (name ++ [']']) = none ↔ ∀ n ∈ names, ¬ Leads n name := by
  rw [nameAt?_eq_none_iff]
  constructor
  · rintro h n hm ⟨rest, rfl, hb⟩
    have ha := h n hm (rest ++ [']']) (List.append_assoc n rest [']'])
    rw [admits_append_bracket (hn n hm).1, hb] at ha
    cases ha
  · intro h n hm rest hr
    rcases List.append_eq_append_iff.mp hr with ⟨u, rfl, hu⟩ | ⟨u, rfl, rfl⟩
    · -- the closing bracket is no part of a name, so nothing is left of it for one
      cases u with
      | nil =>
        obtain rfl : [']'] = rest := hu
        have hb := admits_append_bracket (hn _ hm).1 []
        rw [List.nil_append] at hb
        rw [hb, ← Bool.not_eq_true]
        intro hw
        exact h _ hm ⟨[], by simp, hw⟩
      | cons c u =>
        obtain ⟨rfl, -⟩ := List.cons.inj hu
        exact (((hn _ hm).2 ']' (by simp)).2.1 rfl).elim
    · rw [admits_append_bracket (hn n hm).1, ← Bool.not_eq_true]
      intro hw
      exact h n hm ⟨u, rfl, hw⟩

/-- The match of a name in brackets, if its first part is read as the name of the tag. -/
def bracketedMatch (n rest : Text) : TagMatch := tagOf 0 [] n (rest ++ [']'])

theorem bracketedMatch_spec (n : Text) (hc : ']' ∉ rest) :
    (bracketedMatch n rest).text = bracketed (n ++ rest) ∧
      (bracketedMatch n rest).trailing = [] ∧ (bracketedMatch n rest).content = none := by
  have hi : insideAt (rest ++ [']']) = (rest, []) := insideAt_append hc []
  simp [bracketedMatch, tagOf, hi, enclosedAt?, bracketed]

/-- No slash ends a name that ends in a word character, so all behind the tag are its attributes. -/
theorem rawAttributes_bracketedMatch (hc : ']' ∉ rest)
    (hw : (n ++ rest).getLast?.any Text.isWord = true) :
    (bracketedMatch n rest).rawAttributes = rest := by
  have hi : insideAt (rest ++ [']']) = (rest, []) := insideAt_append hc []
  have hs : rest.getLast? ≠ some '/' := by
    intro h
    rw [List.getLast?_append, h, Option.some_or] at hw
    exact absurd hw (by decide)
  simp [bracketedMatch, tagOf, hi, hs]

theorem stop_bracketedMatch (n : Text) (hc : ']' ∉ rest) :
    (bracketedMatch n rest).stop = (bracketed (n ++ rest)).length := by
  rw [← (bracketedMatch_spec n hc).1]
  exact Nat.zero_add _

/-- What takes the place of a name in brackets is the whole of the new text. -/
theorem splice_bracketed (n out : Text) (hc : ']' ∉ rest) :
    splice (bracketed (n ++ rest)) [(bracketedMatch n rest,
      (bracketedMatch n rest).leading ++ out ++ (bracketedMatch n rest).trailing)] = out := by
  rw [splice_whole rfl (stop_bracketedMatch n hc), (bracketedMatch_spec n hc).2.1]
  exact List.append_nil out

theorem nameBehind?_of_notMem {t : Text} (h : '[' ∉ t) : nameBehind? names t = none := by
  apply nameBehind?_of_head_ne
  rintro c hc rfl
  exact h (List.mem_of_mem_head? hc)

theorem scan_bracketed_of_nameAt? (ho : '[' ∉ n ++ rest) (hc : ']' ∉ rest)
    (h : nameAt? names (n ++ (rest ++ [']'])) = some (n, rest ++ [']'])) :
    scan names (bracketed (n ++ rest)) = [bracketedMatch n rest] := by
  have hbehind : nameBehind? names (n ++ (rest ++ [']'])) = none := by
    apply nameBehind?_of_notMem
    simpa using ho
  have hopens : nameBehind? names ('[' :: (n ++ (rest ++ [']']))) = some (n, rest ++ [']']) :=
    nameBehind?_eq_some_iff.mpr ⟨rfl, h⟩
  have hm : matchAt? names 0 ((bracketedMatch n rest).text ++ []) =
      some (bracketedMatch n rest) := by
    rw [(bracketedMatch_spec n hc).1, List.append_nil, bracketed, List.append_assoc, matchAt?,
      opensAt?_eq_map, opensAt?_eq_map, List.drop_succ_cons, List.drop_zero, hbehind, hopens]
    rfl
  have hs := scanAfter_of_some hm
  rwa [(bracketedMatch_spec n hc).1, List.append_nil] at hs

/-- Of names that lead a name in brackets the first one in the list is its tag. -/
theorem exists_scan_bracketed (hn : ∀ n ∈ names, IsTagName n) (hm : name ∈ names)
    (hl : Leads name name) : ∃ n rest earlier later, name = n ++ rest ∧
      names = earlier ++ n :: later ∧ Leads n name ∧ (∀ n' ∈ earlier, ¬ Leads n' name) ∧
      scan names (bracketed name) = [bracketedMatch n rest] := by
  have ho : '[' ∉ name := fun h => ((hn name hm).2 '[' h).1 rfl
  have hc : ']' ∉ name := fun h => ((hn name hm).2 ']' h).2.1 rfl
  cases hx : nameAt? names (name ++ [']']) with
  | none => exact ((nameAt?_append_bracket_eq_none_iff hn hc).mp hx name hm hl).elim
  | some r =>
    obtain ⟨n, r⟩ := r
    obtain ⟨ht, ha, earlier, later, rfl, hearlier⟩ := nameAt?_eq_some_iff.mp hx
    have hr : r ≠ [] := List.ne_nil_of_mem (mem_of_admits ha)
    obtain ⟨rest, c, rfl⟩ := (List.eq_nil_or_concat' r).resolve_left hr
    rw [← List.append_assoc] at ht
    obtain ⟨rfl, hb⟩ := List.append_inj' ht rfl
    obtain rfl : ']' = c := by simpa using hb
    rw [List.append_assoc] at hx
    have hne : n ≠ [] := (hn n (by simp)).1
    refine ⟨n, rest, earlier, later, rfl, rfl, ?_, ?_, ?_⟩
    · exact ⟨rest, rfl, (admits_append_bracket hne rest).symm.trans ha⟩
    · exact (nameAt?_append_bracket_eq_none_iff (fun n' h => hn n' (by simp [h])) hc).mp hearlier
    · exact scan_bracketed_of_nameAt? ho (fun h => hc (by simp [h])) hx

/-- The first that leads is a certain one if none in front of that one does. -/
theorem eq_first_leads_iff {earlier later : List Text} (hn : Leads n name)
    (he : ∀ n' ∈ earlier, ¬ Leads n' name) (hl : Leads name name) :
    n = name ↔ ∀ n' ∈ (earlier ++ n :: later).takeWhile (· ≠ name), ¬ Leads n' name := by
  have hne : ∀ n' ∈ earlier, (decide (n' ≠ name)) = true := by
    intro n' h
    rw [decide_eq_true_eq]
    rintro rfl
    exact he n' h hl
  rw [List.takeWhile_append_of_pos hne]
  constructor
  · rintro rfl n' h
    rw [List.takeWhile_cons_of_neg (by simp), List.append_nil] at h
    exact he n' h
  · intro h
    by_contra hx
    rw [List.takeWhile_cons_of_pos (by simpa using hx)] at h
    exact h n (by simp) hn

end Scan

namespace Engine
variable {call : Caller η} {e : Engine} {s : State η} {h : Registered η}

/-- What takes the place of a tag that is not left standing is what its handler gives. -/
theorem dispatch_eq_visit {handlers : Registry (Registered η)} (hs : ¬ Spares m s)
    (hg : handlers.get? m.tag = some h) : dispatch call handlers m.toTagParts s =
      (visit call h (callFor m s) s).map fun r =>
        (r.1.map fun out => m.leading ++ out ++ m.trailing, r.2) := by
  rw [dispatch_of_calls ⟨hs, h, hg, rfl⟩, visit_apply, Option.map_map]
  congr 1
  funext r
  obtain ⟨_ | ⟨out, notes⟩, t⟩ := r <;> rfl

/-- A rendering with a single match that is not left standing is one call of its handler. -/
theorem render_of_not_spares (hs : scan (s.registry e.registry).names content = [m])
    (he : ¬ Spares m (entered e content s)) (hg : (s.registry e.registry).get? m.tag = some h) :
    render call e content s =
      (visit call h ⟨.parse e.config m.rawAttributes, m.content, m.tag⟩ (entered e content s)).map
        fun r => (r.1.map fun out => splice content [(m, m.leading ++ out ++ m.trailing)],
          { r.2 with config := s.config }) := by
  have hn : (s.registry e.registry).names ≠ [] :=
    List.ne_nil_of_mem (OrderedMap.exists_get?_iff.mp ⟨h, hg⟩)
  rw [render_of_names hn, hs, Run.bind_apply, Run.mapM_cons_apply, replacement_apply,
    dispatch_eq_visit he hg]
  show _ = (visit call h (callFor m (entered e content s)) (entered e content s)).map _
  cases visit call h (callFor m (entered e content s)) (entered e content s) with
  | none => rfl
  | some r =>
    obtain ⟨_ | out, t⟩ := r <;> rfl

theorem render_of_scan_eq_singleton (hs : scan (s.registry e.registry).names content = [m])
    (he : m.isEscaped = false) (hg : (s.registry e.registry).get? m.tag = some h) :
    render call e content s =
      (visit call h ⟨.parse e.config m.rawAttributes, m.content, m.tag⟩ (entered e content s)).map
        fun r => (r.1.map fun out => splice content [(m, m.leading ++ out ++ m.trailing)],
          { r.2 with config := s.config }) := by
  apply render_of_not_spares hs ?_ hg
  rintro ⟨ht, -⟩
  rw [he] at ht
  cases ht

/-- A name in brackets that ends in a word character is one match, the whole of it, and a rendering is
one call of the handler of its tag. The tag is the first registered name that leads the one in the
brackets, so it is that name itself exactly if none registered before it does. -/
theorem bracketed_tag_eq_iff (call : Caller η)
    (hn : ∀ n ∈ (s.registry e.registry).names, IsTagName n)
    (hm : name ∈ (s.registry e.registry).names) (hw : name.getLast?.any Text.isWord = true) :
    ∃ m h, scan (s.registry e.registry).names (bracketed name) = [m] ∧
      m.text = bracketed name ∧ m.start = 0 ∧ m.stop = (bracketed name).length ∧
      m.content = none ∧ m.isEscaped = false ∧ name = m.tag ++ m.rawAttributes ∧
      (m.tag = name ↔
        ∀ n ∈ (s.registry e.registry).names.takeWhile (· ≠ name), ¬ Leads n name) ∧
      (∃ earlier later, (s.registry e.registry).names = earlier ++ m.tag :: later ∧
        Leads m.tag name ∧ ∀ n ∈ earlier, ¬ Leads n name) ∧
      (s.registry e.registry).get? m.tag = some h ∧
      render call e (bracketed name) s =
        (visit call h ⟨.parse e.config m.rawAttributes, none, m.tag⟩
          (entered e (bracketed name) s)).map fun r => (r.1, { r.2 with config := s.config }) := by
  have hl : Leads name name := leads_self_iff.mpr hw
  obtain ⟨n, rest, earlier, later, rfl, hnames, hlead, hearlier, hs⟩ :=
    exists_scan_bracketed hn hm hl
  have hc : ']' ∉ rest := fun hr => ((hn _ hm).2 ']' (by simp [hr])).2.1 rfl
  have hmem : n ∈ (s.registry e.registry).names := by simp [hnames]
  obtain ⟨h, hg⟩ := OrderedMap.exists_get?_iff.mpr hmem
  obtain ⟨ht, -, hcontent⟩ := bracketedMatch_spec n hc
  have hraw := rawAttributes_bracketedMatch hc hw
  refine ⟨bracketedMatch n rest, h, hs, ht, rfl, stop_bracketedMatch n hc, hcontent, rfl,
    congrArg (n ++ ·) hraw.symm, ?_, ⟨earlier, later, hnames, hlead, hearlier⟩, hg, ?_⟩
  · rw [hnames]
    exact eq_first_leads_iff hlead hearlier hl
  · rw [render_of_scan_eq_singleton hs rfl hg, hcontent]
    congr 1
    funext r
    obtain ⟨f | out, t⟩ := r
    · rfl
    · simp only [Except.map, splice_bracketed n out hc]

/-- Gives back the tag of a call. -/
def sayTag : Caller Unit := fun _ c _ => pure (c.tag, [])

/-- An engine with a name and a longer one, of which the longer one was registered first. -/
def longerFirst : State Unit where
  registries := [(Registry.empty.add ['a', '-', 'b'] (some ⟨⟨[], ()⟩, 0⟩)).add ['a']
    (some ⟨⟨[], ()⟩, 1⟩)]

/-- The longer name is its own tag, since the shorter one comes after it. -/
theorem bracketed_tag_eq_longer : ∃ m u, scan ((longerFirst.registry 0).names)
      ['[', 'a', '-', 'b', ']'] = [m] ∧ m.tag = ['a', '-', 'b'] ∧
      render sayTag ⟨.default, 0⟩ ['[', 'a', '-', 'b', ']'] longerFirst =
        some (.ok ['a', '-', 'b'], u) := by
  obtain ⟨m, h, hs, -, -, -, -, -, -, hiff, -, -, hr⟩ := @bracketed_tag_eq_iff Unit ['a', '-', 'b']
    ⟨.default, 0⟩ longerFirst sayTag (by decide) (by decide) (by decide)
  have hbefore : (longerFirst.registry 0).names.takeWhile (· ≠ ['a', '-', 'b']) = [] := by decide
  have ht : m.tag = ['a', '-', 'b'] := by
    apply hiff.mpr
    intro n hn
    rw [hbefore] at hn
    cases hn
  rw [ht] at hr
  exact ⟨m, _, hs, ht, hr⟩

/-- A shorter name that was registered first takes the tag of a longer one. -/
theorem not_bracketed_tag_eq :
    ¬ ∀ (r : Registry Unit) (name : Text), (∀ n ∈ r.names, IsTagName n) → name ∈ r.names →
      ∃ m, scan r.names (bracketed name) = [m] ∧ m.text = bracketed name ∧ m.tag = name := by
  intro h
  obtain ⟨m, hs, -, ht⟩ := h ((Registry.empty.add ['a'] (some ())).add ['a', '-', 'b'] (some ()))
    ['a', '-', 'b'] (by decide) (by decide)
  have hm := congrArg (fun l => l.map (·.tag)) hs
  have hscan : (scan [['a'], ['a', '-', 'b']] (bracketed ['a', '-', 'b'])).map (·.tag) = [['a']] := by
    decide
  have hx := hscan.symm.trans hm
  rw [List.map_cons, ht] at hx
  exact absurd (List.cons.inj hx).1 (by decide)

end Engine
end Shortcode
