import Mathlib.Data.List.TakeWhile
import Shortcode.Proofs.Attributes.Written

/-! Which tokens stand at a place of a text, and which of them is read. A token of one of the first four
forms leaves no choice; at most a bare token stands beside it, and that one is tried last. -/
namespace Shortcode.Attributes
open Text
variable {t name name' value value' rest rest' : Text} {mark : Char} {marks marks' : Marks}
  {w w' : Written}

namespace Written

/-- A token of one of the five forms, its parts made of the characters that the form asks for. -/
def Formed : Written → Prop
  | named name before after marks value =>
    (name ≠ [] ∧ ∀ c ∈ name, isWord c = true) ∧ (∀ c ∈ before, isBlank c = true) ∧
      (∀ c ∈ after, isBlank c = true) ∧ marks.Fit value
  | quoted value => Marks.double.Fit value
  | bare value => value ≠ [] ∧ ∀ c ∈ value, isBlank c = false

/-- The place of its form in the order in which the forms are tried. -/
def form : Written → Nat
  | named _ _ _ .double _ => 0
  | named _ _ _ .single _ => 1
  | named _ _ _ .none _ => 2
  | quoted _ => 3
  | bare _ => 4

/-- A token stands at the front of a text and ends at white space or with the text. -/
structure Stands (w : Written) (t rest : Text) : Prop where
  eq_append : t = w.print ++ rest
  formed : w.Formed
  ends : endsHere rest = true

/-- Of all tokens that stand at the front of a text this one alone is of the earliest form. -/
structure First (w : Written) (t rest : Text) : Prop where
  stands : w.Stands t rest
  earliest : ∀ w' rest', w'.Stands t rest' → w' = w ∧ rest' = rest ∨ w.form < w'.form

theorem First.unique (h : w.First t rest) (h' : w'.First t rest') : w = w' ∧ rest = rest' := by
  rcases h.earliest w' rest' h'.stands with ⟨rfl, rfl⟩ | hlt
  · exact ⟨rfl, rfl⟩
  · rcases h'.earliest w rest h.stands with ⟨rfl, rfl⟩ | hlt'
    · exact ⟨rfl, rfl⟩
    · omega

theorem Stands.head (h : w.Stands t rest) : ∃ c u, t = c :: u ∧ isBlank c = false := by
  obtain ⟨rfl, hw, -⟩ := h
  cases w with
  | named name before after marks value =>
    obtain ⟨c, u, hu, hc, -⟩ := Proper.head (p := isBlank) (w := named name before after marks value) hw
    exact ⟨c, u ++ rest, by rw [hu, List.cons_append], hc⟩
  | quoted value => exact ⟨doubleQuote, _, rfl, by decide⟩
  | bare value =>
    obtain ⟨hne, hv⟩ := hw
    obtain ⟨c, value, rfl⟩ := List.exists_cons_of_ne_nil hne
    exact ⟨c, value ++ rest, rfl, hv c List.mem_cons_self⟩

theorem Formed.length_print_pos (h : w.Formed) : 0 < w.print.length := by
  have hs : w.Stands (w.print ++ []) [] := ⟨rfl, h, rfl⟩
  obtain ⟨c, u, hu, -⟩ := hs.head
  rw [List.append_nil] at hu
  rw [hu]
  exact Nat.succ_pos _

end Written

/-! What the parts of a reader find, from what they give. -/

theorem quotedBy?_eq_some_iff : quotedBy? mark t = some (value, rest) ↔
    t = mark :: value ++ mark :: rest ∧ mark ∉ value ∧ endsHere rest = true := by
  constructor
  · intro h
    cases t with
    | nil => cases h
    | cons c t =>
      rw [quotedBy?] at h
      split at h
      · next hc =>
        split at h
        · next d after hd =>
          split at h
          · next hends =>
            obtain ⟨rfl, rfl⟩ := Prod.mk.inj (Option.some.inj h)
            have hstop := head?_dropWhile (· ≠ mark) t d (by rw [hd]; rfl)
            have hmark : d = mark := by simpa using hstop
            refine ⟨?_, ?_, hends⟩
            · rw [hc, List.cons_append, ← hmark, ← hd, hmark, List.takeWhile_append_dropWhile]
            · intro hm
              simpa using List.mem_takeWhile_imp hm
          · cases h
        · cases h
      · cases h
  · rintro ⟨rfl, hv, hr⟩
    exact quotedBy?_append hv hr

theorem unquoted?_eq_some_iff : unquoted? t = some (value, rest) ↔
    t = value ++ rest ∧ Marks.none.Fit value ∧ endsHere rest = true := by
  constructor
  · intro h
    simp only [unquoted?] at h
    split at h
    · next hne =>
      obtain ⟨rfl, rfl⟩ := Prod.mk.inj (Option.some.inj h)
      refine ⟨List.takeWhile_append_dropWhile.symm, ⟨hne.1, ?_⟩, hne.2⟩
      exact fun c hc => List.mem_takeWhile_imp hc
    · cases h
  · rintro ⟨rfl, ⟨hne, hv⟩, hr⟩
    exact unquoted?_append hne hv hr

theorem marked_eq_some_iff : (quotedBy? doubleQuote t <|> quotedBy? singleQuote t <|> unquoted? t) =
    some (value, rest) ↔
      ∃ marks : Marks, t = marks.around value ++ rest ∧ marks.Fit value ∧ endsHere rest = true := by
  constructor
  · intro h
    cases hd : quotedBy? doubleQuote t with
    | some r =>
      obtain rfl : r = (value, rest) := by simpa [hd] using h
      obtain ⟨ht, hv, hr⟩ := quotedBy?_eq_some_iff.mp hd
      exact ⟨.double, by simpa [Marks.around] using ht, hv, hr⟩
    | none =>
      cases hs : quotedBy? singleQuote t with
      | some r =>
        obtain rfl : r = (value, rest) := by simpa [hd, hs] using h
        obtain ⟨ht, hv, hr⟩ := quotedBy?_eq_some_iff.mp hs
        exact ⟨.single, by simpa [Marks.around] using ht, hv, hr⟩
      | none =>
        have hu : unquoted? t = some (value, rest) := by simpa [hd, hs] using h
        exact ⟨.none, unquoted?_eq_some_iff.mp hu⟩
  · rintro ⟨marks, rfl, hv, hr⟩
    exact marked_append hv hr

theorem assigned?_eq_some (h : assigned? t = some (name, rest)) : ∃ before after,
    t = name ++ (before ++ '=' :: (after ++ rest)) ∧ (name ≠ [] ∧ ∀ c ∈ name, isWord c = true) ∧
      (∀ c ∈ before, isBlank c = true) ∧ ∀ c ∈ after, isBlank c = true := by
  rw [assigned?] at h
  split at h
  · next c more sign htake hdrop =>
    obtain ⟨rfl, rfl⟩ := Prod.mk.inj (Option.some.inj h)
    refine ⟨(t.dropWhile isWord).takeWhile isBlank, sign.takeWhile isBlank, ?_,
      ⟨List.cons_ne_nil _ _, ?_⟩, ?_, ?_⟩
    · rw [List.takeWhile_append_dropWhile, ← hdrop, List.takeWhile_append_dropWhile, ← htake,
        List.takeWhile_append_dropWhile]
    · rw [← htake]
      exact fun c hc => List.mem_takeWhile_imp hc
    · exact fun c hc => List.mem_takeWhile_imp hc
    · exact fun c hc => List.mem_takeWhile_imp hc
  · cases h

/-! A token that stands at a place is the only one of its form there. -/

/-- The marks around a value are known from the first character, or from there being none. -/
theorem Marks.around_injective (h : marks.around value = marks'.around value) : marks = marks' := by
  have hlength := congrArg List.length h
  cases marks <;> cases marks'
  case double.double | single.single | none.none => rfl
  case double.single | single.double => exact absurd (List.cons.inj h).1 (by decide)
  all_goals
    simp only [Marks.around, List.length_append, List.length_cons] at hlength
    omega

namespace Written

theorem Stands.named?_eq {before after : Text}
    (h : (named name before after marks value).Stands t rest) :
    named? t = some (.named name value, rest) := by
  obtain ⟨rfl, ⟨⟨hne, hn⟩, hb, ha, hv⟩, hr⟩ := h
  have hassigned := assigned?_append hne hn hb ha (hv.head rest)
  simp only [print, List.append_assoc, List.cons_append, named?, hassigned, marked_append hv hr,
    Option.map_some]

theorem Stands.named_unique {before after before' after' : Text}
    (h : (named name before after marks value).Stands t rest)
    (h' : (named name' before' after' marks' value').Stands t rest') :
    named name' before' after' marks' value' = named name before after marks value ∧
      rest' = rest := by
  have hread := h'.named?_eq.symm.trans h.named?_eq
  simp only [Option.some.injEq, Prod.mk.injEq, Token.named.injEq] at hread
  obtain ⟨⟨rfl, rfl⟩, rfl⟩ := hread
  -- the reader tells name, value and rest, but not the white space around the sign or the marks
  obtain ⟨rfl, ⟨-, hb, ha, hv⟩, -⟩ := h
  obtain ⟨he, ⟨-, hb', ha', hv'⟩, -⟩ := h'
  have hsign : ∀ u : Text, ∀ c ∈ ('=' :: u).head?, isBlank c = false := by
    intro u c hc
    obtain rfl := Option.some.inj hc
    decide
  have hspacing := List.append_cancel_left (List.append_cancel_right he)
  obtain ⟨rfl, hassigned⟩ := append_inj_of_head hb (hsign _) hb' (hsign _) hspacing
  have hhead := hv.head []
  have hhead' := hv'.head []
  rw [List.append_nil] at hhead hhead'
  obtain ⟨rfl, haround⟩ := append_inj_of_head ha hhead ha' hhead' (List.cons.inj hassigned).2
  obtain rfl := Marks.around_injective haround
  exact ⟨rfl, rfl⟩

theorem Stands.quoted_iff :
    (quoted value).Stands t rest ↔ quotedBy? doubleQuote t = some (value, rest) := by
  rw [quotedBy?_eq_some_iff]
  constructor
  · rintro ⟨rfl, hv, hr⟩
    exact ⟨by simp [print, Marks.around], hv, hr⟩
  · rintro ⟨rfl, hv, hr⟩
    exact ⟨by simp [print, Marks.around], hv, hr⟩

theorem Stands.bare_unique (h : (bare value).Stands t rest) (h' : (bare value').Stands t rest') :
    bare value' = bare value ∧ rest' = rest := by
  obtain ⟨rfl, ⟨-, hv⟩, hr⟩ := h
  obtain ⟨he, ⟨-, hv'⟩, hr'⟩ := h'
  have hstop : ∀ u : Text, endsHere u = true → ∀ c ∈ u.head?, (!isBlank c) = false := by
    intro u hu c hc
    simp [isBlank_of_endsHere hu c hc]
  have hrun : ∀ c ∈ value, (!isBlank c) = true := by simpa using hv
  have hrun' : ∀ c ∈ value', (!isBlank c) = true := by simpa using hv'
  obtain ⟨rfl, rfl⟩ := append_inj_of_head hrun (hstop rest hr) hrun' (hstop rest' hr') he
  exact ⟨rfl, rfl⟩

theorem form_named_lt (name before after : Text) (marks : Marks) (value : Text) :
    (named name before after marks value).form < 3 := by
  cases marks <;> simp [form]

/-- Beside a named token no other one of its form or an earlier one stands. -/
theorem Stands.first_named {before after : Text}
    (h : (named name before after marks value).Stands t rest) :
    (named name before after marks value).First t rest := by
  have hlt := form_named_lt name before after marks value
  refine ⟨h, ?_⟩
  intro w' rest' h'
  cases w' with
  | named name' before' after' marks' value' => exact Or.inl (h.named_unique h')
  | quoted value' => exact Or.inr hlt
  | bare value' => exact Or.inr (Nat.lt_succ_of_lt hlt)

theorem not_stands_named {before after : Text} (hn : named? t = none) :
    ¬ (named name before after marks value).Stands t rest := by
  intro h
  rw [h.named?_eq] at hn
  cases hn

theorem Stands.first_quoted (h : (quoted value).Stands t rest) (hn : named? t = none) :
    (quoted value).First t rest := by
  refine ⟨h, ?_⟩
  intro w' rest' h'
  cases w' with
  | named name before after marks value => exact (not_stands_named hn h').elim
  | quoted value' =>
    have hread := (quoted_iff.mp h').symm.trans (quoted_iff.mp h)
    obtain ⟨rfl, rfl⟩ := Prod.mk.inj (Option.some.inj hread)
    exact Or.inl ⟨rfl, rfl⟩
  | bare value' => exact Or.inr (by simp [form])

theorem Stands.first_bare (h : (bare value).Stands t rest) (hn : named? t = none)
    (hq : quotedBy? doubleQuote t = none) : (bare value).First t rest := by
  refine ⟨h, ?_⟩
  intro w' rest' h'
  cases w' with
  | named name before after marks value => exact (not_stands_named hn h').elim
  | quoted value' =>
    rw [quoted_iff.mp h'] at hq
    cases hq
  | bare value' => exact Or.inl (h.bare_unique h')

end Written

theorem exists_stands_of_named? {token : Token} (h : named? t = some (token, rest)) :
    ∃ name before after marks value, token = .named name value ∧
      (Written.named name before after marks value).Stands t rest := by
  rw [named?] at h
  split at h
  · cases h
  · next name behind ha =>
    obtain ⟨⟨value, after'⟩, hm, he⟩ := Option.map_eq_some_iff.mp h
    obtain ⟨rfl, rfl⟩ := Prod.mk.inj he
    obtain ⟨before, after, rfl, hn, hb, hafter⟩ := assigned?_eq_some ha
    obtain ⟨marks, rfl, hv, hr⟩ := marked_eq_some_iff.mp hm
    refine ⟨name, before, after, marks, value, rfl, ?_, ⟨hn, hb, hafter, hv⟩, hr⟩
    simp [Written.print]

/-- Any run without white space is at least a bare token. -/
theorem stands_bare {c : Char} (hc : isBlank c = false) (t : Text) :
    (Written.bare ((c :: t).takeWhile (!isBlank ·))).Stands (c :: t)
      ((c :: t).dropWhile (!isBlank ·)) := by
  refine ⟨?_, ⟨by simp [hc], ?_⟩, ?_⟩
  · rw [Written.print, List.takeWhile_append_dropWhile]
  · intro d hd
    simpa using List.mem_takeWhile_imp hd
  · have hstop := head?_dropWhile (!isBlank ·) (c :: t)
    rw [endsHere, Option.all_eq_true]
    intro d hd
    simpa using hstop d hd

/-- Where no white space is, a token stands, and the one that is read is the first. -/
theorem tokenAt_first {c : Char} (hc : isBlank c = false) (t : Text) :
    ∃ (w : Written) (rest : Text), w.First (c :: t) rest ∧ tokenAt (c :: t) = (w.token, rest) := by
  cases hn : named? (c :: t) with
  | some r =>
    obtain ⟨name, before, after, marks, value, ht, hs⟩ := exists_stands_of_named? hn
    refine ⟨_, _, hs.first_named, ?_⟩
    rw [tokenAt, hn, Written.token, ← ht]
  | none =>
    cases hq : quotedBy? doubleQuote (c :: t) with
    | some r =>
      have hs := Written.Stands.quoted_iff.mpr hq
      refine ⟨_, _, hs.first_quoted hn, ?_⟩
      rw [tokenAt, hn, hq]
      rfl
    | none =>
      have hs := stands_bare hc t
      refine ⟨_, _, hs.first_bare hn hq, ?_⟩
      rw [tokenAt, hn, hq]
      rfl

end Shortcode.Attributes
