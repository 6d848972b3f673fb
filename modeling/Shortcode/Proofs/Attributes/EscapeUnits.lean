import Mathlib.Data.Nat.Digits.Defs
import Shortcode.Attributes.Escape

/-! The grammar of escapes. Every text is in exactly one way a row of units with at most a lone
backslash behind them. Each unit stands for one character, and to resolve the escapes of a text is to
read its units. -/
namespace Shortcode.Attributes
variable {digit? : Char → Option Nat} {most : Nat} {t rest rest' digits digits' : Text} {c : Char}

/-- At least one and at most `most` digits, and fewer only where no further one follows. -/
structure DigitRun (digit? : Char → Option Nat) (most : Nat) (digits rest : Text) : Prop where
  ne_nil : digits ≠ []
  length_le : digits.length ≤ most
  all : ∀ c ∈ digits, (digit? c).isSome = true
  maximal : digits.length < most → ∀ c ∈ rest.head?, digit? c = none

/-- What stands for one character: the character itself, or a backslash with hexadecimal digits behind
an `x`, with octal digits or with any other character. -/
inductive EscapeUnit where
  | plain (c : Char)
  | hex (digits : Text)
  | octal (digits : Text)
  | other (c : Char)
deriving DecidableEq

namespace EscapeUnit

def print : EscapeUnit → Text
  | plain c => [c]
  | hex digits => '\\' :: 'x' :: digits
  | octal digits => '\\' :: digits
  | other c => ['\\', c]

/-- Octal values wrap to one byte. -/
def meaning : EscapeUnit → Char
  | plain c => c
  | hex digits => Char.ofNat (Nat.ofDigits 16 (digits.filterMap hexDigit?).reverse)
  | octal digits => Char.ofNat (Nat.ofDigits 8 (digits.filterMap octalDigit?).reverse % 256)
  | other c => control c

/-- A unit that can stand in front of a text. It takes as many digits as it may. -/
def Fits : EscapeUnit → (rest : Text) → Prop
  | plain c, _ => c ≠ '\\'
  | hex digits, rest => DigitRun hexDigit? 2 digits rest
  | octal digits, rest => DigitRun octalDigit? 3 digits rest
  | other c, rest => octalDigit? c = none ∧ (c = 'x' → ∀ d ∈ rest.head?, hexDigit? d = none)

end EscapeUnit

/-- A text as a row of units and what is left behind them: nothing, or a lone backslash. -/
inductive Splits : Text → List EscapeUnit → (lone : Text) → Prop
  | nil : Splits [] [] []
  | lone : Splits ['\\'] [] ['\\']
  | cons {u : EscapeUnit} {rest : Text} {us : List EscapeUnit} {lone : Text} (hu : u.Fits rest)
      (hr : Splits rest us lone) : Splits (u.print ++ rest) (u :: us) lone

variable {u u' : EscapeUnit} {us us' : List EscapeUnit} {lone lone' : Text}

/-! Runs of digits. -/

theorem DigitRun.head (h : DigitRun digit? most digits rest) (he : digits ++ rest = c :: t) :
    (digit? c).isSome = true := by
  obtain ⟨d, more, rfl⟩ := List.exists_cons_of_ne_nil h.ne_nil
  obtain ⟨rfl, -⟩ := List.cons.inj he
  exact h.all d List.mem_cons_self

/-- A run does not go on. -/
theorem DigitRun.eq_nil_of_append (h : DigitRun digit? most digits (t ++ rest))
    (h' : DigitRun digit? most (digits ++ t) rest) : t = [] := by
  cases t with
  | nil => rfl
  | cons c t =>
    have hle := h'.length_le
    have hlt : digits.length < most := by
      simp only [List.length_append, List.length_cons] at hle
      omega
    have hin := h'.all c (by simp)
    have hout := h.maximal hlt c rfl
    rw [hout] at hin
    cases hin

theorem DigitRun.unique (h : DigitRun digit? most digits rest)
    (h' : DigitRun digit? most digits' rest')
    (he : digits ++ rest = digits' ++ rest') : digits = digits' ∧ rest = rest' := by
  rcases List.append_eq_append_iff.mp he with ⟨v, rfl, rfl⟩ | ⟨v, rfl, rfl⟩
  · obtain rfl := h.eq_nil_of_append h'
    simp
  · obtain rfl := h'.eq_nil_of_append h
    simp

/-- A digit begins a run. By induction on the number of digits that it may have. -/
theorem exists_digitRun (hm : 0 < most) (hc : (digit? c).isSome = true) (t : Text) :
    ∃ digits rest, c :: t = digits ++ rest ∧ DigitRun digit? most digits rest := by
  induction most generalizing c t with
  | zero => omega
  | succ most ih =>
    by_cases hnext : 0 < most ∧ ∃ d ∈ t.head?, (digit? d).isSome = true
    · obtain ⟨hmost, d, hd, hsome⟩ := hnext
      obtain ⟨t, rfl⟩ := List.head?_eq_some_iff.mp hd
      obtain ⟨digits, rest, he, hr⟩ := ih hmost hsome t
      refine ⟨c :: digits, rest, by rw [he, List.cons_append], List.cons_ne_nil _ _,
        Nat.succ_le_succ hr.length_le, List.forall_mem_cons.mpr ⟨hc, hr.all⟩, ?_⟩
      intro hlt
      exact hr.maximal (Nat.lt_of_succ_lt_succ hlt)
    · -- no further digit fits or follows
      refine ⟨[c], t, rfl, List.cons_ne_nil _ _, Nat.succ_le_succ (Nat.zero_le _), by simpa, ?_⟩
      intro hlt d hd
      have hmost : 0 < most := by simpa using hlt
      simpa using fun hsome => hnext ⟨hmost, d, hd, hsome⟩

theorem leadingDigits_eq_nil (most : Nat) (h : ∀ c ∈ rest.head?, digit? c = none) :
    leadingDigits digit? most rest = [] := by
  cases most with
  | zero => rfl
  | succ most =>
    cases rest with
    | nil => rfl
    | cons c rest => simp [leadingDigits, h c rfl]

theorem leadingDigits_append (hl : digits.length ≤ most)
    (hd : ∀ c ∈ digits, (digit? c).isSome = true)
    (hr : digits.length < most → ∀ c ∈ rest.head?, digit? c = none) :
    leadingDigits digit? most (digits ++ rest) = digits.filterMap digit? := by
  induction digits generalizing most with
  | nil =>
    cases most with
    | zero => rfl
    | succ most => exact leadingDigits_eq_nil (most + 1) (hr (Nat.succ_pos most))
  | cons c digits ih =>
    cases most with
    | zero => cases hl
    | succ most =>
      obtain ⟨n, hn⟩ := Option.isSome_iff_exists.mp (hd c List.mem_cons_self)
      have hrest := ih (Nat.le_of_succ_le_succ hl) (fun d h => hd d (List.mem_cons_of_mem c h))
        fun hlt => hr (Nat.succ_lt_succ hlt)
      simp [leadingDigits, hn, hrest]

theorem ofDigits_eq (base : Nat) (values : List Nat) :
    ofDigits base values = Nat.ofDigits base values.reverse := by
  rw [ofDigits, Nat.ofDigits_eq_foldr, List.foldr_reverse]
  simp [Nat.mul_comm, Nat.add_comm]

/-- The leading digits of a run have the values of all of it. -/
theorem DigitRun.leadingDigits_eq (h : DigitRun digit? most digits rest) : ∃ n values,
    leadingDigits digit? most (digits ++ rest) = n :: values ∧
      digits.filterMap digit? = n :: values ∧ digits.length = values.length + 1 := by
  have hleading := leadingDigits_append h.length_le h.all h.maximal
  have hlength := List.filterMap_length_eq_length.mpr h.all
  cases hvalues : digits.filterMap digit? with
  | nil =>
    rw [hvalues] at hlength
    exact (h.ne_nil (List.length_eq_zero_iff.mp hlength.symm)).elim
  | cons n values =>
    rw [hvalues] at hleading hlength
    exact ⟨n, values, hleading, rfl, hlength.symm⟩

/-! What stands behind a backslash. -/

theorem escape?_hex (h : DigitRun hexDigit? 2 digits rest) : escape? ('x' :: (digits ++ rest)) =
    some ((EscapeUnit.hex digits).meaning, digits.length + 1) := by
  obtain ⟨n, values, hleading, hvalues, hlength⟩ := h.leadingDigits_eq
  simp [escape?, hleading, EscapeUnit.meaning, hvalues, hlength, ofDigits_eq]

theorem DigitRun.ne_x_cons (h : DigitRun octalDigit? 3 digits rest) : digits ++ rest ≠ 'x' :: t := by
  intro he
  exact absurd (h.head he) (by decide)

theorem escape?_octal (h : DigitRun octalDigit? 3 digits rest) :
    escape? (digits ++ rest) = some ((EscapeUnit.octal digits).meaning, digits.length) := by
  obtain ⟨n, values, hleading, hvalues, hlength⟩ := h.leadingDigits_eq
  obtain ⟨c, t, ht⟩ : ∃ c t, digits ++ rest = c :: t := by
    apply List.exists_cons_of_ne_nil
    exact List.append_ne_nil_of_left_ne_nil h.ne_nil rest
  have hx : c ≠ 'x' := by
    rintro rfl
    exact h.ne_x_cons ht
  rw [ht] at hleading ⊢
  simp [escape?, hx, hleading, EscapeUnit.meaning, hvalues, hlength, ofDigits_eq]

theorem escape?_other (h : (EscapeUnit.other c).Fits rest) :
    escape? (c :: rest) = some (control c, 1) := by
  obtain ⟨ho, hx⟩ := h
  have hhex : (if c = 'x' then leadingDigits hexDigit? 2 rest else []) = [] := by
    split
    · next hc =>
      exact leadingDigits_eq_nil 2 (hx hc)
    · rfl
  simp [escape?, hhex, leadingDigits, ho]

theorem unescape_backslash {d : Char} {n : Nat} (h : escape? t = some (d, n)) :
    unescape ('\\' :: t) = d :: unescape (t.drop n) := by
  rw [unescape, unescapeAfter, if_pos rfl, h, ← unescapeAfter_eq_drop]

/-- A unit is read as the character that it stands for, and then what follows it is read. -/
theorem unescape_print_append (h : u.Fits rest) :
    unescape (u.print ++ rest) = u.meaning :: unescape rest := by
  cases u with
  | plain c => exact unescape_cons h rest
  | hex digits =>
    have hu := unescape_backslash (escape?_hex h)
    simpa [EscapeUnit.print] using hu
  | octal digits =>
    have hu := unescape_backslash (escape?_octal h)
    simpa [EscapeUnit.print] using hu
  | other c => exact unescape_backslash (escape?_other h)

theorem Splits.unescape_eq (h : Splits t us lone) :
    unescape t = us.map EscapeUnit.meaning ++ lone := by
  induction h with
  | nil => rfl
  | lone => rfl
  | cons hu _ ih => rw [unescape_print_append hu, ih, List.map_cons, List.cons_append]

/-! Every text is a row of units in exactly one way. -/

/-- What stands behind the backslash of a unit. -/
theorem EscapeUnit.Fits.eq_of_backslash (h : u.Fits rest) (he : u.print ++ rest = '\\' :: t) :
    (∃ digits, u = hex digits ∧ DigitRun hexDigit? 2 digits rest ∧ t = 'x' :: (digits ++ rest)) ∨
    (∃ digits, u = octal digits ∧ DigitRun octalDigit? 3 digits rest ∧ t = digits ++ rest) ∨
    ∃ c, u = other c ∧ (other c).Fits rest ∧ t = c :: rest := by
  cases u with
  | plain c => exact (h (List.cons.inj he).1).elim
  | hex digits => exact Or.inl ⟨digits, rfl, h, (List.cons.inj he).2.symm⟩
  | octal digits => exact Or.inr (Or.inl ⟨digits, rfl, h, (List.cons.inj he).2.symm⟩)
  | other c => exact Or.inr (Or.inr ⟨c, rfl, h, (List.cons.inj he).2.symm⟩)

theorem EscapeUnit.Fits.eq_plain (h : u.Fits rest) (he : u.print ++ rest = c :: t)
    (hc : c ≠ '\\') : u = plain c ∧ rest = t := by
  cases u with
  | plain d =>
    obtain ⟨rfl, rfl⟩ := List.cons.inj he
    exact ⟨rfl, rfl⟩
  | hex digits => exact (hc (List.cons.inj he).1.symm).elim
  | octal digits => exact (hc (List.cons.inj he).1.symm).elim
  | other d => exact (hc (List.cons.inj he).1.symm).elim

theorem EscapeUnit.Fits.ne_hex (h : (other c).Fits rest) (hr : DigitRun hexDigit? 2 digits rest') :
    c :: rest ≠ 'x' :: (digits ++ rest') := by
  intro he
  obtain ⟨rfl, rfl⟩ := List.cons.inj he
  obtain ⟨d, more, rfl⟩ := List.exists_cons_of_ne_nil hr.ne_nil
  have hin := hr.all d List.mem_cons_self
  rw [h.2 rfl d rfl] at hin
  cases hin

theorem EscapeUnit.Fits.ne_octal (h : (other c).Fits rest) (hr : DigitRun octalDigit? 3 digits rest') :
    c :: rest ≠ digits ++ rest' := by
  intro he
  have hin := hr.head he.symm
  rw [h.1] at hin
  cases hin

/-- The first unit of a text is known from what stands there: what follows a backslash tells of which
kind the unit is. -/
theorem EscapeUnit.Fits.unique (h : u.Fits rest) (h' : u'.Fits rest')
    (he : u.print ++ rest = u'.print ++ rest') : u = u' ∧ rest = rest' := by
  obtain ⟨c, t, ht⟩ : ∃ c t, u.print ++ rest = c :: t := by
    cases u <;> exact ⟨_, _, rfl⟩
  have ht' := he.symm.trans ht
  by_cases hc : c = '\\'
  · subst hc
    rcases h.eq_of_backslash ht with ⟨digits, rfl, hr, hd⟩ | ⟨digits, rfl, hr, hd⟩ | ⟨d, rfl, hr, hd⟩
    · rcases h'.eq_of_backslash ht' with
        ⟨digits', rfl, hr', hd'⟩ | ⟨digits', rfl, hr', hd'⟩ | ⟨d', rfl, hr', hd'⟩
      · obtain ⟨rfl, rfl⟩ := hr.unique hr' (List.cons.inj (hd.symm.trans hd')).2
        exact ⟨rfl, rfl⟩
      · exact (hr'.ne_x_cons (hd'.symm.trans hd)).elim
      · exact (hr'.ne_hex hr (hd'.symm.trans hd)).elim
    · rcases h'.eq_of_backslash ht' with
        ⟨digits', rfl, hr', hd'⟩ | ⟨digits', rfl, hr', hd'⟩ | ⟨d', rfl, hr', hd'⟩
      · exact (hr.ne_x_cons (hd.symm.trans hd')).elim
      · obtain ⟨rfl, rfl⟩ := hr.unique hr' (hd.symm.trans hd')
        exact ⟨rfl, rfl⟩
      · exact (hr'.ne_octal hr (hd'.symm.trans hd)).elim
    · rcases h'.eq_of_backslash ht' with
        ⟨digits', rfl, hr', hd'⟩ | ⟨digits', rfl, hr', hd'⟩ | ⟨d', rfl, hr', hd'⟩
      · exact (hr.ne_hex hr' (hd.symm.trans hd')).elim
      · exact (hr.ne_octal hr' (hd.symm.trans hd')).elim
      · obtain ⟨rfl, rfl⟩ := List.cons.inj (hd.symm.trans hd')
        exact ⟨rfl, rfl⟩
  · obtain ⟨rfl, rfl⟩ := h.eq_plain ht hc
    obtain ⟨rfl, rfl⟩ := h'.eq_plain ht' hc
    exact ⟨rfl, rfl⟩

theorem exists_unit_of_backslash (c : Char) (t : Text) :
    ∃ u rest, '\\' :: c :: t = EscapeUnit.print u ++ rest ∧ u.Fits rest := by
  by_cases ho : (octalDigit? c).isSome = true
  · obtain ⟨digits, rest, he, hr⟩ := exists_digitRun (Nat.succ_pos 2) ho t
    exact ⟨.octal digits, rest, by rw [he]; rfl, hr⟩
  · have hnone : octalDigit? c = none := by simpa using ho
    by_cases hx : c = 'x' ∧ ∃ d ∈ t.head?, (hexDigit? d).isSome = true
    · obtain ⟨rfl, d, hd, hsome⟩ := hx
      obtain ⟨t, rfl⟩ := List.head?_eq_some_iff.mp hd
      obtain ⟨digits, rest, he, hr⟩ := exists_digitRun (Nat.succ_pos 1) hsome t
      exact ⟨.hex digits, rest, by rw [he]; rfl, hr⟩
    · refine ⟨.other c, t, rfl, hnone, ?_⟩
      intro hc d hd
      simpa using fun hsome => hx ⟨hc, d, hd, hsome⟩

/-- By induction on the length of the text: a unit takes at least one character. -/
theorem exists_splits (t : Text) : ∃ us lone, Splits t us lone := by
  induction hn : t.length using Nat.strongRecOn generalizing t with
  | ind n ih =>
    have hcons : ∀ (u : EscapeUnit) rest, t = u.print ++ rest → u.Fits rest →
        ∃ us lone, Splits t us lone := by
      rintro u rest rfl hu
      have hlt : rest.length < n := by
        have hpos : 0 < u.print.length := by cases u <;> exact Nat.succ_pos _
        rw [← hn, List.length_append]
        omega
      obtain ⟨us, lone, hs⟩ := ih rest.length hlt rest rfl
      exact ⟨u :: us, lone, .cons hu hs⟩
    match t with
    | [] => exact ⟨[], [], .nil⟩
    | c :: t =>
      by_cases hc : c = '\\'
      · subst hc
        cases t with
        | nil => exact ⟨[], ['\\'], .lone⟩
        | cons d t =>
          obtain ⟨u, rest, he, hu⟩ := exists_unit_of_backslash d t
          exact hcons u rest he hu
      · exact hcons (.plain c) t rfl hc

/-- A unit is more than a backslash. -/
theorem EscapeUnit.Fits.print_append_ne (h : u.Fits rest) :
    u.print ++ rest ≠ [] ∧ u.print ++ rest ≠ ['\\'] := by
  cases u with
  | plain c =>
    refine ⟨List.cons_ne_nil _ _, ?_⟩
    intro he
    exact h (List.cons.inj he).1
  | hex digits => exact ⟨by simp [print], by simp [print]⟩
  | octal digits => exact ⟨by simp [print], by simp [print, h.ne_nil]⟩
  | other c => exact ⟨by simp [print], by simp [print]⟩

theorem Splits.unique (h : Splits t us lone) (h' : Splits t us' lone') :
    us = us' ∧ lone = lone' := by
  induction h generalizing us' lone' with
  | nil =>
    -- the index of `h'` is no variable, so the text is named before the cases
    generalize ht : ([] : Text) = t at h'
    cases h' with
    | nil => exact ⟨rfl, rfl⟩
    | lone => cases ht
    | cons hu => exact (hu.print_append_ne.1 ht.symm).elim
  | lone =>
    generalize ht : ['\\'] = t at h'
    cases h' with
    | nil => cases ht
    | lone => exact ⟨rfl, rfl⟩
    | cons hu => exact (hu.print_append_ne.2 ht.symm).elim
  | @cons u rest us lone hu _ ih =>
    generalize ht : u.print ++ rest = t at h'
    cases h' with
    | nil => exact (hu.print_append_ne.1 ht).elim
    | lone => exact (hu.print_append_ne.2 ht).elim
    | cons hu' hr' =>
      obtain ⟨rfl, rfl⟩ := hu.unique hu' ht
      obtain ⟨rfl, rfl⟩ := ih hr'
      exact ⟨rfl, rfl⟩

end Shortcode.Attributes
