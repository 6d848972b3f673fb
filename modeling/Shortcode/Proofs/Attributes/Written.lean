import Shortcode.Attributes.Token
import Shortcode.Proofs.Text.Spacing

/-! Attribute tokens as they are written, and the reading of one of them at the front of a text. -/
namespace Shortcode.Attributes
open Text

/-- What stands around the value of a named token. -/
inductive Marks where
  | double
  | single
  | none
deriving DecidableEq

/-- A value between its marks. -/
def Marks.around : Marks → Text → Text
  | double, value => doubleQuote :: value ++ [doubleQuote]
  | single, value => singleQuote :: value ++ [singleQuote]
  | none, value => value

/-- A value that ends where its marks say, and not before. -/
def Marks.Fit : Marks → Text → Prop
  | double, value => doubleQuote ∉ value
  | single, value => singleQuote ∉ value
  | none, value => value ≠ [] ∧ ∀ c ∈ value, isUnquoted c = true

instance (marks : Marks) (value : Text) : Decidable (marks.Fit value) :=
  match marks with
  | .double => inferInstanceAs (Decidable (doubleQuote ∉ value))
  | .single => inferInstanceAs (Decidable (singleQuote ∉ value))
  | .none => inferInstanceAs (Decidable (value ≠ [] ∧ ∀ c ∈ value, isUnquoted c = true))

/-- A token with the spacing on both sides of its equals sign, if it has one. -/
inductive Written where
  | named (name before after : Text) (marks : Marks) (value : Text)
  | quoted (value : Text)
  | bare (value : Text)
deriving DecidableEq

namespace Written

def print : Written → Text
  | named name before after marks value => name ++ (before ++ '=' :: (after ++ marks.around value))
  | quoted value => Marks.double.around value
  | bare value => value

def value : Written → Text
  | named _ _ _ _ value => value
  | quoted value => value
  | bare value => value

def token : Written → Token
  | named name _ _ _ value => .named name value
  | quoted value => .quoted value
  | bare value => .bare value

/-- A token that can be told from what stands around it. Its spacing consists of characters in `p`. -/
def Proper (p : Char → Bool) : Written → Prop
  | named name before after marks value =>
    (name ≠ [] ∧ ∀ c ∈ name, isWord c = true) ∧ (∀ c ∈ before, p c = true) ∧
      (∀ c ∈ after, p c = true) ∧ marks.Fit value
  | quoted value => Marks.double.Fit value
  | bare value => Marks.none.Fit value ∧ '=' ∉ value

instance (p : Char → Bool) (w : Written) : Decidable (w.Proper p) :=
  match w with
  | named name before after marks value => inferInstanceAs (Decidable
      ((name ≠ [] ∧ ∀ c ∈ name, isWord c = true) ∧ (∀ c ∈ before, p c = true) ∧
        (∀ c ∈ after, p c = true) ∧ marks.Fit value))
  | quoted value => inferInstanceAs (Decidable (Marks.double.Fit value))
  | bare value => inferInstanceAs (Decidable (Marks.none.Fit value ∧ '=' ∉ value))

end Written

variable {p : Char → Bool} {w : Written} {marks : Marks} {name before after value rest : Text}
  {mark : Char}

theorem isBlank_eq_false_of_isWord {c : Char} (h : isWord c = true) : isBlank c = false := by
  rw [← Bool.not_eq_true]
  intro hb
  rw [isWord_eq_false_of_isBlank hb] at h
  cases h

theorem isBlank_eq_false_of_isUnquoted {c : Char} (h : isUnquoted c = true) :
    isBlank c = false := by
  simp only [isUnquoted, Bool.and_eq_true, Bool.not_eq_true'] at h
  exact h.1.1

/-- A proper token begins with a character that is neither white space nor an equals sign. -/
theorem Written.Proper.head (hw : w.Proper p) :
    ∃ c t, w.print = c :: t ∧ isBlank c = false ∧ c ≠ '=' := by
  cases w with
  | named name before after marks value =>
    obtain ⟨⟨hne, hn⟩, -⟩ := hw
    obtain ⟨c, name, rfl⟩ := List.exists_cons_of_ne_nil hne
    have hc := hn c List.mem_cons_self
    refine ⟨c, _, rfl, isBlank_eq_false_of_isWord hc, ?_⟩
    rintro rfl
    exact absurd hc (by decide)
  | quoted value => exact ⟨doubleQuote, _, rfl, by decide, by decide⟩
  | bare value =>
    obtain ⟨⟨hne, hv⟩, he⟩ := hw
    obtain ⟨c, value, rfl⟩ := List.exists_cons_of_ne_nil hne
    have hc := hv c List.mem_cons_self
    refine ⟨c, value, rfl, isBlank_eq_false_of_isUnquoted hc, ?_⟩
    rintro rfl
    exact he List.mem_cons_self

theorem mem_of_mem_head?_append (hne : value ≠ []) :
    ∀ c ∈ (value ++ rest).head?, c ∈ value := by
  obtain ⟨d, u, rfl⟩ := List.exists_cons_of_ne_nil hne
  intro c hc
  obtain rfl : d = c := Option.some.inj hc
  exact List.mem_cons_self

/-! The parts of a token, each read in front of what ends it. -/

theorem quotedBy?_append (hv : mark ∉ value) (hr : endsHere rest = true) :
    quotedBy? mark (mark :: value ++ mark :: rest) = some (value, rest) := by
  have hu : ∀ c ∈ value, (decide (c ≠ mark)) = true := by
    intro c hc
    rw [decide_eq_true_eq]
    rintro rfl
    exact hv hc
  have hm : ∀ c ∈ (mark :: rest).head?, (decide (c ≠ mark)) = false := by
    intro c hc
    obtain rfl := Option.some.inj hc
    simp
  rw [List.cons_append, quotedBy?, if_pos rfl, dropWhile_append_of_head hu hm,
    takeWhile_append_of_head hu hm]
  exact if_pos hr

theorem quotedBy?_of_head_ne (h : ∀ c ∈ rest.head?, c ≠ mark) : quotedBy? mark rest = none := by
  cases rest with
  | nil => rfl
  | cons c rest => exact if_neg (h c rfl)

theorem isBlank_of_endsHere (hr : endsHere rest = true) :
    ∀ c ∈ rest.head?, isBlank c = true := by
  intro c hc
  rw [Option.mem_def] at hc
  simpa [endsHere, hc] using hr

theorem unquoted?_append (hne : value ≠ []) (hv : ∀ c ∈ value, isUnquoted c = true)
    (hr : endsHere rest = true) : unquoted? (value ++ rest) = some (value, rest) := by
  have hh : ∀ c ∈ rest.head?, isUnquoted c = false := by
    intro c hc
    simp [isUnquoted, isBlank_of_endsHere hr c hc]
  rw [unquoted?, takeWhile_append_of_head hv hh, dropWhile_append_of_head hv hh]
  exact if_pos ⟨hne, hr⟩

/-- A value is read by the first way of reading that knows its marks. -/
theorem marked_append (hv : marks.Fit value) (hr : endsHere rest = true) :
    (quotedBy? doubleQuote (marks.around value ++ rest) <|>
      quotedBy? singleQuote (marks.around value ++ rest) <|>
        unquoted? (marks.around value ++ rest)) = some (value, rest) := by
  cases marks with
  | double =>
    have hd : quotedBy? doubleQuote (Marks.double.around value ++ rest) = some (value, rest) := by
      rw [Marks.around, List.append_assoc]
      exact quotedBy?_append hv hr
    rw [hd]
    rfl
  | single =>
    have hd : quotedBy? doubleQuote (Marks.single.around value ++ rest) = none := by
      apply quotedBy?_of_head_ne
      rintro c hc rfl
      exact absurd (Option.some.inj hc) (by decide)
    have hs : quotedBy? singleQuote (Marks.single.around value ++ rest) = some (value, rest) := by
      rw [Marks.around, List.append_assoc]
      exact quotedBy?_append hv hr
    rw [hd, hs]
    rfl
  | none =>
    obtain ⟨hne, hu⟩ := hv
    have hq : ∀ mark, isUnquoted mark = false →
        quotedBy? mark (Marks.none.around value ++ rest) = none := by
      intro mark hm
      apply quotedBy?_of_head_ne
      rintro c hc rfl
      rw [hu c (mem_of_mem_head?_append hne c hc)] at hm
      cases hm
    rw [hq doubleQuote (by decide), hq singleQuote (by decide)]
    exact unquoted?_append hne hu hr

theorem assigned?_append (hne : name ≠ []) (hn : ∀ c ∈ name, isWord c = true)
    (hb : ∀ c ∈ before, isBlank c = true) (ha : ∀ c ∈ after, isBlank c = true)
    (hr : ∀ c ∈ rest.head?, isBlank c = false) :
    assigned? (name ++ (before ++ '=' :: (after ++ rest))) = some (name, rest) := by
  have hword : ∀ c ∈ (before ++ '=' :: (after ++ rest)).head?, isWord c = false := by
    cases before with
    | nil =>
      intro c hc
      obtain rfl := Option.some.inj hc
      decide
    | cons d before =>
      intro c hc
      obtain rfl := Option.some.inj hc
      exact isWord_eq_false_of_isBlank (hb d List.mem_cons_self)
  have hsign : ∀ c ∈ ('=' :: (after ++ rest)).head?, isBlank c = false := by
    intro c hc
    obtain rfl := Option.some.inj hc
    decide
  obtain ⟨c, name, rfl⟩ := List.exists_cons_of_ne_nil hne
  rw [assigned?, takeWhile_append_of_head hn hword, dropWhile_append_of_head hn hword,
    dropWhile_append_of_head hb hsign]
  simp only [dropWhile_append_of_head ha hr]

theorem assigned?_of_head (h : ∀ c ∈ rest.head?, isWord c = false) : assigned? rest = none := by
  cases rest with
  | nil => rfl
  | cons c rest => simp [assigned?, h c rfl]

theorem assigned?_of_no_sign
    (h : ∀ c ∈ ((rest.dropWhile isWord).dropWhile isBlank).head?, c ≠ '=') :
    assigned? rest = none := by
  rw [assigned?]
  split
  · next hsign =>
    rw [hsign] at h
    exact (h '=' rfl rfl).elim
  · rfl

/-- Behind the first word of a bare value no equals sign comes next, neither within the value nor
behind it. -/
theorem assigned?_eq_none (hv : ∀ c ∈ value, isBlank c = false) (he : '=' ∉ value)
    (hr : endsHere rest = true) (hs : ∀ c ∈ (rest.dropWhile isBlank).head?, c ≠ '=') :
    assigned? (value ++ rest) = none := by
  apply assigned?_of_no_sign
  rw [List.dropWhile_append]
  split
  · have hw : rest.dropWhile isWord = rest := by
      cases rest with
      | nil => rfl
      | cons c rest =>
        have hb : isBlank c = true := hr
        simp [isWord_eq_false_of_isBlank hb]
    rw [hw]
    exact hs
  · next hne =>
    have hmem : ∀ c ∈ (value.dropWhile isWord ++ rest).head?, c ∈ value := by
      intro c hc
      have hd := mem_of_mem_head?_append (by simpa using hne) c hc
      exact (List.dropWhile_suffix _).mem hd
    have hb : (value.dropWhile isWord ++ rest).dropWhile isBlank =
        value.dropWhile isWord ++ rest :=
      dropWhile_append_of_head (u := []) (by simp) fun c hc => hv c (hmem c hc)
    rw [hb]
    rintro c hc rfl
    exact he (hmem _ hc)

theorem Marks.Fit.head (hv : marks.Fit value) (rest : Text) :
    ∀ c ∈ (marks.around value ++ rest).head?, isBlank c = false := by
  cases marks with
  | double =>
    intro c hc
    obtain rfl := Option.some.inj hc
    decide
  | single =>
    intro c hc
    obtain rfl := Option.some.inj hc
    decide
  | none =>
    obtain ⟨hne, hu⟩ := hv
    intro c hc
    exact isBlank_eq_false_of_isUnquoted (hu c (mem_of_mem_head?_append hne c hc))

/-- A token is read back in front of white space or the end of the text, unless an equals sign comes
next, which would make a name of it. -/
theorem tokenAt_print (hw : w.Proper isBlank) (hr : endsHere rest = true)
    (hs : ∀ c ∈ (rest.dropWhile isBlank).head?, c ≠ '=') :
    tokenAt (w.print ++ rest) = (w.token, rest) := by
  cases w with
  | named name before after marks value =>
    obtain ⟨⟨hne, hn⟩, hb, ha, hv⟩ := hw
    have hassigned := assigned?_append hne hn hb ha (hv.head rest)
    have hnamed : named? ((Written.named name before after marks value).print ++ rest) =
        some (.named name value, rest) := by
      simp only [Written.print, List.append_assoc, List.cons_append, named?, hassigned,
        marked_append hv hr, Option.map_some]
    rw [tokenAt, hnamed]
    rfl
  | quoted value =>
    have hnamed : named? ((Written.quoted value).print ++ rest) = none := by
      rw [named?, assigned?_of_head]
      intro c hc
      obtain rfl := Option.some.inj hc
      decide
    have hquoted : quotedBy? doubleQuote ((Written.quoted value).print ++ rest) =
        some (value, rest) := by
      rw [Written.print, Marks.around, List.append_assoc]
      exact quotedBy?_append hw hr
    rw [tokenAt, hnamed, hquoted]
    rfl
  | bare value =>
    obtain ⟨⟨hne, hu⟩, he⟩ := hw
    have hv : ∀ c ∈ value, isBlank c = false := fun c hc =>
      isBlank_eq_false_of_isUnquoted (hu c hc)
    have hnamed : named? (value ++ rest) = none := by
      rw [named?, assigned?_eq_none hv he hr hs]
    have hquoted : quotedBy? doubleQuote (value ++ rest) = none := by
      apply quotedBy?_of_head_ne
      rintro c hc rfl
      exact absurd (hu _ (mem_of_mem_head?_append hne _ hc)) (by decide)
    have hin : ∀ c ∈ value, (!isBlank c) = true := by
      intro c hc
      rw [hv c hc]
      rfl
    have hout : ∀ c ∈ rest.head?, (!isBlank c) = false := by
      intro c hc
      rw [isBlank_of_endsHere hr c hc]
      rfl
    rw [tokenAt, Written.print, hnamed, hquoted]
    dsimp only
    rw [takeWhile_append_of_head hin hout, dropWhile_append_of_head hin hout]
    rfl

end Shortcode.Attributes
