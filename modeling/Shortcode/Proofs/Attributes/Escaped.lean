import Shortcode.Proofs.Attributes.EscapeUnits

/-! Texts whose characters are written with escapes, and what is read of them. A character that is
written is one unit whatever follows it, so it is read back. -/
namespace Shortcode.Attributes
variable {t : Text} {c : Char}

/-- How a character is written: as it is, with a backslash doubled; with two hexadecimal digits, each
in upper case or not; or with three octal digits. -/
inductive Style where
  | direct
  | hex (upper upper' : Bool)
  | octal
deriving DecidableEq

def hexDigit (upper : Bool) (n : Nat) : Char :=
  if upper then (Nat.digitChar n).toUpper else Nat.digitChar n

namespace Style

def write : Style → Char → Text
  | direct, c => if c = '\\' then ['\\', '\\'] else [c]
  | hex upper upper', c =>
    ['\\', 'x', hexDigit upper (c.toNat / 16), hexDigit upper' (c.toNat % 16)]
  | octal, c =>
    ['\\', Nat.digitChar (c.toNat / 64), Nat.digitChar (c.toNat / 8 % 8), Nat.digitChar (c.toNat % 8)]

/-- Digits can be written for the first 256 characters only. -/
def Suits (style : Style) (c : Char) : Prop := style = .direct ∨ c.toNat < 256

instance (style : Style) (c : Char) : Decidable (style.Suits c) :=
  inferInstanceAs (Decidable (_ ∨ _))

end Style

/-- Characters, each in its own style, as one text. -/
def written (items : List (Char × Style)) : Text := items.flatMap fun i => i.2.write i.1

theorem hexDigit?_hexDigit (upper : Bool) {n : Nat} (h : n < 16) :
    hexDigit? (hexDigit upper n) = some n := by
  have hall : ∀ upper, ∀ n < 16, hexDigit? (hexDigit upper n) = some n := by decide
  exact hall upper n h

theorem octalDigit?_digitChar {n : Nat} (h : n < 8) : octalDigit? (Nat.digitChar n) = some n := by
  have hall : ∀ n < 8, octalDigit? (Nat.digitChar n) = some n := by decide
  exact hall n h

variable {style : Style} {items : List (Char × Style)}

/-- What is written for a character is one unit in front of any text, since no style leaves room for
another digit. -/
theorem Style.Suits.exists_unit (h : style.Suits c) :
    ∃ u, style.write c = EscapeUnit.print u ∧ u.meaning = c ∧ ∀ rest, u.Fits rest := by
  cases style with
  | direct =>
    by_cases hc : c = '\\'
    · subst hc
      refine ⟨.other '\\', rfl, rfl, ?_⟩
      intro rest
      exact ⟨rfl, fun hx => absurd hx (by decide)⟩
    · exact ⟨.plain c, if_neg hc, rfl, fun _ => hc⟩
  | hex upper upper' =>
    have hlt : c.toNat < 256 := by simpa [Suits] using h
    have hhigh := hexDigit?_hexDigit upper (n := c.toNat / 16) (by omega)
    have hlow := hexDigit?_hexDigit upper' (n := c.toNat % 16) (by omega)
    refine ⟨.hex [hexDigit upper (c.toNat / 16), hexDigit upper' (c.toNat % 16)], rfl, ?_, ?_⟩
    · have hvalue : c.toNat % 16 + 16 * (c.toNat / 16) = c.toNat := by omega
      simp [EscapeUnit.meaning, hhigh, hlow, Nat.ofDigits_cons, hvalue]
    · intro rest
      exact ⟨List.cons_ne_nil _ _, Nat.le_refl 2, by simp [hhigh, hlow], fun hl => absurd hl (by simp)⟩
  | octal =>
    have hlt : c.toNat < 256 := by simpa [Suits] using h
    have hhigh := octalDigit?_digitChar (n := c.toNat / 64) (by omega)
    have hmiddle := octalDigit?_digitChar (n := c.toNat / 8 % 8) (by omega)
    have hlow := octalDigit?_digitChar (n := c.toNat % 8) (by omega)
    refine ⟨.octal [Nat.digitChar (c.toNat / 64), Nat.digitChar (c.toNat / 8 % 8),
      Nat.digitChar (c.toNat % 8)], rfl, ?_, ?_⟩
    · have hvalue : (c.toNat % 8 + 8 * (c.toNat / 8 % 8 + 8 * (c.toNat / 64))) % 256 = c.toNat := by
        omega
      simp [EscapeUnit.meaning, hhigh, hmiddle, hlow, Nat.ofDigits_cons, hvalue]
    · intro rest
      exact ⟨List.cons_ne_nil _ _, Nat.le_refl 3, by simp [hhigh, hmiddle, hlow],
        fun hl => absurd hl (by simp)⟩

theorem unescape_written (h : ∀ i ∈ items, i.2.Suits i.1) :
    unescape (written items) = items.map Prod.fst := by
  induction items with
  | nil => rfl
  | cons i items ih =>
    obtain ⟨u, hwrite, hmeaning, hfits⟩ := (h i List.mem_cons_self).exists_unit
    have hrest := ih fun j hj => h j (List.mem_cons_of_mem i hj)
    rw [written] at hrest ⊢
    rw [List.flatMap_cons, hwrite, unescape_print_append (hfits _), hmeaning, hrest, List.map_cons]

theorem unescape_flatMap_direct (t : Text) : unescape (t.flatMap Style.direct.write) = t := by
  have hsuits : ∀ i ∈ t.map fun c => (c, Style.direct), i.2.Suits i.1 := by simp [Style.Suits]
  have hd := unescape_written hsuits
  simpa [written, List.flatMap_map, Function.comp_def] using hd

/-- One hexadecimal digit, three octal digits whose value wraps with a further digit behind them, and
a lone backslash. -/
theorem splits_mixed : Splits ['\\', 'x', '4', 'g', '\\', '5', '0', '1', '2', '\\']
    [.hex ['4'], .plain 'g', .octal ['5', '0', '1'], .plain '2'] ['\\'] := by
  have hhex : (EscapeUnit.hex ['4']).Fits ['g', '\\', '5', '0', '1', '2', '\\'] :=
    ⟨List.cons_ne_nil _ _, Nat.le_succ 1, by simp [hexDigit?], by simp [hexDigit?]⟩
  have hoctal : (EscapeUnit.octal ['5', '0', '1']).Fits ['2', '\\'] :=
    ⟨List.cons_ne_nil _ _, Nat.le_refl 3, by simp [octalDigit?], by simp⟩
  have hg : (EscapeUnit.plain 'g').Fits ['\\', '5', '0', '1', '2', '\\'] := by
    simp [EscapeUnit.Fits]
  have htwo : (EscapeUnit.plain '2').Fits ['\\'] := by simp [EscapeUnit.Fits]
  exact .cons hhex (.cons hg (.cons hoctal (.cons htwo .lone)))

end Shortcode.Attributes
