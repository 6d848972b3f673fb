import Mathlib.Order.Bounds.Basic
import Shortcode.Proofs.Scan.Search
import Shortcode.Proofs.Text.Offsets

/-! A match by the offsets of its tag in the text, without a scan or a pattern. -/
namespace Shortcode.Scan
open Text
variable {names : List Text} {content name rest t u : Text} {b p start : Nat}
  {m : TagMatch}

/-- A tag can bear a name behind the bracket at `b`: the name is there, a word boundary follows it,
and so does some closing bracket. -/
def Fits (content : Text) (b : Nat) (name : Text) : Prop :=
  content[b]? = some '[' ∧ name <+: content.drop (b + 1) ∧
    Text.isBoundary content[b + name.length]? content[b + 1 + name.length]? = true ∧
    ∃ q, b + 1 + name.length ≤ q ∧ content[q]? = some ']'

/-- The first of the names that fits. -/
def FirstFit (names : List Text) (content : Text) (b : Nat) (name : Text) : Prop :=
  Fits content b name ∧ ∃ earlier later, names = earlier ++ name :: later ∧
    ∀ n ∈ earlier, ¬ Fits content b n

/-- A tag with one of the names opens at the bracket at `b`. -/
def Opens (names : List Text) (content : Text) (b : Nat) : Prop :=
  ∃ name ∈ names, Fits content b name

/-- A match can start at `p`: a tag opens there or one character further on. -/
def Starts (names : List Text) (content : Text) (p : Nat) : Prop :=
  Opens names content (p + 1) ∨ Opens names content p

/-- Offsets of a tag: its opening bracket, the bracket that closes the opening, and its end. -/
structure Layout where
  bracket : Nat
  close : Nat
  last : Nat

/-- The parts of a match that stand in the opening of its tag. -/
structure Layout.Opening (l : Layout) (names : List Text) (content : Text) (m : TagMatch) :
    Prop where
  /-- A tag behind the first character is preferred to one at it. -/
  leading : l.bracket = m.start + 1 ∧ m.leading = content.extract m.start (m.start + 1) ∨
    l.bracket = m.start ∧ m.leading = [] ∧ ¬ Opens names content (m.start + 1)
  tag : FirstFit names content l.bracket m.tag
  close : IsLeast {q | l.bracket + 1 + m.tag.length ≤ q ∧ content[q]? = some ']'} l.close
  selfClosing : m.selfClosing = true ↔
    l.bracket + 1 + m.tag.length < l.close ∧ content[l.close - 1]? = some '/'
  rawAttributes : m.rawAttributes =
    content.extract (l.bracket + 1 + m.tag.length) (l.close - m.selfClosing.toNat)

/-- The parts of a match from the closing bracket on. -/
structure Layout.Ending (l : Layout) (content : Text) (m : TagMatch) : Prop where
  enclosed :
    (∃ k, IsLeast {k | l.close + 2 ≤ k ∧ closer m.tag <+: content.drop k} k ∧
      m.content = some (content.extract (l.close + 1) k) ∧ l.last = k + (closer m.tag).length) ∨
    ((∀ k, l.close + 2 ≤ k → ¬ closer m.tag <+: content.drop k) ∧
      m.content = none ∧ l.last = l.close + 1)
  trailing : m.trailing = content.extract l.last (l.last + 1)
  stop : m.stop = l.last + m.trailing.length
  text : m.text = content.extract m.start m.stop

/-- The parts of a match are those that the offsets of its tag give. -/
def Layout.Describes (l : Layout) (names : List Text) (content : Text) (m : TagMatch) : Prop :=
  l.Opening names content m ∧ l.Ending content m

/-- The character in front of what follows a name. -/
theorem getElem?_length_name (name rest : Text) :
    ('[' :: (name ++ rest))[name.length]? = (name.getLast? <|> some '[') := by
  rcases List.eq_nil_or_concat name with rfl | ⟨u, c, rfl⟩
  · rfl
  · simp

theorem fits_iff_admits (h : content.drop b = '[' :: (name ++ rest)) :
    Fits content b name ↔ admits name rest = true := by
  have h0 : content[b]? = some '[' := getElem?_of_drop h 0
  have hn : content.drop (b + 1) = name ++ rest := drop_of_drop (u := ['[']) h
  have hr : content.drop (b + 1 + name.length) = rest := drop_of_drop hn
  have hl : content[b + name.length]? = (name.getLast? <|> some '[') := by
    rw [getElem?_of_drop h, getElem?_length_name]
  have hh : content[b + 1 + name.length]? = rest.head? := by rw [← hr, List.head?_drop]
  rw [Fits, admits, hl, hh, hn, ← mem_drop_iff, hr]
  simp [h0]

theorem fits_iff : Fits content b name ↔
    ∃ rest, content.drop b = '[' :: (name ++ rest) ∧ admits name rest = true := by
  constructor
  · intro h
    obtain ⟨rest, hr⟩ := h.2.1
    have hd : content.drop b = '[' :: (name ++ rest) := by
      rw [drop_cons_of_getElem? h.1, ← hr]
    exact ⟨rest, hd, (fits_iff_admits hd).mp h⟩
  · rintro ⟨rest, hd, ha⟩
    exact (fits_iff_admits hd).mpr ha

theorem nameAt?_drop_eq_none_iff (hb : content[b]? = some '[') :
    nameAt? names (content.drop (b + 1)) = none ↔ ∀ n ∈ names, ¬ Fits content b n := by
  rw [nameAt?_eq_none_iff]
  constructor
  · intro h n hn hf
    obtain ⟨rest, hd, ha⟩ := fits_iff.mp hf
    rw [h n hn rest (drop_of_drop (u := ['[']) hd)] at ha
    cases ha
  · intro h n hn rest hr
    by_contra ha
    apply h n hn
    rw [fits_iff]
    exact ⟨rest, by rw [drop_cons_of_getElem? hb, hr], by simpa using ha⟩

theorem nameBehind?_drop_eq_none_iff :
    nameBehind? names (content.drop b) = none ↔ ¬ Opens names content b := by
  by_cases hb : content[b]? = some '['
  · rw [drop_cons_of_getElem? hb, nameBehind?, if_pos rfl, nameAt?_drop_eq_none_iff hb]
    simp [Opens]
  · constructor
    · rintro - ⟨n, -, hf⟩
      exact hb hf.1
    · intro _
      rw [Option.eq_none_iff_forall_ne_some]
      intro r hr
      exact hb (getElem?_of_drop (nameBehind?_eq_some_iff.mp hr).1 0)

theorem firstFit_iff : FirstFit names content b name ↔
    nameBehind? names (content.drop b) = some (name, content.drop (b + 1 + name.length)) := by
  constructor
  · rintro ⟨hf, earlier, later, rfl, he⟩
    obtain ⟨rest, hd, ha⟩ := fits_iff.mp hf
    have hn : content.drop (b + 1) = name ++ rest := drop_of_drop (u := ['[']) hd
    have he := (nameAt?_drop_eq_none_iff hf.1).mpr he
    rw [nameBehind?_eq_some_iff, nameAt?_eq_some_iff, drop_of_drop hn, ← hn]
    exact ⟨drop_cons_of_getElem? hf.1, rfl, ha, earlier, later, rfl, he⟩
  · intro h
    obtain ⟨hd, hn⟩ := nameBehind?_eq_some_iff.mp h
    obtain ⟨-, ha, earlier, later, rfl, he⟩ := nameAt?_eq_some_iff.mp hn
    have hf : Fits content b name := fits_iff.mpr ⟨_, hd, ha⟩
    have ht : content.drop (b + 1) = name ++ content.drop (b + 1 + name.length) :=
      drop_of_drop (u := ['[']) hd
    rw [← ht] at he
    exact ⟨hf, earlier, later, rfl, (nameAt?_drop_eq_none_iff hf.1).mp he⟩

theorem FirstFit.opens (h : FirstFit names content b name) : Opens names content b := by
  obtain ⟨hf, earlier, later, rfl, -⟩ := h
  exact ⟨name, by simp, hf⟩

theorem FirstFit.unique {n : Text} (h : FirstFit names content b name)
    (h' : FirstFit names content b n) : name = n := by
  have he := (firstFit_iff.mp h).symm.trans (firstFit_iff.mp h')
  exact congrArg Prod.fst (Option.some.inj he)

theorem matchAt?_drop_eq_none_iff :
    matchAt? names start (content.drop p) = none ↔ ¬ Starts names content p := by
  have hd : (content.drop p).drop 1 = content.drop (p + 1) := List.drop_drop
  rw [matchAt?, opensAt?_eq_map, opensAt?_eq_map, hd, Starts, not_or,
    ← nameBehind?_drop_eq_none_iff, ← nameBehind?_drop_eq_none_iff]
  cases nameBehind? names (content.drop (p + 1)) <;>
    cases nameBehind? names (content.drop p) <;> simp

theorem isLeast_close {e : Nat} (h : content.drop e = u ++ ']' :: t) (hu : ']' ∉ u) :
    IsLeast {q | e ≤ q ∧ content[q]? = some ']'} (e + u.length) := by
  refine ⟨⟨Nat.le_add_right _ _, ?_⟩, ?_⟩
  · rw [getElem?_of_drop h]
    simp
  · rintro q ⟨hq, hc⟩
    by_contra hlt
    obtain ⟨i, rfl⟩ := Nat.exists_eq_add_of_le hq
    rw [getElem?_of_drop h, List.getElem?_append_left (by omega)] at hc
    exact hu (List.mem_of_getElem? hc)

theorem getLast?_slash_iff {e : Nat} (h : content.drop e = u ++ t) :
    u.getLast? = some '/' ↔ e < e + u.length ∧ content[e + u.length - 1]? = some '/' := by
  rcases List.eq_nil_or_concat u with rfl | ⟨v, c, rfl⟩
  · simp
  · have hc : content[e + v.length]? = some c := by
      rw [getElem?_of_drop h]
      simp
    have hlt : e < e + v.length + 1 := by omega
    simp [← Nat.add_assoc, hc, hlt]

theorem rawAttributes_eq_extract {e : Nat} {slash : Bool} (h : content.drop e = u ++ t)
    (hs : slash = true ↔ u.getLast? = some '/') :
    (if u.getLast? = some '/' then u.dropLast else u) =
      content.extract e (e + u.length - slash.toNat) := by
  cases slash with
  | true =>
    have hn : e + u.length - 1 - e = u.length - 1 := by omega
    have hd : content.extract e (e + u.length - 1) = u.dropLast := by
      rw [List.extract_eq_take_drop, h, hn, List.take_append_of_le_length (Nat.sub_le _ _),
        List.dropLast_eq_take]
    rw [if_pos (hs.mp rfl)]
    exact hd.symm
  | false =>
    have hl : u.getLast? ≠ some '/' := fun hl => Bool.false_ne_true (hs.mpr hl)
    rw [if_neg hl]
    exact (extract_of_drop h).symm

theorem isLeast_closer {k : Nat} (h : content.drop k = t)
    (he : enclosedAt? name t = some (u, rest)) :
    IsLeast {j | k + 1 ≤ j ∧ closer name <+: content.drop j} (k + u.length) := by
  obtain ⟨rfl, hne, hk⟩ := enclosedAt?_eq_some_iff.mp he
  have hl := List.length_pos_iff.mpr hne
  refine ⟨⟨by omega, ?_⟩, ?_⟩
  · rw [drop_of_drop h]
    exact List.prefix_append _ _
  · rintro j ⟨hj, hc⟩
    by_contra hlt
    obtain ⟨i, rfl⟩ := Nat.exists_eq_add_of_le (Nat.le_of_succ_le hj)
    rw [← List.drop_drop, h] at hc
    exact hk i (by omega) (by omega) hc

theorem not_closer {k : Nat} (h : content.drop k = t) (he : enclosedAt? name t = none) (j : Nat)
    (hj : k + 1 ≤ j) : ¬ closer name <+: content.drop j := by
  obtain ⟨i, rfl⟩ := Nat.exists_eq_add_of_le (Nat.le_of_succ_le hj)
  rw [← List.drop_drop, h]
  exact enclosedAt?_eq_none_iff.mp he i (by omega)

/-- The offset of the bracket and the characters in front of it, for the match at `start`. -/
theorem leading_of_drop {leading : Text} (ht : content.drop start = leading ++ t)
    (hl : leading.length ≤ 1)
    (hf : leading = [] → nameBehind? names ((content.drop start).drop 1) = none) :
    start + leading.length = start + 1 ∧ leading = content.extract start (start + 1) ∨
      start + leading.length = start ∧ leading = [] ∧ ¬ Opens names content (start + 1) := by
  cases leading with
  | nil =>
    have hn := hf rfl
    rw [List.drop_drop, nameBehind?_drop_eq_none_iff] at hn
    exact Or.inr ⟨rfl, rfl, hn⟩
  | cons c cs =>
    have hc : cs = [] := List.length_eq_zero_iff.mp (by simpa using hl)
    subst hc
    exact Or.inl ⟨rfl, (extract_of_drop (u := [c]) ht).symm⟩

theorem opening_tagOf {leading after : Text} (last : Nat)
    (ht : content.drop start = leading ++ '[' :: (name ++ (u ++ ']' :: after)))
    (hl : leading.length ≤ 1)
    (hf : leading = [] → nameBehind? names ((content.drop start).drop 1) = none)
    (hn : nameAt? names (name ++ (u ++ ']' :: after)) = some (name, u ++ ']' :: after))
    (hu : ']' ∉ u) :
    Layout.Opening ⟨start + leading.length, start + leading.length + 1 + name.length + u.length,
      last⟩ names content (tagOf start leading name (u ++ ']' :: after)) := by
  have hb : content.drop (start + leading.length) = '[' :: (name ++ (u ++ ']' :: after)) :=
    drop_of_drop ht
  have hx : content.drop (start + leading.length + 1) = name ++ (u ++ ']' :: after) :=
    drop_of_drop (u := ['[']) hb
  have he : content.drop (start + leading.length + 1 + name.length) = u ++ ']' :: after :=
    drop_of_drop hx
  have hself := tagOf_selfClosing start leading name after hu
  refine ⟨leading_of_drop ht hl hf, ?_, isLeast_close he hu, ?_, ?_⟩
  · show FirstFit names content (start + leading.length) name
    rw [firstFit_iff, hb, he, nameBehind?_eq_some_iff]
    exact ⟨rfl, hn⟩
  · rw [hself]
    exact getLast?_slash_iff he
  · rw [tagOf_rawAttributes start leading name after hu]
    exact rawAttributes_eq_extract he hself

theorem ending_tagOf {leading after : Text}
    (ht : content.drop start = leading ++ '[' :: (name ++ (u ++ ']' :: after))) (hu : ']' ∉ u) :
    ∃ last, Layout.Ending ⟨start + leading.length,
      start + leading.length + 1 + name.length + u.length, last⟩ content
      (tagOf start leading name (u ++ ']' :: after)) := by
  have hi := insideAt_append hu after
  have htext : (tagOf start leading name (u ++ ']' :: after)).text =
      content.extract start (tagOf start leading name (u ++ ']' :: after)).stop := by
    have hm : ']' ∈ u ++ ']' :: after := by simp
    have hd := ht.trans (tagOf_text_append start leading name hm).symm
    exact (extract_of_drop hd).symm
  obtain ⟨q, hq⟩ : ∃ q, start + leading.length + 1 + name.length + u.length = q := ⟨_, rfl⟩
  have ha : content.drop (q + 1) = after := by
    have hd := drop_of_drop (u := leading ++ '[' :: (name ++ (u ++ [']']))) (by simpa using ht)
    rw [← hd]
    congr 1
    simp
    omega
  rw [hq]
  cases hc : enclosedAt? name after with
  | none =>
    refine ⟨q + 1, Or.inr ⟨not_closer ha hc, by simp [tagOf, hi, hc], rfl⟩, ?_, ?_, htext⟩
    · simp [tagOf, hi, hc, ha]
    · simp [tagOf, hi, hc]
      omega
  | some r =>
    obtain ⟨t, tail⟩ := r
    have ht := (enclosedAt?_eq_some_iff.mp hc).1
    have htail : content.drop (q + 1 + t.length + (closer name).length) = tail :=
      drop_of_drop (drop_of_drop (ha.trans ht))
    refine ⟨q + 1 + t.length + (closer name).length,
      Or.inl ⟨q + 1 + t.length, isLeast_closer ha hc, ?_, rfl⟩, ?_, ?_, htext⟩
    · rw [extract_of_drop (ha.trans ht)]
      simp [tagOf, hi, hc]
    · simp [tagOf, hi, hc, htail]
    · simp [tagOf, hi, hc]
      omega

theorem describes_of_matchAt? (h : matchAt? names start (content.drop start) = some m) :
    ∃ l : Layout, l.Describes names content m := by
  obtain ⟨leading, name, rest, ht, hl, hn, rfl, hf⟩ := matchAt?_eq_some h
  obtain ⟨u, after, rfl, hu⟩ :=
    List.eq_append_cons_of_mem (mem_of_admits (nameAt?_eq_some_iff.mp hn).2.1)
  obtain ⟨last, he⟩ := ending_tagOf ht hu
  exact ⟨_, opening_tagOf last ht hl hf hn hu, he⟩

end Shortcode.Scan
