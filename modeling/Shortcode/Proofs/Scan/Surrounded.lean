import Shortcode.Proofs.Scan.Enclosed
import Shortcode.Proofs.Scan.Replace

/-! Plain text around a text makes no difference to its matches, but for the characters in front of the
first tag and behind the last one. -/
namespace Shortcode
variable {u v t : Text} {k start : Nat}

namespace TagMatch

/-- The character that a tag at the front of a text gets before it from a text in front. -/
def newLeading (u : Text) (m : TagMatch) : Text :=
  if m.start = 0 ∧ m.leading = [] then u.getLast?.toList else []

/-- The character that a tag at the end of a text gets behind it from a text behind. -/
def newTrailing (v : Text) (m : TagMatch) : Text := if m.trailing = [] then v.take 1 else []

/-- A match with more text behind. -/
def followed (v : Text) (m : TagMatch) : TagMatch :=
  { m with
    trailing := m.trailing ++ m.newTrailing v, text := m.text ++ m.newTrailing v
    stop := m.stop + (m.newTrailing v).length }

/-- A match with more text in front. -/
def preceded (u : Text) (m : TagMatch) : TagMatch :=
  { m with
    leading := m.newLeading u ++ m.leading, text := m.newLeading u ++ m.text
    start := u.length + m.start - (m.newLeading u).length, stop := u.length + m.stop }

/-- A match with more text on both sides. -/
def between (u v : Text) (m : TagMatch) : TagMatch := (m.followed v).preceded u

/-- A match further on in a text. -/
def shift (k : Nat) (m : TagMatch) : TagMatch := { m with start := k + m.start, stop := k + m.stop }

theorem followed_of_trailing {m : TagMatch} (h : m.trailing ≠ []) : m.followed v = m := by
  simp [followed, newTrailing, h]

theorem preceded_eq_shift {m : TagMatch} (h : ¬ (m.start = 0 ∧ m.leading = [])) :
    m.preceded u = m.shift u.length := by
  simp [preceded, newLeading, shift, h]

end TagMatch

namespace Scan
variable {names : List Text} {name rest c : Text} {m : TagMatch} {ms : List TagMatch}

theorem mem_of_nameBehind? {r : Text × Text} (h : nameBehind? names t = some r) : ']' ∈ r.2 :=
  mem_of_admits (nameAt?_eq_some_iff.mp (nameBehind?_eq_some_iff.mp h).2).2.1

/-! More text behind. -/

section Behind
variable (hv : ']' ∉ v)
include hv

theorem admits_append (name rest : Text) : admits name (rest ++ v) = admits name rest := by
  cases rest with
  | nil => simp [admits, hv]
  | cons c rest => simp [admits, hv]

theorem nameAt?_append_right (names : List Text) (t : Text) :
    nameAt? names (t ++ v) = (nameAt? names t).map fun r => (r.1, r.2 ++ v) := by
  apply nameAt?_append_of_admits
  · intro name rest _
    exact admits_append hv name rest
  · intro name rest ht ha
    -- the closing bracket of the opening does not stand in `v`
    rcases List.append_eq_append_iff.mp ht with ⟨w, rfl, hw⟩ | ⟨w, rfl, rfl⟩
    · exact (hv (hw ▸ List.mem_append_right _ (mem_of_admits ha))).elim
    · exact ⟨w, rfl, rfl⟩

theorem closer_isPrefix_append_iff : closer name <+: t ++ v ↔ closer name <+: t := by
  constructor
  · rintro ⟨x, hx⟩
    rcases List.append_eq_append_iff.mp hx with ⟨w, rfl, -⟩ | ⟨w, hw, rfl⟩
    · exact List.prefix_append _ _
    · rcases List.eq_nil_or_concat' w with rfl | ⟨w, y, rfl⟩
      · exact ⟨[], by simpa using hw⟩
      · rw [← List.append_assoc] at hw
        obtain ⟨-, hy⟩ := List.append_inj' hw rfl
        obtain rfl := List.singleton_inj.mp hy
        exact absurd hv (by simp)
  · exact fun h => h.trans (List.prefix_append _ _)

theorem not_closer_isInfix : ¬ closer name <:+: v := fun h => hv (h.subset (by simp [closer]))

theorem cut?_closer_append (t : Text) :
    Text.cut? (closer name) (t ++ v) = (Text.cut? (closer name) t).map fun r => (r.1, r.2 ++ v) := by
  induction t with
  | nil =>
    rw [List.nil_append, Text.cut?_eq_none_iff_notInfix.mpr (not_closer_isInfix hv),
      Text.cut?_nil (by simp [closer])]
    rfl
  | cons c t ih =>
    by_cases h : closer name <+: c :: t
    · obtain ⟨rest, hr⟩ := h
      rw [← hr, List.append_assoc, Text.cut?_mark_append, Text.cut?_mark_append]
      rfl
    · have h' : ¬ closer name <+: c :: (t ++ v) := fun hp =>
        h ((closer_isPrefix_append_iff (t := c :: t) hv).mp hp)
      rw [List.cons_append, Text.cut?_cons h', Text.cut?_cons h, ih, Option.map_map, Option.map_map]
      rfl

theorem enclosedAt?_append_right (t : Text) :
    enclosedAt? name (t ++ v) = (enclosedAt? name t).map fun r => (r.1, r.2 ++ v) := by
  cases t with
  | nil => exact enclosedAt?_of_notInfix (not_closer_isInfix hv)
  | cons c t =>
    rw [List.cons_append, enclosedAt?, enclosedAt?, cut?_closer_append hv, Option.map_map,
      Option.map_map]
    rfl

theorem tagOf_append (start : Nat) (leading name : Text) (hm : ']' ∈ rest) :
    tagOf start leading name (rest ++ v) = (tagOf start leading name rest).followed v := by
  obtain ⟨inside, after, rfl, hu⟩ := List.eq_append_cons_of_mem hm
  have hi := insideAt_append hu after
  have hiv := insideAt_append hu (after ++ v)
  have htake : ∀ x : Text, (x ++ v).take 1 = x.take 1 ++ if x.take 1 = [] then v.take 1 else [] := by
    intro x
    cases x <;> simp
  cases he : enclosedAt? name after with
  | none =>
    simp [tagOf, TagMatch.followed, TagMatch.newTrailing, hi, hiv, he, enclosedAt?_append_right hv,
      htake]
    omega
  | some r =>
    simp [tagOf, TagMatch.followed, TagMatch.newTrailing, hi, hiv, he, enclosedAt?_append_right hv,
      htake]
    omega

variable (hb : '[' ∉ v)
include hb

theorem nameBehind?_append_right (names : List Text) (t : Text) :
    nameBehind? names (t ++ v) = (nameBehind? names t).map fun r => (r.1, r.2 ++ v) := by
  cases t with
  | nil =>
    apply nameBehind?_of_head_ne
    rintro c hc rfl
    exact hb (List.mem_of_mem_head? hc)
  | cons c t =>
    rw [List.cons_append, nameBehind?, nameBehind?, nameAt?_append_right hv]
    split <;> rfl

theorem opensAt?_append (names : List Text) (start : Nat) (leading t : Text) :
    opensAt? names start leading (t ++ v) =
      (opensAt? names start leading t).map (·.followed v) := by
  rw [opensAt?_eq_map, opensAt?_eq_map, nameBehind?_append_right hv hb, Option.map_map,
    Option.map_map]
  refine Option.map_congr fun r hr => ?_
  exact tagOf_append hv start leading r.1 (mem_of_nameBehind? hr)

theorem matchAt?_append (names : List Text) (start : Nat) (t : Text) :
    matchAt? names start (t ++ v) = (matchAt? names start t).map (·.followed v) := by
  cases t with
  | nil =>
    cases v with
    | nil => rfl
    | cons c v =>
      have hn : matchAt? names start (c :: (v ++ [])) = none := matchAt?_of_notMem hb rfl
      rwa [List.append_nil] at hn
  | cons c t =>
    have hfirst := opensAt?_append hv hb names start [c] t
    have hsecond := opensAt?_append hv hb names start [] (c :: t)
    show (opensAt? names start [c] (t ++ v) <|> opensAt? names start [] (c :: t ++ v)) =
      (opensAt? names start [c] t <|> opensAt? names start [] (c :: t)).map (·.followed v)
    rw [hfirst, hsecond]
    cases opensAt? names start [c] t <;> rfl

end Behind

theorem tail_eq_nil_of_trailing {tail : Text}
    (h : matchAt? names start (m.text ++ tail) = some m) (ht : m.trailing = []) : tail = [] := by
  obtain ⟨leading, name, rest, hx, -, hn, rfl, -⟩ := matchAt?_eq_some h
  have hm := mem_of_admits (nameAt?_eq_some_iff.mp hn).2.1
  rw [← tagOf_text_append start leading name hm] at hx
  obtain rfl := List.append_cancel_left hx
  obtain ⟨inside, after, rfl, hu⟩ := List.eq_append_cons_of_mem hm
  rw [tagOf_trailing start leading name after hu] at ht
  rw [behind_append name after hu]
  cases hx : ((enclosedAt? name after).map (·.2)).getD after with
  | nil => rfl
  | cons c x => simp [hx] at ht

theorem found_plain (hb : '[' ∉ v) (names : List Text) (start : Nat) : Found names start v [] := by
  have hs : scanAfter names 0 start (v ++ []) = [] := scanAfter_gap hb fun _ => rfl
  rw [List.append_nil] at hs
  exact found_iff.mpr hs

/-- By induction on the search: only a match whose tag ends the text gets a character more. -/
theorem Found.append (hv : ']' ∉ v) (hb : '[' ∉ v) (h : Found names start t ms) :
    Found names start (t ++ v) (ms.map (·.followed v)) := by
  induction h with
  | nil => exact found_plain hb names _
  | @skip start c rest ms hm _ ih =>
    have hmv := matchAt?_append hv hb names start (c :: rest)
    rw [hm] at hmv
    exact .skip hmv ih
  | @take start m tail ms hm hf ih =>
    have hmv := matchAt?_append hv hb names start (m.text ++ tail)
    rw [hm] at hmv
    by_cases ht : m.trailing = []
    · obtain rfl := tail_eq_nil_of_trailing hm ht
      obtain rfl : [] = ms := hf.eq_scanAfter
      have hsplit : m.text ++ [] ++ v = (m.followed v).text ++ v.drop 1 := by
        simp [TagMatch.followed, TagMatch.newTrailing, ht, take_one_append_tail]
      rw [hsplit] at hmv ⊢
      exact .take hmv (found_plain (fun hd => hb (List.mem_of_mem_drop hd)) names _)
    · rw [List.map_cons, TagMatch.followed_of_trailing ht]
      rw [Option.map_some, TagMatch.followed_of_trailing ht] at hmv
      rw [List.append_assoc] at hmv ⊢
      exact .take hmv ih

theorem scan_append (hv : ']' ∉ v) (hb : '[' ∉ v) (names : List Text) (c : Text) :
    scan names (c ++ v) = (scan names c).map (·.followed v) :=
  ((found_scan names c).append hv hb).eq_scanAfter

/-! More text in front. -/

theorem matchAt?_shift (names : List Text) (k start : Nat) (t : Text) :
    matchAt? names (k + start) t = (matchAt? names start t).map (·.shift k) := by
  have hopens : ∀ leading x, opensAt? names (k + start) leading x =
      (opensAt? names start leading x).map (·.shift k) := by
    intro leading x
    rw [opensAt?_eq_map, opensAt?_eq_map, Option.map_map]
    congr 1
    funext r
    simp [tagOf, TagMatch.shift, Nat.add_assoc]
  rw [matchAt?, matchAt?, hopens, hopens]
  cases opensAt? names start (t.take 1) (t.drop 1) <;> rfl

theorem Found.shift (h : Found names start t ms) (k : Nat) :
    Found names (k + start) t (ms.map (·.shift k)) := by
  induction h with
  | nil => exact .nil
  | skip hm _ ih =>
    refine .skip ?_ ih
    rw [matchAt?_shift, hm]
    rfl
  | @take start m tail ms hm _ ih =>
    have hs := matchAt?_shift names k start (m.text ++ tail)
    rw [hm] at hs
    exact .take (m := m.shift k) hs ih

/-- Behind a tag that opens at a bracket none opens at the next character. -/
theorem nameBehind?_tail_eq_none (hn : ∀ n ∈ names, '[' ∉ n) {r : Text × Text}
    (h : nameBehind? names t = some r) : nameBehind? names (t.drop 1) = none := by
  obtain ⟨rfl, hr⟩ := nameBehind?_eq_some_iff.mp h
  obtain ⟨-, ha, earlier, later, rfl, -⟩ := nameAt?_eq_some_iff.mp hr
  apply nameBehind?_of_head_ne
  rintro d hd rfl
  cases hname : r.1 with
  | cons c name =>
    obtain rfl : c = '[' := by simpa [hname] using hd
    exact hn r.1 (by simp) (by simp [hname])
  | nil =>
    -- a word character follows an empty name
    obtain ⟨rest, hrest⟩ : ∃ rest, r.2 = '[' :: rest := by
      cases hx : r.2 with
      | nil => simp [hname, hx] at hd
      | cons c rest =>
        obtain rfl : c = '[' := by simpa [hname, hx] using hd
        exact ⟨rest, rfl⟩
    rw [admits, Bool.and_eq_true, hname, hrest] at ha
    have hb : Text.isBoundary (some '[') (some '[') = true := ha.1
    exact absurd hb (by decide)

/-- Only where a tag opens the text a match can begin with the bracket at its front. -/
theorem not_front (hb : nameBehind? names c = none) (hm : m ∈ scan names c) :
    ¬ (m.start = 0 ∧ m.leading = []) := by
  rintro ⟨hs, hl⟩
  obtain ⟨l, hd⟩ := (finds_scan names c).exists_describes m hm
  have ho := hd.1.tag.opens
  rw [hd.bracket_eq, hs, hl] at ho
  exact nameBehind?_drop_eq_none_iff.mp hb ho

theorem scanAfter_shift (names : List Text) (k start : Nat) (t : Text) :
    scanAfter names 0 (k + start) t = (scanAfter names 0 start t).map (·.shift k) :=
  ((found_scanAfter names start t).shift k).eq_scanAfter

theorem tagOf_preceded (w : Text) (x : Char) (name rest : Text) :
    (tagOf 0 [] name rest).preceded (w ++ [x]) = tagOf w.length [x] name rest := by
  simp [tagOf, TagMatch.preceded, TagMatch.newLeading]
  omega

/-- In front of a text that opens with no tag a character is passed over. -/
theorem scanAfter_cons_of_none {x : Char} (hx : x ≠ '[') (hb : nameBehind? names c = none)
    (w : Text) : scanAfter names 0 w.length (x :: c) =
      (scan names c).map (·.preceded (w ++ [x])) := by
  have hlength : w.length + 1 = (w ++ [x]).length + 0 := by simp
  have hnx : nameBehind? names (x :: c) = none := nameBehind?_of_head_ne (by simpa using hx)
  rw [scanAfter_of_none (matchAt?_cons_eq_none hnx hb), hlength, scanAfter_shift]
  exact List.map_congr_left fun m hm => (TagMatch.preceded_eq_shift (not_front hb hm)).symm

/-- In front of a tag a character becomes part of the first match. -/
theorem scanAfter_cons_of_some (hn : ∀ n ∈ names, '[' ∉ n) {r : Text × Text}
    (hb : nameBehind? names c = some r) (w : Text) (x : Char) :
    scanAfter names 0 w.length (x :: c) = (scan names c).map (·.preceded (w ++ [x])) := by
  have hfirst : matchAt? names 0 c = some (tagOf 0 [] r.1 r.2) := by
    rw [matchAt?, opensAt?_eq_map, opensAt?_eq_map, nameBehind?_tail_eq_none hn hb, hb]
    rfl
  have hpre : matchAt? names w.length (x :: c) = some (tagOf w.length [x] r.1 r.2) := by
    rw [matchAt?, opensAt?_eq_map, List.drop_succ_cons, List.drop_zero, hb]
    rfl
  obtain ⟨tail, ht⟩ := text_of_matchAt? hfirst
  have hp := tagOf_preceded w x r.1 r.2
  have hxt : x :: c = (tagOf w.length [x] r.1 r.2).text ++ tail := by
    rw [ht]
    simp [tagOf]
  have hstop : (tagOf w.length [x] r.1 r.2).stop =
      (w ++ [x]).length + (tagOf 0 [] r.1 r.2).stop := by
    rw [← hp]
    rfl
  have hlate : ∀ m ∈ scanAfter names 0 (tagOf 0 [] r.1 r.2).stop tail,
      ¬ (m.start = 0 ∧ m.leading = []) := by
    rintro m hm ⟨hs, -⟩
    have hle := ((found_scanAfter names _ tail).le_start m hm).1
    have htwo := two_le_of_matchAt? hfirst
    have hend := stop_of_matchAt? hfirst
    omega
  rw [ht] at hfirst
  rw [hxt] at hpre
  rw [ht, scan, scanAfter_of_some hfirst, ← ht, hxt, scanAfter_of_some hpre, hstop, scanAfter_shift,
    List.map_cons, hp]
  congr 1
  exact List.map_congr_left fun m hm => (TagMatch.preceded_eq_shift (hlate m hm)).symm

/-- Only a match that begins with its bracket at the front of the text gets a character more; it is the
first one. -/
theorem scan_preceded (hu : '[' ∉ u) (hn : ∀ n ∈ names, '[' ∉ n) (c : Text) :
    scan names (u ++ c) = (scan names c).map (·.preceded u) := by
  rcases List.eq_nil_or_concat' u with rfl | ⟨w, x, rfl⟩
  · have hid : (fun m : TagMatch => m.preceded []) = id := by
      funext m
      simp [TagMatch.preceded, TagMatch.newLeading]
    rw [hid, List.map_id, List.nil_append]
  · have hx : x ≠ '[' := by
      rintro rfl
      exact hu (by simp)
    have hw : '[' ∉ w := fun h => hu (List.mem_append_left _ h)
    have hnx : nameBehind? names (x :: c) = none := nameBehind?_of_head_ne (by simpa using hx)
    rw [List.append_assoc, scan, List.singleton_append, scanAfter_gap hw fun _ => hnx, Nat.zero_add]
    cases hb : nameBehind? names c with
    | none => exact scanAfter_cons_of_none hx hb w
    | some r => exact scanAfter_cons_of_some hn hb w x

theorem scan_between (hu : '[' ∉ u) (hv : ']' ∉ v) (hb : '[' ∉ v) (hn : ∀ n ∈ names, '[' ∉ n)
    (c : Text) : scan names (u ++ c ++ v) = (scan names c).map (·.between u v) := by
  rw [List.append_assoc, scan_preceded hu hn, scan_append hv hb, List.map_map]
  rfl

end Scan
end Shortcode
