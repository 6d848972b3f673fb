import Shortcode.Proofs.Scan.Tag

/-! The run of a search from left to right, as a relation with one rule for each kind of step. -/
namespace Shortcode.Scan
variable {names : List Text} {name rest t tail : Text} {start : Nat} {m : TagMatch}
  {ms : List TagMatch} {c : Char}

theorem length_tagOf_text (start : Nat) (leading name rest : Text) :
    leading.length + 2 ≤ (tagOf start leading name rest).text.length := by
  simp [tagOf]
  omega

theorem nameBehind?_of_head_ne (h : ∀ c ∈ t.head?, c ≠ '[') : nameBehind? names t = none := by
  cases t with
  | nil => rfl
  | cons c t => exact if_neg (h c rfl)

theorem matchAt?_cons_eq_none (h : nameBehind? names (c :: rest) = none)
    (h' : nameBehind? names rest = none) : matchAt? names start (c :: rest) = none := by
  rw [matchAt?, opensAt?_eq_map, opensAt?_eq_map, h, List.drop_succ_cons, List.drop_zero, h']
  rfl

/-- No match begins in a text without opening brackets, unless a tag opens right behind it. -/
theorem matchAt?_of_notMem {gap : Text} (hg : '[' ∉ c :: gap)
    (hr : nameBehind? names rest = none) : matchAt? names start (c :: (gap ++ rest)) = none := by
  apply matchAt?_cons_eq_none
  · apply nameBehind?_of_head_ne
    rintro d hd rfl
    obtain rfl := Option.some.inj hd
    exact hg List.mem_cons_self
  · cases gap with
    | nil => exact hr
    | cons d gap =>
      apply nameBehind?_of_head_ne
      rintro d' hd rfl
      obtain rfl := Option.some.inj hd
      exact hg (by simp)

/-- A match begins with at most one character in front of the bracket. -/
theorem matchAt?_eq_some (h : matchAt? names start t = some m) :
    ∃ leading name rest, t = leading ++ '[' :: (name ++ rest) ∧ leading.length ≤ 1 ∧
      nameAt? names (name ++ rest) = some (name, rest) ∧ m = tagOf start leading name rest ∧
      (leading = [] → nameBehind? names (t.drop 1) = none) := by
  rw [matchAt?, opensAt?_eq_map, opensAt?_eq_map] at h
  cases hb : nameBehind? names (t.drop 1) with
  | some r =>
    obtain ⟨ht, hn⟩ := nameBehind?_eq_some_iff.mp hb
    rw [hb] at h
    refine ⟨t.take 1, r.1, r.2, ?_, List.length_take_le 1 t, hn, (Option.some.inj h).symm, ?_⟩
    · rw [← ht, List.take_append_drop]
    · intro hl
      have he : t = [] := by simpa using hl
      simp [he] at ht
  | none =>
    rw [hb] at h
    obtain ⟨r, hr, rfl⟩ := Option.map_eq_some_iff.mp h
    obtain ⟨ht, hn⟩ := nameBehind?_eq_some_iff.mp hr
    exact ⟨[], r.1, r.2, ht, by simp, hn, rfl, fun _ => rfl⟩

theorem start_of_matchAt? (h : matchAt? names start t = some m) : m.start = start := by
  obtain ⟨_, _, _, _, _, _, rfl, _⟩ := matchAt?_eq_some h
  rfl

theorem stop_of_matchAt? (h : matchAt? names start t = some m) :
    m.stop = start + m.text.length := by
  obtain ⟨_, _, _, _, _, _, rfl, _⟩ := matchAt?_eq_some h
  rfl

theorem text_of_matchAt? (h : matchAt? names start t = some m) : ∃ tail, t = m.text ++ tail := by
  obtain ⟨leading, name, rest, ht, _, hn, rfl, _⟩ := matchAt?_eq_some h
  have hm := mem_of_admits (nameAt?_eq_some_iff.mp hn).2.1
  exact ⟨behind name rest, by rw [ht, tagOf_text_append start leading name hm]⟩

theorem two_le_of_matchAt? (h : matchAt? names start t = some m) : 2 ≤ m.text.length := by
  obtain ⟨leading, name, rest, _, _, _, rfl, _⟩ := matchAt?_eq_some h
  have hl := length_tagOf_text start leading name rest
  omega

/-- The matches in a text whose first character stands at `start`. -/
inductive Found (names : List Text) : (start : Nat) → Text → List TagMatch → Prop
  | nil {start : Nat} : Found names start [] []
  | skip {start : Nat} {c : Char} {rest : Text} {ms : List TagMatch}
      (h : matchAt? names start (c :: rest) = none) (hf : Found names (start + 1) rest ms) :
      Found names start (c :: rest) ms
  | take {start : Nat} {m : TagMatch} {tail : Text} {ms : List TagMatch}
      (h : matchAt? names start (m.text ++ tail) = some m) (hf : Found names m.stop tail ms) :
      Found names start (m.text ++ tail) (m :: ms)

theorem scanAfter_of_none (h : matchAt? names start (c :: rest) = none) :
    scanAfter names 0 start (c :: rest) = scanAfter names 0 (start + 1) rest := by
  rw [scanAfter, h]

theorem scanAfter_of_some (h : matchAt? names start (m.text ++ tail) = some m) :
    scanAfter names 0 start (m.text ++ tail) = m :: scanAfter names 0 m.stop tail := by
  have hl := two_le_of_matchAt? h
  have hs := stop_of_matchAt? h
  cases ht : m.text with
  | nil => simp [ht] at hl
  | cons c rest =>
    rw [ht] at h hs
    rw [List.cons_append] at h ⊢
    have hd : (rest ++ tail).drop (m.text.length - 1) = tail := by
      rw [ht, List.length_cons, Nat.add_sub_cancel, List.drop_left]
    have hn : start + 1 + (m.text.length - 1) = m.stop := by
      rw [hs, ht, List.length_cons]
      omega
    rw [scanAfter, h]
    dsimp only
    rw [scanAfter_skip, hd, hn]

theorem Found.eq_scanAfter (h : Found names start t ms) : scanAfter names 0 start t = ms := by
  induction h with
  | nil => rfl
  | skip h _ ih => rw [scanAfter_of_none h, ih]
  | take h _ ih => rw [scanAfter_of_some h, ih]

theorem found_scanAfter (names : List Text) (start : Nat) (t : Text) :
    Found names start t (scanAfter names 0 start t) := by
  induction hn : t.length using Nat.strongRecOn generalizing start t with
  | ind n ih =>
    cases t with
    | nil => exact Found.nil
    | cons c rest =>
      cases hm : matchAt? names start (c :: rest) with
      | none =>
        rw [scanAfter_of_none hm]
        exact Found.skip hm (ih rest.length (by simp [← hn]) _ _ rfl)
      | some m =>
        obtain ⟨tail, ht⟩ := text_of_matchAt? hm
        have hl := two_le_of_matchAt? hm
        have hlt : tail.length < n := by
          rw [← hn, ht, List.length_append]
          omega
        rw [ht] at hm ⊢
        rw [scanAfter_of_some hm]
        exact Found.take hm (ih tail.length hlt _ _ rfl)

theorem found_iff : Found names start t ms ↔ scanAfter names 0 start t = ms :=
  ⟨Found.eq_scanAfter, fun h => h ▸ found_scanAfter names start t⟩

theorem found_scan (names : List Text) (content : Text) :
    Found names 0 content (scan names content) := found_scanAfter names 0 content

end Shortcode.Scan
