import Mathlib.Algebra.GroupWithZero.Nat
import Shortcode.Proofs.Scan.Coverage

/-! How much of a text is left for what its tags enclose: fewer characters, and fewer opening
brackets. -/
namespace Shortcode.Scan
variable {names : List Text} {content t body : Text} {start : Nat} {m : TagMatch}
  {ms : List TagMatch}

/-- An opening bracket stands in front of what a tag encloses, and that is shorter than the tag: a
bracket and at least one character in front of the closing bracket, and a closer behind. -/
theorem body_lt_of_matchAt? (h : matchAt? names start t = some m) :
    (m.content.getD []).count '[' < m.text.count '[' ∧
      (m.content.getD []).length < m.text.length ∧
      ∀ body, m.content = some body → body.length + 6 ≤ m.text.length := by
  obtain ⟨leading, name, rest, -, -, hn, rfl, -⟩ := matchAt?_eq_some h
  have ha := (nameAt?_eq_some_iff.mp hn).2.1
  obtain ⟨inside, after, rfl, hu⟩ := List.eq_append_cons_of_mem (mem_of_admits ha)
  have hi := insideAt_append hu after
  have hl := name_or_inside_ne_nil ha
  cases he : enclosedAt? name after with
  | none =>
    have hc : (tagOf start leading name (inside ++ ']' :: after)).content = none := by
      rw [tagOf_content start leading name after hu, he]
      rfl
    have htwo := length_tagOf_text start leading name (inside ++ ']' :: after)
    rw [hc]
    refine ⟨List.count_pos_iff.mpr (by simp [tagOf]), ?_, by rintro body ⟨⟩⟩
    exact Nat.lt_of_lt_of_le (Nat.succ_pos _) htwo
  | some r =>
    simp [tagOf, hi, he, closer]
    omega

/-- The matches of a text share out its opening brackets. -/
theorem Found.sum_count_le (h : Found names start t ms) :
    (ms.map fun m => m.text.count '[').sum ≤ t.count '[' := by
  induction h with
  | nil => exact Nat.le_refl _
  | skip _ _ ih => exact Nat.le_trans ih (List.count_le_count_cons)
  | take _ _ ih =>
    rw [List.map_cons, List.sum_cons, List.count_append]
    omega

theorem Found.isInfix (h : Found names start t ms) :
    ∀ m ∈ ms, m.text <:+: t ∧ ∃ start t, matchAt? names start t = some m := by
  induction h with
  | nil => simp
  | skip _ _ ih => exact fun m hm => ⟨(ih m hm).1.trans (List.suffix_cons _ _).isInfix, (ih m hm).2⟩
  | @take start m tail ms h _ ih =>
    intro m' hm
    rcases List.mem_cons.mp hm with rfl | hm
    · exact ⟨(List.prefix_append _ _).isInfix, _, _, h⟩
    · exact ⟨(ih m' hm).1.trans (List.suffix_append _ _).isInfix, (ih m' hm).2⟩

theorem text_eq_ownText_of_mem_scan (hm : m ∈ scan names content) :
    m.text = m.leading ++ m.ownText ++ m.trailing ∧ 3 ≤ m.ownText.length := by
  obtain ⟨-, start, t, h⟩ := (found_scan names content).isInfix m hm
  exact text_eq_ownText_of_matchAt? h

theorem sum_count_text_le (names : List Text) (content : Text) :
    ((scan names content).map fun m => m.text.count '[').sum ≤ content.count '[' :=
  (found_scan names content).sum_count_le

theorem count_body_lt (hm : m ∈ scan names content) :
    (m.content.getD []).count '[' < m.text.count '[' ∧ m.text.count '[' ≤ content.count '[' := by
  obtain ⟨hi, start, t, h⟩ := (found_scan names content).isInfix m hm
  exact ⟨(body_lt_of_matchAt? h).1, hi.sublist.count_le _⟩

theorem length_body_lt (hm : m ∈ scan names content) :
    (m.content.getD []).length < content.length ∧
      ∀ body, m.content = some body → body.length + 6 ≤ content.length := by
  obtain ⟨hi, start, t, h⟩ := (found_scan names content).isInfix m hm
  obtain ⟨-, hlt, hsix⟩ := body_lt_of_matchAt? h
  have hl := hi.length_le
  refine ⟨by omega, fun body hb => ?_⟩
  have hle := hsix body hb
  omega

end Shortcode.Scan
