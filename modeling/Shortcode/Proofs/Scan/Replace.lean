import Shortcode.Proofs.Scan.Search
import Shortcode.Splice

/-! Replacing the matches of a text, step by step with the search that finds them. -/
namespace Shortcode.Scan
variable {names : List Text} {f : TagMatch → Text} {t rest tail out : Text} {start : Nat}
  {m : TagMatch} {ms : List TagMatch} {c : Char} {rs : List (TagMatch × Text)}

/-- A text that begins at `start`, with each match replaced by what `f` gives for it. -/
def replaceFrom (names : List Text) (f : TagMatch → Text) (start : Nat) (t : Text) : Text :=
  spliceFrom start t ((scanAfter names 0 start t).map fun m => (m, f m))

theorem Found.le_start (h : Found names start t ms) :
    ∀ m ∈ ms, start ≤ m.start ∧ m.start < m.stop := by
  induction h with
  | nil => simp
  | skip _ _ ih =>
    intro m hm
    have hs := ih m hm
    omega
  | @take start m tail ms h _ ih =>
    have hs := start_of_matchAt? h
    have hp := stop_of_matchAt? h
    have hl := two_le_of_matchAt? h
    intro m' hm
    rcases List.mem_cons.mp hm with rfl | hm
    · omega
    · have hs' := ih m' hm
      omega

/-- A text in front of all that is replaced is kept. -/
theorem spliceFrom_append {gap : Text} (h : ∀ r ∈ rs.head?,
    start + gap.length ≤ r.1.start ∧ r.1.start < r.1.stop) :
    spliceFrom start (gap ++ rest) rs = gap ++ spliceFrom (start + gap.length) rest rs := by
  cases rs with
  | nil => rfl
  | cons r rs =>
    obtain ⟨hs, hp⟩ := h r rfl
    obtain ⟨i, hi⟩ := Nat.exists_eq_add_of_le hs
    obtain ⟨j, hj⟩ := Nat.exists_eq_add_of_lt hp
    have ht : r.1.start - start = gap.length + i ∧ r.1.start - (start + gap.length) = i := by omega
    have hd : r.1.stop - start = gap.length + (i + j + 1) ∧
        r.1.stop - (start + gap.length) = i + j + 1 := by omega
    rw [spliceFrom, spliceFrom, ht.1, ht.2, hd.1, hd.2, List.take_length_add_append,
      List.drop_length_add_append]
    simp

theorem spliceFrom_match (hs : m.start = start) (hp : m.stop = start + m.text.length) :
    spliceFrom start (m.text ++ tail) ((m, out) :: rs) = out ++ spliceFrom m.stop tail rs := by
  have hl : m.stop - start = m.text.length := by omega
  have hz : m.start - start = 0 := by omega
  rw [spliceFrom, hl, hz, List.drop_left]
  rfl

/-- A search passes over a text without opening brackets, and the text is kept. -/
theorem scanAfter_gap {gap : Text} (hg : '[' ∉ gap)
    (hr : gap ≠ [] → nameBehind? names rest = none) :
    scanAfter names 0 start (gap ++ rest) = scanAfter names 0 (start + gap.length) rest := by
  induction gap generalizing start with
  | nil => rfl
  | cons c gap ih =>
    have hrest := hr (List.cons_ne_nil c gap)
    have hm : matchAt? names start (c :: (gap ++ rest)) = none := matchAt?_of_notMem hg hrest
    have hg' : '[' ∉ gap := fun hc => hg (List.mem_cons_of_mem c hc)
    rw [List.cons_append, scanAfter_of_none hm, ih hg' fun _ => hrest, List.length_cons,
      Nat.add_right_comm, Nat.add_assoc]

theorem replaceFrom_gap {gap : Text} (hg : '[' ∉ gap)
    (hr : gap ≠ [] → nameBehind? names rest = none) :
    replaceFrom names f start (gap ++ rest) =
      gap ++ replaceFrom names f (start + gap.length) rest := by
  rw [replaceFrom, scanAfter_gap hg hr]
  apply spliceFrom_append
  intro r hx
  obtain ⟨m, hm, rfl⟩ := List.mem_map.mp (List.mem_of_mem_head? hx)
  exact (found_scanAfter names (start + gap.length) rest).le_start m hm

theorem stripText_eq_replaceFrom (names : List Text) (content : Text) :
    stripText names content = replaceFrom names (fun m => m.context) 0 content := rfl

end Shortcode.Scan
