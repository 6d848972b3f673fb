import Mathlib.Data.List.Basic
import Shortcode.Text.Blank
import Shortcode.Text.Word

/-! White space and hard spaces in a text, and the runs of a text up to a character of another
kind. -/
namespace Shortcode.Text
variable {p : Char → Bool} {u u' v v' t : Text} {c : Char}

theorem takeWhile_append_of_head (hu : ∀ c ∈ u, p c = true) (hv : ∀ c ∈ v.head?, p c = false) :
    (u ++ v).takeWhile p = u := by
  rw [List.takeWhile_append_of_pos hu]
  cases v with
  | nil => simp
  | cons c v => simp [hv c rfl]

theorem dropWhile_append_of_head (hu : ∀ c ∈ u, p c = true) (hv : ∀ c ∈ v.head?, p c = false) :
    (u ++ v).dropWhile p = v := by
  rw [List.dropWhile_append_of_pos hu]
  cases v with
  | nil => rfl
  | cons c v => simp [hv c rfl]

theorem head?_dropWhile (p : Char → Bool) (t : Text) : ∀ c ∈ (t.dropWhile p).head?, p c = false := by
  intro c hc
  have hnot := List.head?_dropWhile_not p t
  rw [hc] at hnot
  simpa using hnot

/-- A text is cut in one way behind a run of characters of one kind. -/
theorem append_inj_of_head (hu : ∀ c ∈ u, p c = true) (hv : ∀ c ∈ v.head?, p c = false)
    (hu' : ∀ c ∈ u', p c = true) (hv' : ∀ c ∈ v'.head?, p c = false) (h : u ++ v = u' ++ v') :
    u = u' ∧ v = v' := by
  have htake := congrArg (List.takeWhile p) h
  have hdrop := congrArg (List.dropWhile p) h
  rw [takeWhile_append_of_head hu hv, takeWhile_append_of_head hu' hv'] at htake
  rw [dropWhile_append_of_head hu hv, dropWhile_append_of_head hu' hv'] at hdrop
  exact ⟨htake, hdrop⟩

theorem isWord_eq_false_of_isBlank (h : isBlank c = true) : isWord c = false := by
  have hall : ∀ r ∈ blanks, ∀ k ≤ r.2 - r.1, isWord (Char.ofNat (r.1 + k)) = false := by
    decide +kernel
  rw [isBlank, Ranges.has, List.any_eq_true] at h
  obtain ⟨r, hr, hc⟩ := h
  rw [Bool.and_eq_true, decide_eq_true_eq, decide_eq_true_eq] at hc
  obtain ⟨k, hk⟩ := Nat.exists_eq_add_of_le hc.1
  have hw := hall r hr k (by omega)
  rwa [← hk, Char.ofNat_toNat] at hw

theorem isWord_eq_false_of_isHardSpace (h : isHardSpace c = true) : isWord c = false := by
  rw [isHardSpace, Bool.or_eq_true, beq_iff_eq, beq_iff_eq] at h
  rcases h with rfl | rfl <;> decide +kernel

/-- White space in a wide sense, hard spaces included. -/
def isSpacing (c : Char) : Bool := isBlank c || isHardSpace c

/-! One space is written for every run of hard spaces. -/

theorem softenSpaces_append_of_notHard (hu : ∀ c ∈ u, isHardSpace c = false) (v : Text) :
    softenSpaces (u ++ v) = u ++ softenSpaces v := by
  induction u with
  | nil => rfl
  | cons c u ih =>
    have hc := hu c List.mem_cons_self
    have ht := ih fun d hd => hu d (List.mem_cons_of_mem c hd)
    rw [List.cons_append, softenSpaces, hc, if_neg Bool.false_ne_true, ht]
    rfl

/-- A run of hard spaces does not go on over another character. -/
theorem softenSpaces_append_of_head (hv : ∀ c ∈ v.head?, isHardSpace c = false) :
    softenSpaces (u ++ v) = softenSpaces u ++ softenSpaces v := by
  induction u with
  | nil => rfl
  | cons c u ih =>
    have hrun : (u ++ v).head?.any isHardSpace = u.head?.any isHardSpace := by
      cases u with
      | nil => cases v <;> simp_all
      | cons => rfl
    rw [List.cons_append, softenSpaces, softenSpaces, hrun, ih]
    split
    · split <;> rfl
    · rfl

theorem isBlank_of_mem_softenSpaces (ht : ∀ c ∈ t, isSpacing c = true) :
    ∀ c ∈ softenSpaces t, isBlank c = true := by
  induction t with
  | nil => simp [softenSpaces]
  | cons d t ih =>
    have hs := ih fun c hc => ht c (List.mem_cons_of_mem d hc)
    have hd := ht d List.mem_cons_self
    rw [softenSpaces]
    split
    · split
      · exact hs
      · exact List.forall_mem_cons.mpr ⟨by decide, hs⟩
    · next hn =>
      rw [isSpacing, Bool.or_eq_true] at hd
      exact List.forall_mem_cons.mpr ⟨hd.resolve_right hn, hs⟩

theorem mem_softenSpaces (hc : c ∈ t) (hs : isHardSpace c = false) : c ∈ softenSpaces t := by
  induction t with
  | nil => cases hc
  | cons d t ih =>
    rw [softenSpaces]
    rcases List.mem_cons.mp hc with rfl | hm
    · rw [hs, if_neg Bool.false_ne_true]
      exact List.mem_cons_self
    · split
      · split
        · exact ih hm
        · exact List.mem_cons_of_mem ' ' (ih hm)
      · exact List.mem_cons_of_mem d (ih hm)

theorem softenSpaces_ne_nil (h : t ≠ []) : softenSpaces t ≠ [] := by
  induction t with
  | nil => exact (h rfl).elim
  | cons c t ih =>
    rw [softenSpaces]
    split
    · split
      · next hrun =>
        apply ih
        rintro rfl
        cases hrun
      · exact List.cons_ne_nil _ _
    · exact List.cons_ne_nil _ _

/-! Spacing in front of a text or behind it comes to white space there. Where it runs together with hard
spaces of the text, one space is written for both. -/

theorem exists_softenSpaces_append (hu : ∀ c ∈ u, isSpacing c = true) (v : Text) :
    ∃ b, (∀ c ∈ b, isBlank c = true) ∧ softenSpaces (u ++ v) = b ++ softenSpaces v := by
  induction u with
  | nil => exact ⟨[], by simp, rfl⟩
  | cons d u ih =>
    obtain ⟨b, hb, he⟩ := ih fun c hc => hu c (List.mem_cons_of_mem d hc)
    have hd := hu d List.mem_cons_self
    rw [List.cons_append, softenSpaces]
    split
    · split
      · exact ⟨b, hb, he⟩
      · exact ⟨' ' :: b, List.forall_mem_cons.mpr ⟨by decide, hb⟩, by rw [he, List.cons_append]⟩
    · next hn =>
      rw [isSpacing, Bool.or_eq_true] at hd
      exact ⟨d :: b, List.forall_mem_cons.mpr ⟨hd.resolve_right hn, hb⟩,
        by rw [he, List.cons_append]⟩

/-- A run of hard spaces begins with the space that is written for it. -/
theorem exists_softenSpaces_of_hard (ht : t.head?.any isHardSpace = true) :
    ∃ more, softenSpaces t = ' ' :: more := by
  induction t with
  | nil => cases ht
  | cons d t ih =>
    have hd : isHardSpace d = true := ht
    rw [softenSpaces, if_pos hd]
    split
    · next hrun => exact ih hrun
    · exact ⟨_, rfl⟩

theorem exists_append_softenSpaces (hv : ∀ c ∈ v, isSpacing c = true) (u : Text) :
    ∃ b, (∀ c ∈ b, isBlank c = true) ∧ softenSpaces (u ++ v) = softenSpaces u ++ b := by
  induction u with
  | nil => exact ⟨softenSpaces v, isBlank_of_mem_softenSpaces hv, rfl⟩
  | cons d u ih =>
    obtain ⟨b, hb, he⟩ := ih
    by_cases hd : isHardSpace d = true
    · cases u with
      | nil =>
        -- the last character of the text: a run that begins there may go on
        by_cases hrun : v.head?.any isHardSpace = true
        · obtain ⟨more, hmore⟩ := exists_softenSpaces_of_hard hrun
          have hblank := isBlank_of_mem_softenSpaces hv
          rw [hmore] at hblank
          refine ⟨more, fun c hc => hblank c (List.mem_cons_of_mem _ hc), ?_⟩
          simp [softenSpaces, hd, hrun, hmore]
        · refine ⟨softenSpaces v, isBlank_of_mem_softenSpaces hv, ?_⟩
          simp [softenSpaces, hd, hrun]
      | cons c u =>
        refine ⟨b, hb, ?_⟩
        have hhead : (c :: u ++ v).head? = (c :: u).head? := rfl
        rw [List.cons_append, softenSpaces, softenSpaces, if_pos hd, if_pos hd, hhead, he]
        split
        · rfl
        · rfl
    · refine ⟨b, hb, ?_⟩
      rw [List.cons_append, softenSpaces, softenSpaces, if_neg hd, if_neg hd, he, List.cons_append]

end Shortcode.Text
