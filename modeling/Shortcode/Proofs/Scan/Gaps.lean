import Mathlib.Algebra.GroupWithZero.Nat
import Shortcode.Splice

/-! The texts between matches that stand in order in a content. -/
namespace Shortcode.Scan
variable {content : Text} {pos start : Nat} {m : TagMatch} {ms : List TagMatch}
  {gs ts : List Text}

/-- The texts between matches, from `pos` on. -/
def gaps (content : Text) : (pos : Nat) → List TagMatch → List Text
  | pos, [] => [content.drop pos]
  | pos, m :: ms => content.extract pos m.start :: gaps content m.stop ms

/-- Puts texts into the gaps between others. -/
def interleave : List Text → List Text → Text
  | g :: gs, t :: ts => g ++ t ++ interleave gs ts
  | gs, _ => gs.flatten

/-- Matches stand in a content from `pos` on, each behind the one before it. -/
inductive InOrder (content : Text) : (pos : Nat) → List TagMatch → Prop
  | nil {pos : Nat} : InOrder content pos []
  | cons {pos : Nat} {m : TagMatch} {ms : List TagMatch} (hp : pos ≤ m.start)
      (hs : m.start ≤ m.stop) (ht : m.text = content.extract m.start m.stop)
      (ho : InOrder content m.stop ms) : InOrder content pos (m :: ms)

theorem extract_append_drop (hp : pos ≤ start) :
    content.extract pos start ++ content.drop start = content.drop pos := by
  have hd : content.drop start = (content.drop pos).drop (start - pos) := by
    rw [List.drop_drop, Nat.add_sub_cancel' hp]
  rw [hd, List.extract_eq_take_drop, List.take_append_drop]

/-- The matches in the gaps between them are the content. -/
theorem interleave_gaps_text (h : InOrder content pos ms) :
    interleave (gaps content pos ms) (ms.map (·.text)) = content.drop pos := by
  induction h with
  | nil => simp [gaps, interleave]
  | @cons pos m ms hp hs ht _ ih =>
    calc content.extract pos m.start ++ m.text ++
          interleave (gaps content m.stop ms) (ms.map (·.text))
        = content.extract pos m.start ++
            (content.extract m.start m.stop ++ content.drop m.stop) := by
          rw [ih, ht, List.append_assoc]
      _ = content.drop pos := by rw [extract_append_drop hs, extract_append_drop hp]

theorem length_gaps (content : Text) (pos : Nat) (ms : List TagMatch) :
    (gaps content pos ms).length = ms.length + 1 := by
  induction ms generalizing pos with
  | nil => rfl
  | cons m ms ih => exact congrArg (· + 1) (ih m.stop)

theorem length_interleave (h : ts.length ≤ gs.length) :
    (interleave gs ts).length = (gs.map List.length).sum + (ts.map List.length).sum := by
  induction ts generalizing gs with
  | nil => cases gs <;> simp [interleave, List.length_flatten]
  | cons t ts ih =>
    cases gs with
    | nil => simp at h
    | cons g gs =>
      have hi := ih (Nat.le_of_succ_le_succ h)
      simp only [interleave, List.length_append, List.map_cons, List.sum_cons, hi]
      omega

theorem interleave_map_sublist {f g : TagMatch → Text} (h : ∀ m ∈ ms, (f m).Sublist (g m))
    (gs : List Text) : (interleave gs (ms.map f)).Sublist (interleave gs (ms.map g)) := by
  induction ms generalizing gs with
  | nil => exact List.Sublist.refl _
  | cons m ms ih =>
    cases gs with
    | nil => exact List.Sublist.refl _
    | cons gap gs =>
      have hi := ih (fun m' hm => h m' (List.mem_cons_of_mem m hm)) gs
      exact ((List.Sublist.refl gap).append (h m List.mem_cons_self)).append hi

/-- Replacements are put where the matches were. -/
theorem spliceFrom_eq_interleave (h : InOrder content pos ms) (outs : List Text)
    (hl : outs.length = ms.length) :
    spliceFrom pos (content.drop pos) (ms.zip outs) = interleave (gaps content pos ms) outs := by
  induction h generalizing outs with
  | nil =>
    obtain rfl := List.length_eq_zero_iff.mp hl
    simp [spliceFrom, gaps, interleave]
  | @cons pos m ms hp hs _ _ ih =>
    obtain ⟨out, outs, rfl⟩ := List.exists_cons_of_length_eq_add_one hl
    have hd : (content.drop pos).drop (m.stop - pos) = content.drop m.stop := by
      rw [List.drop_drop, Nat.add_sub_cancel' (Nat.le_trans hp hs)]
    have hi := ih outs (Nat.succ.inj hl)
    rw [List.zip_cons_cons, spliceFrom, hd, hi]
    rfl

theorem splice_eq_interleave (h : InOrder content 0 ms) (outs : List Text)
    (hl : outs.length = ms.length) :
    splice content (ms.zip outs) = interleave (gaps content 0 ms) outs :=
  spliceFrom_eq_interleave h outs hl

/-- What takes the place of a match that is the whole of a content is the whole of the new one. -/
theorem splice_whole (hs : m.start = 0) (hp : m.stop = content.length) (out : Text) :
    splice content [(m, out)] = out := by
  simp [splice, spliceFrom, hs, hp]

end Shortcode.Scan
