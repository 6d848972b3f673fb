import Shortcode.Scan

/-! Putting texts in the place of matches, and so removing them. -/
namespace Shortcode

/-- Replaces each match in turn, where `rest` is the text from `start` on; what lies between matches
is kept. -/
def spliceFrom (start : Nat) (rest : Text) : List (TagMatch × Text) → Text
  | [] => rest
  | (m, t) :: more =>
    rest.take (m.start - start) ++ t ++ spliceFrom m.stop (rest.drop (m.stop - start)) more

/-- Replaces matches of a content, given from left to right with the texts that take their place. -/
def splice (content : Text) (replacements : List (TagMatch × Text)) : Text :=
  spliceFrom 0 content replacements

/-- A content without its tags; the characters around them are kept. -/
def stripText (names : List Text) (content : Text) : Text :=
  splice content ((scan names content).map fun m => (m, m.context))

@[simp] theorem splice_nil (content : Text) : splice content [] = content := rfl

end Shortcode
