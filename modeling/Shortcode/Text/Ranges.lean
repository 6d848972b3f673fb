/-! Sets of characters, given by intervals of code points. -/
namespace Shortcode.Text

/-- Intervals of code points; both ends belong to the set. -/
abbrev Ranges := List (Nat × Nat)

def Ranges.has (ranges : Ranges) (c : Char) : Bool :=
  ranges.any fun (first, last) => first ≤ c.toNat && c.toNat ≤ last

end Shortcode.Text
