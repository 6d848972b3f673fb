import Shortcode.Text.Basic

/-! Whole numbers in decimal notation. -/
namespace Shortcode.Text

/-- The digits of a number without leading zeros, behind a minus sign if it is negative. -/
def decimal : Int → Text
  | .ofNat n => Nat.toDigits 10 n
  | .negSucc n => '-' :: Nat.toDigits 10 (n + 1)

end Shortcode.Text
