import Shortcode.Text.Basic

/-! Names of loggers: all of them stand under one root. -/
namespace Shortcode.Logger

def root : Text := "corchete".toList

/-- Puts a name under the root unless it is the root or stands under it already. -/
def qualify (name : Text) : Text :=
  if name = root ∨ (root ++ ['.']).isPrefixOf name then name else root ++ '.' :: name

/-- The logger that hears of registrations. -/
def registry : Text := qualify "corchete.registry".toList

end Shortcode.Logger
