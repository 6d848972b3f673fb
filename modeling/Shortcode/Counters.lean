/-! What a profile counts. -/
namespace Shortcode

structure Counters where
  contentLength : Int := 0
  renderCalls : Nat := 0
  stripCalls : Nat := 0
  matched : Nat := 0
  handlerCalls : Nat := 0
  escaped : Nat := 0
deriving DecidableEq

namespace Counters

def zero : Counters := {}

def recordRender (c : Counters) (length : Int) : Counters :=
  { c with renderCalls := c.renderCalls + 1, contentLength := c.contentLength + length }

def recordStrip (c : Counters) (length : Int) : Counters :=
  { c with stripCalls := c.stripCalls + 1, contentLength := c.contentLength + length }

/-- Counts a match, and whether it was an escaped tag and whether a handler was called for it. -/
def recordMatch (c : Counters) (escaped handled : Bool) : Counters :=
  { c with
    matched := c.matched + 1
    escaped := c.escaped + escaped.toNat
    handlerCalls := c.handlerCalls + handled.toNat }

end Counters
end Shortcode
