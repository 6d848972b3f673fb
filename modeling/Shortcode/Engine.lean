import Shortcode.Session.Run
import Shortcode.Splice

/-! Rendering a content and stripping it of its tags. -/
namespace Shortcode

/-- How a handler is called, given how often it has been called by then, this call included: its text
and the answers it puts on record. -/
abbrev Caller (η : Type) := η → Call → Nat → Run η (Text × List Answer)

namespace Engine
variable {η : Type}

/-- Calls a handler and puts the call, and what the handler notes, on the trail. -/
def visit (call : Caller η) (h : Registered η) (c : Call) : Run η Text := do
  let place := (← get).trail.length
  Run.record (.called ⟨h.object, h.handler, c, []⟩) (·.recordMatch false true)
  let (out, notes) ← call h.handler c ((← get).callCount h.object)
  modify fun s => { s with trail := s.trail.modify place (·.note notes) }
  pure out

/-- The text that takes the place of a tag: the tag itself if it is escaped and escaping is on,
else what the handler gives, between the characters around the tag. -/
def dispatch (call : Caller η) (handlers : Registry (Registered η)) (p : TagParts) : Run η Text := do
  let config := (← get).config
  if p.isEscaped && config.escapes then
    Run.record .spared (·.recordMatch true false)
    pure (Text.inner p.text)
  else
    match handlers.get? p.tag with
    | none => throw (.unregistered p.tag none)
    | some h =>
      let out ← visit call h ⟨.parse config p.rawAttributes, p.content, p.tag⟩
      pure (p.leading ++ out ++ p.trailing)

/-- Replaces every tag of a content, with the handlers registered on entry and under the
configuration of the engine. Without handlers nothing is done. -/
def render (call : Caller η) (e : Engine) (content : Text) : Run η Text := do
  let handlers := (← get).registry e.registry
  if handlers.names.isEmpty then pure content
  else
    Run.record (.rendered content.length) (·.recordRender content.length)
    Run.withConfig e.config do
      let replaced ← (scan handlers.names content).mapM fun m =>
        return (m, ← dispatch call handlers m.toTagParts)
      pure (splice content replaced)

/-- Counts a match that is removed. -/
def strike (m : TagMatch) : Run η Unit :=
  Run.record (.removed m.isEscaped) (·.recordMatch m.isEscaped false)

/-- Removes every tag of a content. No handler is called. -/
def strip (e : Engine) (content : Text) : Run η Text := do
  let names := ((← get).registry e.registry).names
  if names.isEmpty then pure content
  else
    Run.record (.stripped content.length) (·.recordStrip content.length)
    Run.withConfig e.config do
      (scan names content).forM strike
      pure (stripText names content)

end Engine
end Shortcode
