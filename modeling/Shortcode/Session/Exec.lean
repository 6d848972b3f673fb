import Shortcode.Engine

/-! Carrying out programs, and whole sessions. -/
namespace Shortcode
variable {η : Type}

/-- Carries out a change of a registry. Its handler becomes an object of its own, one object also when
it serves several tags. -/
def Run.change (number : Nat) (c : Change (Labelled η)) : Run η Answer := do
  let s ← get
  match (s.registry number).apply (c.map fun h => ⟨h, s.objects⟩) with
  | .error f => throw f
  | .ok (r, reports) =>
    set { s with registries := s.registries.set number r, objects := s.objects + 1 }
    pure (.changed r.names reports)

/-- Adds an empty registry and gives its number. -/
def Run.addRegistry : Run η Nat := do
  let s ← get
  set { s with registries := s.registries ++ [Registry.empty] }
  pure s.registries.length

/-- Makes an engine known under an identifier. -/
def Run.newEngine (id : Text) (config : Config) (number : Nat) : Run η Engine := do
  modify (·.assign id (.engine ⟨config, number⟩))
  pure ⟨config, number⟩

/-- Renders a content as an answer. -/
def Run.render (call : Caller η) (e : Engine) (content : Text) : Run η Answer :=
  Answer.text <$> e.render call content

/-- Strips a content as an answer. -/
def Run.strip (e : Engine) (content : Text) : Run η Answer := Answer.text <$> e.strip content

def Step.exec (call : Caller η) : Step η → Run η Answer
  | .newRegistry id => do
    let number ← Run.addRegistry
    modify (·.assign id (.registry number))
    pure .nothing
  | .newEngine id config registry => do
    let number ← match registry with
      | some on => Run.find State.number? on
      | none => Run.addRegistry
    let e ← Run.newEngine id config number
    pure (.config e.config)
  | .snapshot on id => do
    let handlers ← Run.find State.handlers? on
    modify (·.assign id (.snapshot handlers))
    pure (.snapshot handlers.names)
  | .change on c => do Run.change (← Run.find State.number? on) c
  | .lookup on tag => do
    let handlers ← Run.find State.handlers? on
    pure (.handler ((handlers.get? tag).map (·.label)))
  | .has on tag => do pure (.membership ((← Run.find State.handlers? on).has tag))
  | .names on => do pure (.names (← Run.find State.handlers? on).names)
  | .render on content => do Run.render call (← Run.find State.engine? on) content
  | .strip on content => do Run.strip (← Run.find State.engine? on) content
  | .dispatch on p taken => do
    let _ ← Run.find State.engine? on
    pure (.text (← Engine.dispatch call (← Run.find State.handlers? taken) p))
  | .parse t => do pure (.attributes (.parse (← get).config t))
  | .getConfig => do pure (.config (← get).config)
  | .setConfig c => do
    modify ({ · with config := c })
    pure (.config c)
  | .resetConfig => do
    modify ({ · with config := .default })
    pure (.config .default)
  | .metrics => do pure (.metrics (← get).profile)

/-- Runs the body of a block where it belongs. -/
def Scope.exec (body : Run η (Text × List Answer)) : Scope → Run η Answer
  | .config c raises => do
    let (_, answers) ← Run.withConfig c body
    pure (.block answers raises (← get).config)
  | .profile => do
    let ((_, answers), counters) ← Run.withProfile body
    pure (.profile answers counters)
  | .thread => do
    let (_, answers) ← Run.withThread body
    pure (.thread answers)

/-- Carries out a program. A fault of a step is an answer to it. -/
def Program.exec (call : Caller η) : Program η → Run η (Text × List Answer)
  | .done out notes => pure (out, notes)
  | .raise f => throw f
  | .step s next => Run.answer (s.exec call) >>= fun a => (next a).exec call
  | .scoped s body next => Run.answer (s.exec (body.exec call)) >>= fun a => (next a).exec call

/-- Calls handlers that behave as given, nested at most as deep as told. -/
def invoke (behave : η → Call → Nat → Program η) : (depth : Nat) → Caller η
  | 0, _, _, _ => Run.endless
  | depth + 1, h, c, n => (behave h c n).exec (invoke behave depth)

/-- Carries out one request. -/
def Request.exec (call : Caller η) : Request η → Run η Answer
  | .step s => s.exec call
  | .scoped s body => s.exec (body.exec call)

/-- Gives an answer with the calls that were made for it. -/
def Run.observe (part : Run η Answer) : Run η (Answer × List (Visit η)) := do
  let before := (← get).visits.length
  let a ← answer part
  pure (a, (← get).visits.drop before)

/-- The value of a computation that begins in an empty state, if it has one. -/
def Run.fresh {α : Type} (part : Run η α) : Option α :=
  match part {} with
  | some (.ok a, _) => some a
  | _ => none

/-- Answers the requests of a session, nesting handlers at most as deep as told. -/
def session (behave : η → Call → Nat → Program η) (depth : Nat) (requests : List (Request η)) :
    Option (List (Answer × List (Visit η))) :=
  Run.fresh (requests.mapM fun r => Run.observe (r.exec (invoke behave depth)))

/-- Renders and then strips a content with one new engine and some handlers: both answers, and the
calls made by the first. The identifier is for handlers to find the engine by; what they make of the
identifier is of no consequence for the second. -/
def renderThenStrip (behave : η → Call → Nat → Program η) (depth : Nat) (id : Text) (config : Config)
    (handlers : List (Text × Option (Labelled η))) (content : Text) :
    Option ((Answer × List (Visit η)) × Answer) :=
  Run.fresh do
    let e ← Run.newEngine id config (← Run.addRegistry)
    handlers.forM fun (tag, h) => do
      let _ ← Run.change e.registry (.add tag h)
    let rendered ← Run.observe (Run.render (invoke behave depth) e content)
    pure (rendered, ← Run.answer (Run.strip e content))

end Shortcode
