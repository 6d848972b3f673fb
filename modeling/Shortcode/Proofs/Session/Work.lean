import Mathlib.Algebra.GroupWithZero.Nat
import Shortcode.Session.Exec
import Shortcode.Proofs.Engine.Render

/-! The work of a computation: what it does that a profile is to count. It is told from the states
the computation passes through, and neither from its counters nor from its trail. -/
namespace Shortcode
variable {η α : Type}

/-- One thing that a profile is to count. -/
inductive Deed where
  /-- A rendering of a content, by an engine that has handlers. -/
  | rendered (length : Nat)
  | stripped (length : Nat)
  /-- A handler was called for a match. -/
  | called
  /-- An escaped tag was left standing. -/
  | spared
  /-- A match was removed. -/
  | removed (escaped : Bool)
deriving DecidableEq

namespace Deed

@[simp] def isRendered : Deed → Bool
  | rendered _ => true
  | _ => false

@[simp] def isStripped : Deed → Bool
  | stripped _ => true
  | _ => false

@[simp] def isRemoved : Deed → Bool
  | removed _ => true
  | _ => false

/-- The length of the content that was rendered or stripped. -/
@[simp] def length : Deed → Nat
  | rendered n => n
  | stripped n => n
  | _ => 0

end Deed

attribute [ext] Counters

namespace Counters

instance : Add Counters where
  add c d :=
    { contentLength := c.contentLength + d.contentLength
      renderCalls := c.renderCalls + d.renderCalls
      stripCalls := c.stripCalls + d.stripCalls
      matched := c.matched + d.matched
      handlerCalls := c.handlerCalls + d.handlerCalls
      escaped := c.escaped + d.escaped }

/-- What counters have to show after some work. -/
def tally (w : List Deed) : Counters where
  contentLength := (w.map Deed.length).sum
  renderCalls := w.countP Deed.isRendered
  stripCalls := w.countP Deed.isStripped
  matched := w.count .called + w.count .spared + w.countP Deed.isRemoved
  handlerCalls := w.count .called
  escaped := w.count .spared + w.count (.removed true)

theorem add_def (c d : Counters) : c + d =
    { contentLength := c.contentLength + d.contentLength
      renderCalls := c.renderCalls + d.renderCalls
      stripCalls := c.stripCalls + d.stripCalls
      matched := c.matched + d.matched
      handlerCalls := c.handlerCalls + d.handlerCalls
      escaped := c.escaped + d.escaped } := rfl

@[simp] theorem tally_nil : tally [] = zero := rfl

@[simp] theorem add_zero (c : Counters) : c + zero = c := by
  ext <;> simp [add_def, zero]

@[simp] theorem zero_add (c : Counters) : zero + c = c := by
  ext <;> simp [add_def, zero]

theorem add_assoc (c d e : Counters) : c + d + e = c + (d + e) := by
  ext <;> simp [add_def, Int.add_assoc, Nat.add_assoc]

theorem tally_append (w v : List Deed) : tally (w ++ v) = tally w + tally v := by
  ext <;> simp [tally, add_def] <;> omega

/-! Each record adds one deed. -/

theorem recordRender_eq_add (c : Counters) (n : Nat) :
    c.recordRender n = c + tally [.rendered n] := rfl

theorem recordStrip_eq_add (c : Counters) (n : Nat) :
    c.recordStrip n = c + tally [.stripped n] := rfl

theorem recordMatch_eq_add_called (c : Counters) :
    c.recordMatch false true = c + tally [.called] := by
  ext <;> simp [recordMatch, tally, add_def]

theorem recordMatch_eq_add_spared (c : Counters) :
    c.recordMatch true false = c + tally [.spared] := by
  ext <;> simp [recordMatch, tally, add_def]

theorem recordMatch_eq_add_removed (c : Counters) (escaped : Bool) :
    c.recordMatch escaped false = c + tally [.removed escaped] := by
  cases escaped <;> ext <;> simp [recordMatch, tally, add_def]

theorem countP_isRemoved (w : List Deed) :
    w.countP Deed.isRemoved = w.count (.removed true) + w.count (.removed false) := by
  induction w with
  | nil => rfl
  | cons d w ih =>
    rw [List.countP_cons, List.count_cons, List.count_cons, ih]
    rcases d with _ | _ | _ | _ | _ | _ <;> simp <;> omega

/-- The matches that are neither handled nor escaped are those a stripping has removed. -/
theorem tally_matched (w : List Deed) :
    (tally w).matched = (tally w).handlerCalls + (tally w).escaped + w.count (.removed false) := by
  show w.count .called + w.count .spared + w.countP Deed.isRemoved = _
  rw [countP_isRemoved]
  simp only [tally]
  omega

end Counters

/-- What a handler does when it is called, told from the state in which it begins. -/
abbrev Deeds (η : Type) := η → Call → Nat → State η → List Deed

/-- What is done after a part that ends with a value. -/
def Run.afterwards (x : Run η α) (next : α → State η → List Deed) (s : State η) : List Deed :=
  match x s with
  | some (.ok a, t) => next a t
  | _ => []

@[simp] theorem Run.afterwards_nil (x : Run η α) (s : State η) :
    x.afterwards (fun _ _ => []) s = [] := by
  rw [Run.afterwards]
  split <;> rfl

namespace Engine
variable (call : Caller η) (inner : Deeds η)

/-- What a handler is told of a tag. -/
def callOf (p : TagParts) (s : State η) : Call :=
  ⟨.parse s.config p.rawAttributes, p.content, p.tag⟩

def dispatchWork (handlers : Registry (Registered η)) (p : TagParts) (s : State η) : List Deed :=
  if p.isEscaped && s.config.escapes then [.spared]
  else
    match handlers.get? p.tag with
    | none => []
    | some h =>
      let t := begun h (callOf p s) s
      .called :: inner h.handler (callOf p s) (t.callCount h.object) t

/-- One match after another, up to the first for which a handler raises a fault. -/
def matchesWork (handlers : Registry (Registered η)) : List TagMatch → State η → List Deed
  | [], _ => []
  | m :: ms, s =>
    dispatchWork inner handlers m.toTagParts s ++
      (dispatch call handlers m.toTagParts).afterwards (fun _ => matchesWork handlers ms) s

def renderWork (e : Engine) (content : Text) (s : State η) : List Deed :=
  let handlers := s.registry e.registry
  if handlers.names.isEmpty then []
  else
    .rendered content.length ::
      matchesWork call inner handlers (scan handlers.names content) (entered e content s)

def stripWork (e : Engine) (content : Text) (s : State η) : List Deed :=
  let names := (s.registry e.registry).names
  if names.isEmpty then []
  else .stripped content.length :: (scan names content).map fun m => .removed m.isEscaped

end Engine

section Work
variable (call : Caller η) (inner : Deeds η)

def Step.work : Step η → State η → List Deed
  | .render on content, s => (s.engine? on).elim [] fun e => e.renderWork call inner content s
  | .strip on content, s => (s.engine? on).elim [] fun e => e.stripWork content s
  | .dispatch on p taken, s =>
    (s.engine? on).elim [] fun _ =>
      (s.handlers? taken).elim [] fun handlers => Engine.dispatchWork inner handlers p s
  | _, _ => []

/-- The work of a scope as seen from outside: what is done under a profile of its own or in a thread
does not belong to it. -/
def Scope.work (body : State η → List Deed) : Scope → State η → List Deed
  | .config c _, s => body { s with config := c }
  | .profile, _ => []
  | .thread, _ => []

def Program.work : Program η → State η → List Deed
  | .done _ _, _ => []
  | .raise _, _ => []
  | .step st next, s =>
    st.work call inner s ++ (Run.answer (st.exec call)).afterwards (fun a => (next a).work) s
  | .scoped sc body next, s =>
    sc.work body.work s ++
      (Run.answer (sc.exec (body.exec call))).afterwards (fun a => (next a).work) s

end Work

/-- What handlers do that behave as given, nested at most as deep as told. -/
def handlerWork (behave : η → Call → Nat → Program η) : (depth : Nat) → Deeds η
  | 0, _, _, _, _ => []
  | depth + 1, h, c, n, s =>
    (behave h c n).work (invoke behave depth) (handlerWork behave depth) s

end Shortcode
