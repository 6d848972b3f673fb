import Shortcode.Session.State

/-! Computations on the state of a session. A computation ends with a value or a fault and keeps the
state in either case; only one that is nested too deeply has no end at all. -/
namespace Shortcode

abbrev Run (η α : Type) := ExceptT Fault (StateT (State η) Option) α

namespace Run
variable {η α β : Type}

/-- No end: the nesting is too deep. -/
def endless : Run η α := fun _ => none

/-- Runs a part in a changed state and mends the state after it, however the part ends; `leave` sees
the state before and the state after. -/
def bracket (enter : State η → State η) (leave : State η → State η → State η) (part : Run η α) :
    Run η α :=
  fun s => (part (enter s)).map fun (r, t) => (r, leave s t)

/-- Runs a part under a configuration; the configuration in force on entry comes back. -/
def withConfig (c : Config) (part : Run η α) : Run η α :=
  bracket (fun s => { s with config := c }) (fun s t => { t with config := s.config }) part

/-- Runs a part under a new profile and gives the counters at its end. -/
def withProfile (part : Run η α) : Run η (α × Counters) :=
  bracket (fun s => { s with profile := some .zero, trail := s.trail ++ [.opened] })
    (fun s t => { t with profile := s.profile, trail := t.trail ++ [.closed] })
    (do
      let a ← part
      let s ← get
      pure (a, s.profile.getD .zero))

/-- Runs a part in a thread: with the default configuration and no profile, and with no effect on
either. -/
def withThread (part : Run η α) : Run η α :=
  bracket (fun s => { s with config := .default, profile := none, trail := s.trail ++ [.opened] })
    (fun s t =>
      { t with config := s.config, profile := s.profile, trail := t.trail ++ [.closed] })
    part

/-- Takes a fault as an answer. -/
def answer (part : Run η Answer) : Run η Answer := tryCatch part fun f => pure (.failed f)

/-- Finds what an identifier stands for, or fails. -/
def find (lookup : State η → Text → Option α) (id : Text) : Run η α := do
  match lookup (← get) id with
  | some a => pure a
  | none => throw (.unknown id)

/-- Adds to the trail and counts under the profile, if there is one. -/
def record (a : Activity η) (count : Counters → Counters) : Run η Unit :=
  modify fun s => { s with trail := s.trail ++ [a], profile := s.profile.map count }

/-! One equation for each way to build a computation. -/

@[simp] theorem pure_apply (a : α) (s : State η) : (pure a : Run η α) s = some (.ok a, s) := rfl

@[simp] theorem throw_apply (f : Fault) (s : State η) :
    (throw f : Run η α) s = some (.error f, s) := rfl

@[simp] theorem get_apply (s : State η) : (get : Run η (State η)) s = some (.ok s, s) := rfl

@[simp] theorem set_apply (s t : State η) : (set t : Run η PUnit) s = some (.ok ⟨⟩, t) := rfl

@[simp] theorem modify_apply (f : State η → State η) (s : State η) :
    (modify f : Run η PUnit) s = some (.ok ⟨⟩, f s) := rfl

theorem bind_apply (x : Run η α) (f : α → Run η β) (s : State η) :
    (x >>= f) s = (x s).bind fun
      | (.ok a, t) => f a t
      | (.error e, t) => some (.error e, t) := by
  show (x s).bind _ = _
  congr 1
  funext r
  obtain ⟨_ | _, _⟩ := r <;> rfl

theorem bracket_apply (enter : State η → State η) (leave : State η → State η → State η)
    (part : Run η α) (s : State η) :
    bracket enter leave part s = (part (enter s)).map fun r => (r.1, leave s r.2) := rfl

theorem answer_apply (part : Run η Answer) (s : State η) :
    answer part s = (part s).map fun
      | (.ok a, t) => (.ok a, t)
      | (.error f, t) => (.ok (.failed f), t) := by
  show (part s).bind _ = _
  cases part s with
  | none => rfl
  | some r => obtain ⟨_ | _, _⟩ := r <;> rfl

end Run
end Shortcode
