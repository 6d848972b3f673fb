import Shortcode.Proofs.Engine.Strip

/-! The configuration that is in force when a rendering or a stripping begins makes no difference to
it. Two runs from states that differ in nothing else do the same, whatever the handlers read or
change, and each ends with the configuration it began with. -/
namespace Shortcode
variable {η α β : Type} {x : Run η α}

/-- The same state with another configuration in force. -/
def State.under (s : State η) (c : Config) : State η := { s with config := c }

namespace Run

/-- A computation takes no notice of the configuration in force and leaves it as it is. -/
def Unaffected (x : Run η α) : Prop :=
  ∀ s c, x (s.under c) = (x s).map fun r => (r.1, r.2.under c)

theorem unaffected_pure (a : α) : Unaffected (pure a : Run η α) := fun _ _ => rfl

theorem unaffected_record (a : Activity η) (count : Counters → Counters) :
    Unaffected (record a count) := fun _ _ => rfl

/-- A part under a configuration of its own never sees the one outside. -/
theorem unaffected_withConfig (c : Config) (x : Run η α) : Unaffected (withConfig c x) := by
  intro s c'
  rw [withConfig_apply, withConfig_apply, Option.map_map]
  rfl

theorem Unaffected.bind {f : α → Run η β} (hx : Unaffected x) (hf : ∀ a, Unaffected (f a)) :
    Unaffected (x >>= f) := by
  intro s c
  rw [bind_apply, bind_apply, hx s c]
  cases x s with
  | none => rfl
  | some r =>
    obtain ⟨e | a, t⟩ := r
    · rfl
    · exact hf a t c

/-- To look at the state is harmless where the configuration is not looked at. -/
theorem unaffected_get_bind {f : State η → Run η β} (hf : ∀ s, Unaffected (f s))
    (hc : ∀ s c, f (s.under c) = f s) : Unaffected (get >>= f) := by
  intro s c
  rw [bind_apply, bind_apply, get_apply, get_apply]
  show f (s.under c) (s.under c) = (f s s).map _
  rw [hc]
  exact hf s s c

/-- Two runs under different configurations end alike, and each with its own configuration. -/
theorem Unaffected.alike (hx : Unaffected x) (s : State η) (c c' : Config) :
    (x (s.under c) = none ∧ x (s.under c') = none) ∨
      ∃ (r : Except Fault α) (t : State η),
        x (s.under c) = some (r, t.under c) ∧ x (s.under c') = some (r, t.under c') := by
  rw [hx s c, hx s c']
  cases x s with
  | none => exact Or.inl ⟨rfl, rfl⟩
  | some r => exact Or.inr ⟨r.1, r.2, rfl, rfl⟩

end Run

namespace Engine

theorem unaffected_guarded (e : Engine) (content : Text) (a : Activity η)
    (count : Counters → Counters) (work : Registry (Registered η) → Run η Text) :
    (guarded e content a count work).Unaffected := by
  apply Run.unaffected_get_bind
  · intro s
    dsimp only
    split
    · exact Run.unaffected_pure _
    · exact (Run.unaffected_record _ _).bind fun _ => Run.unaffected_withConfig _ _
  · exact fun _ _ => rfl

theorem unaffected_render (call : Caller η) (e : Engine) (content : Text) :
    (e.render call content).Unaffected := by
  rw [render_eq_guarded]
  exact unaffected_guarded e content _ _ _

theorem unaffected_strip (e : Engine) (content : Text) :
    (e.strip content : Run η Text).Unaffected := by
  rw [strip_eq_guarded]
  exact unaffected_guarded e content _ _ _

/-- Under any two configurations a rendering has no end, or it has the same end both times: the same
text or fault in the same state, calls, registries and counters included, but for the configuration,
which is the one it began with. So it is with a stripping, which always ends with a text. -/
theorem render_and_strip_alike (call : Caller η) (e : Engine) (content : Text) (s : State η)
    (c c' : Config) :
    ((e.render call content (s.under c) = none ∧ e.render call content (s.under c') = none) ∨
      ∃ (r : Except Fault Text) (t : State η),
        e.render call content (s.under c) = some (r, t.under c) ∧
        e.render call content (s.under c') = some (r, t.under c')) ∧
    ∃ (out : Text) (t : State η), e.strip content (s.under c) = some (.ok out, t.under c) ∧
      e.strip content (s.under c') = some (.ok out, t.under c') := by
  refine ⟨(unaffected_render call e content).alike s c c', ?_⟩
  obtain ⟨t, ht⟩ := strip_apply e content (s.under c)
  rcases (unaffected_strip e content).alike s c c' with ⟨hn, -⟩ | ⟨r, u, hc, hc'⟩
  · rw [ht] at hn
    cases hn
  · obtain rfl : .ok _ = r := congrArg Prod.fst (Option.some.inj (ht.symm.trans hc))
    exact ⟨_, u, hc, hc'⟩

end Engine
end Shortcode
