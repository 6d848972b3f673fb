import Shortcode.Session.Exec
import Shortcode.Proofs.Session.Run

/-! Computations that leave a part of the state as they found it, one lemma for each way to build a
computation. -/
namespace Shortcode
variable {η α β γ : Type} {view : State η → γ} {x : Run η α} {f : α → Run η β}

namespace Run

/-- What a view shows of the state at the end is what it showed on entry, whether the computation
ends with a value or with a fault. -/
def Keeps (view : State η → γ) (x : Run η α) : Prop :=
  ∀ s r t, x s = some (r, t) → view t = view s

theorem keeps_pure (a : α) : Keeps view (pure a : Run η α) := by
  intro s r t h
  cases h
  rfl

theorem keeps_throw (e : Fault) : Keeps view (throw e : Run η α) := by
  intro s r t h
  cases h
  rfl

theorem keeps_get : Keeps view (get : Run η (State η)) := by
  intro s r t h
  cases h
  rfl

theorem keeps_endless : Keeps view (endless : Run η α) := by
  intro s r t h
  cases h

theorem keeps_modify {g : State η → State η} (h : ∀ s, view (g s) = view s) :
    Keeps view (modify g : Run η PUnit) := by
  intro s r t hr
  cases hr
  exact h s

theorem Keeps.bind (hx : Keeps view x) (hf : ∀ a, Keeps view (f a)) : Keeps view (x >>= f) := by
  intro s r t h
  rcases bind_eq_some h with ⟨e, hs, -⟩ | ⟨a, u, hs, hu⟩
  · exact hx s _ t hs
  · exact (hf a u r t hu).trans (hx s _ u hs)

theorem Keeps.map (hx : Keeps view x) (g : α → β) : Keeps view (g <$> x) := by
  rw [map_eq_pure_bind]
  exact hx.bind fun a => keeps_pure (g a)

theorem Keeps.answer {x : Run η Answer} (hx : Keeps view x) : Keeps view (answer x) := by
  intro s r t h
  obtain ⟨-, r', hs⟩ := answer_eq_some h
  exact hx s r' t hs

theorem keeps_mapM (hf : ∀ a, Keeps view (f a)) (as : List α) : Keeps view (as.mapM f) := by
  induction as with
  | nil => exact keeps_pure []
  | cons a as ih =>
    rw [List.mapM_cons]
    exact (hf a).bind fun _ => ih.bind fun _ => keeps_pure _

theorem keeps_forM {f : α → Run η PUnit} (hf : ∀ a, Keeps view (f a)) (as : List α) :
    Keeps view (as.forM f) := by
  induction as with
  | nil => exact keeps_pure _
  | cons a as ih => exact (hf a).bind fun _ => ih

theorem keeps_record (hv : ∀ (s : State η) trail profile,
    view { s with trail := trail, profile := profile } = view s) (a : Activity η)
    (count : Counters → Counters) : Keeps view (record a count) :=
  keeps_modify fun s => hv s _ _

theorem keeps_find (lookup : State η → Text → Option α) (id : Text) :
    Keeps view (find lookup id) := by
  apply keeps_get.bind
  intro s
  cases lookup s id with
  | none => exact keeps_throw _
  | some a => exact keeps_pure a

/-- A bracket that mends what the view shows. -/
theorem keeps_bracket {enter : State η → State η} {leave : State η → State η → State η}
    (h : ∀ s t, view (leave s t) = view s) : Keeps view (bracket enter leave x) := by
  intro s r t hr
  obtain ⟨⟨r', u⟩, -, hp⟩ := Option.map_eq_some_iff.mp hr
  obtain ⟨-, rfl⟩ := Prod.mk.inj hp
  exact h s u

/-- A bracket that does not touch what the view shows. -/
theorem Keeps.bracket {enter : State η → State η} {leave : State η → State η → State η}
    (hx : Keeps view x) (he : ∀ s, view (enter s) = view s)
    (hl : ∀ s t, view (leave s t) = view t) : Keeps view (bracket enter leave x) := by
  intro s r t hr
  obtain ⟨⟨r', u⟩, hs, hp⟩ := Option.map_eq_some_iff.mp hr
  obtain ⟨-, rfl⟩ := Prod.mk.inj hp
  exact (hl s u).trans ((hx _ _ u hs).trans (he s))

/-! The configuration and the profile are mended by the blocks that change them. -/

theorem keeps_config_withConfig (c : Config) (x : Run η α) :
    Keeps (·.config) (withConfig c x) := keeps_bracket fun _ _ => rfl

theorem keeps_config_withThread (x : Run η α) : Keeps (·.config) (withThread x) :=
  keeps_bracket fun _ _ => rfl

theorem keeps_profile_withProfile (x : Run η α) : Keeps (·.profile) (withProfile x) :=
  keeps_bracket fun _ _ => rfl

theorem Keeps.config_withProfile (hx : Keeps (·.config) x) : Keeps (·.config) (withProfile x) := by
  have hy : Keeps (·.config) (do
      let a ← x
      let s ← get
      pure (a, s.profile.getD .zero) : Run η (α × Counters)) :=
    hx.bind fun a => keeps_get.bind fun s => keeps_pure _
  exact hy.bracket (fun _ => rfl) fun _ _ => rfl

theorem change_apply (number : Nat) (c : Change (Labelled η)) (s : State η) :
    change number c s = match (s.registry number).apply (c.map fun h => ⟨h, s.objects⟩) with
      | .error f => some (.error f, s)
      | .ok (r, reports) => some (.ok (.changed r.names reports),
          { s with registries := s.registries.set number r, objects := s.objects + 1 }) := by
  rw [change, bind_apply, get_apply, Option.bind_some]
  dsimp only
  cases (s.registry number).apply (c.map fun h => ⟨h, s.objects⟩) <;> rfl

/-! Registries and identifiers come and go without a trace in the rest of the state. -/

section Catalogue
variable (hv : ∀ (s : State η) registries items objects,
  view { s with registries := registries, items := items, objects := objects } = view s)
include hv

theorem keeps_assign (id : Text) (item : Item η) :
    Keeps view (modify (·.assign id item) : Run η PUnit) :=
  keeps_modify fun s => hv s _ _ _

theorem keeps_addRegistry : Keeps view (addRegistry : Run η Nat) := by
  intro s r t h
  cases h
  exact hv s _ s.items s.objects

theorem keeps_newEngine (id : Text) (c : Config) (number : Nat) :
    Keeps view (newEngine id c number : Run η Engine) :=
  (keeps_assign hv id _).bind fun _ => keeps_pure _

theorem keeps_change (number : Nat) (c : Change (Labelled η)) : Keeps view (change number c) := by
  intro s r t h
  rw [change_apply] at h
  cases ha : (s.registry number).apply (c.map fun h => ⟨h, s.objects⟩) with
  | error e =>
    rw [ha] at h
    cases h
    rfl
  | ok p =>
    rw [ha] at h
    cases h
    exact hv s _ s.items _

end Catalogue
end Run

/-- A step that looks things up or works on registries and identifiers. -/
def Step.Administers : Step η → Prop
  | .render _ _ => False
  | .strip _ _ => False
  | .dispatch _ _ _ => False
  | .setConfig _ => False
  | .resetConfig => False
  | _ => True

theorem Step.keeps_exec {call : Caller η} {s : Step η} (hs : s.Administers)
    (hv : ∀ (s : State η) registries items objects,
      view { s with registries := registries, items := items, objects := objects } = view s) :
    (s.exec call).Keeps view := by
  cases s with
  | newRegistry id =>
    refine (Run.keeps_addRegistry hv).bind fun number => ?_
    exact (Run.keeps_assign hv id _).bind fun _ => Run.keeps_pure _
  | newEngine id c registry =>
    have hn : ∀ number, (do
        let e ← Run.newEngine id c number
        pure (.config e.config) : Run η Answer).Keeps view := fun number =>
      (Run.keeps_newEngine hv id c number).bind fun _ => Run.keeps_pure _
    cases registry with
    | none => exact (Run.keeps_addRegistry hv).bind hn
    | some on => exact (Run.keeps_find State.number? on).bind hn
  | snapshot on id =>
    refine (Run.keeps_find State.handlers? on).bind fun handlers => ?_
    exact (Run.keeps_assign hv id _).bind fun _ => Run.keeps_pure _
  | change on c => exact (Run.keeps_find State.number? on).bind fun _ => Run.keeps_change hv _ c
  | lookup on tag => exact (Run.keeps_find State.handlers? on).bind fun _ => Run.keeps_pure _
  | has on tag => exact (Run.keeps_find State.handlers? on).bind fun _ => Run.keeps_pure _
  | names on => exact (Run.keeps_find State.handlers? on).bind fun _ => Run.keeps_pure _
  | parse t => exact Run.keeps_get.bind fun _ => Run.keeps_pure _
  | getConfig => exact Run.keeps_get.bind fun _ => Run.keeps_pure _
  | metrics => exact Run.keeps_get.bind fun _ => Run.keeps_pure _
  | render on content => exact hs.elim
  | strip on content => exact hs.elim
  | dispatch on p taken => exact hs.elim
  | setConfig c => exact hs.elim
  | resetConfig => exact hs.elim

end Shortcode
