import Shortcode.Proofs.Engine.Strip
import Shortcode.Proofs.Engine.Render
import Shortcode.Proofs.Session.Parallel
import Shortcode.Session.Exec

/-! A profile only looks on: what is done does not depend on it, unless the metrics are asked for. Two
runs from states that differ in the profile do the same things one after another. -/
namespace Shortcode
open Run
variable {η α : Type} {seen : Prop} {past past' : List (Activity η)} {s t u v : State η}
  {call : Caller η}

/-- Two states that differ at most in the profile and in what the trail shows of the time before some
moment. Where `seen` holds the profiles are the same as well. -/
def State.Twins (seen : Prop) (past past' : List (Activity η)) (s t : State η) : Prop :=
  ∃ later profile, s.trail = past ++ later ∧
    t = { s with profile := profile, trail := past' ++ later } ∧ (seen → profile = s.profile)

namespace State

theorem Twins.record (h : Twins seen past past' s t) (a : Activity η)
    (count : Counters → Counters) : Twins seen past past'
      { s with trail := s.trail ++ [a], profile := s.profile.map count }
      { t with trail := t.trail ++ [a], profile := t.profile.map count } := by
  obtain ⟨later, p, hs, rfl, hp⟩ := h
  refine ⟨later ++ [a], p.map count, ?_, ?_, ?_⟩
  · simp [hs]
  · simp
  · intro hx
    simp [hp hx]

/-- What a handler notes is put on the trail at the same place, counted from that moment. -/
theorem Twins.note (h : Twins seen past past' s t) (hu : Twins seen past past' u v)
    (notes : List Answer) : Twins seen past past'
      { u with trail := u.trail.modify s.trail.length (·.note notes) }
      { v with trail := v.trail.modify t.trail.length (·.note notes) } := by
  have hm : ∀ (a b : List (Activity η)) (k : Nat),
      (a ++ b).modify (a.length + k) (·.note notes) = a ++ b.modify k (·.note notes) := by
    intro a b k
    induction a with
    | nil => simp
    | cons x a ih => simp [Nat.add_right_comm _ 1, ih]
  obtain ⟨later, p, hs, rfl, hp⟩ := h
  obtain ⟨more, q, hu, rfl, hq⟩ := hu
  refine ⟨more.modify later.length (·.note notes), q, ?_, ?_, hq⟩
  · simp [hu, hs, hm]
  · simp [hm]

theorem Twins.callCount (hv : past.filterMap Activity.visit? = past'.filterMap Activity.visit?)
    (h : Twins seen past past' s t) (object : Nat) : s.callCount object = t.callCount object := by
  obtain ⟨later, p, hs, rfl, hp⟩ := h
  simp [State.callCount, visits, hs, hv]

theorem Twins.visits (hv : past.filterMap Activity.visit? = past'.filterMap Activity.visit?)
    (h : Twins seen past past' s t) : s.visits = t.visits := by
  obtain ⟨later, p, hs, rfl, hp⟩ := h
  simp [State.visits, hs, hv]

/-- A change of anything else than the profile and the trail. -/
theorem Twins.edit {f : State η → State η} (h : Twins seen past past' s t)
    (hf : ∀ (s : State η) profile trail, f { s with profile := profile, trail := trail } =
      { f s with profile := profile, trail := trail }) : Twins seen past past' (f s) (f t) := by
  obtain ⟨later, p, hs, rfl, hp⟩ := h
  obtain ⟨r, i, c, q, l, o⟩ := s
  have he := hf ⟨r, i, c, q, l, o⟩ q l
  refine ⟨later, p, ?_, hf _ _ _, ?_⟩
  · rw [he]
    exact hs
  · intro hx
    rw [he]
    exact hp hx

end State

/-- A step that does not ask for the metrics, or may do so. -/
def Step.Discreet (seen : Prop) : Step η → Prop
  | .metrics => seen
  | _ => True

/-- A program asks for the metrics only where it may, or under a profile of its own or in a thread,
where those outside are out of sight. -/
def Program.Discreet (seen : Prop) : Program η → Prop
  | .done _ _ => True
  | .raise _ => True
  | .step s next => s.Discreet seen ∧ ∀ a, (next a).Discreet seen
  | .scoped (.config _ _) body next => body.Discreet seen ∧ ∀ a, (next a).Discreet seen
  | .scoped .profile _ next => ∀ a, (next a).Discreet seen
  | .scoped .thread _ next => ∀ a, (next a).Discreet seen

theorem Program.discreet_of_seen (h : seen) (p : Program η) : p.Discreet seen := by
  induction p with
  | done out notes => trivial
  | raise f => trivial
  | step s next ih => exact ⟨by cases s <;> first | exact h | trivial, ih⟩
  | «scoped» s body next ihb ih =>
    cases s with
    | config c raises => exact ⟨ihb, ih⟩
    | profile => exact ih
    | thread => exact ih

section Twins
variable (seen past past')

/-- Twin states are led to twin states, with the same value or the same fault. -/
def Run.Blind (x : Run η α) : Prop :=
  Parallel (State.Twins seen past past') Eq x x

/-- A handler that does the same in twin states. -/
def Caller.Blind (call : Caller η) : Prop := ∀ h c n, (call h c n).Blind seen past past'

end Twins

namespace Run

/-- Both runs have no end, or both have the same one in twin states. -/
theorem Blind.alike {x : Run η α} (hx : x.Blind seen past past')
    (h : State.Twins seen past past' s t) : (x s = none ∧ x t = none) ∨
      ∃ r u v, x s = some (r, u) ∧ x t = some (r, v) ∧ State.Twins seen past past' u v := by
  have hrun := hx s t h
  generalize x s = o at hrun ⊢
  generalize x t = o' at hrun ⊢
  cases hrun with
  | endless => exact Or.inl ⟨rfl, rfl⟩
  | failed hr => exact Or.inr ⟨_, _, _, rfl, rfl, hr⟩
  | done ha hr =>
    obtain rfl := ha
    exact Or.inr ⟨_, _, _, rfl, rfl, hr⟩

theorem blind_find {lookup : State η → Text → Option α}
    (h : ∀ (s : State η) id profile trail,
      lookup { s with profile := profile, trail := trail } id = lookup s id) (id : Text) :
    (find lookup id).Blind seen past past' := by
  apply parallel_find
  rintro s _ ⟨later, p, -, rfl, -⟩
  exact (h s id _ _).symm

theorem blind_modify {f : State η → State η}
    (hf : ∀ (s : State η) profile trail, f { s with profile := profile, trail := trail } =
      { f s with profile := profile, trail := trail }) :
    (modify f : Run η PUnit).Blind seen past past' :=
  parallel_modify fun _ _ h => h.edit hf

theorem blind_record (a : Activity η) (count : Counters → Counters) :
    (record a count).Blind seen past past' :=
  parallel_modify fun _ _ h => h.record a count

theorem blind_withConfig {x : Run η α} (hx : x.Blind seen past past') (c : Config) :
    (withConfig c x).Blind seen past past' := by
  apply Parallel.bracket hx
  · rintro s _ ⟨later, p, hs, rfl, hp⟩
    exact ⟨later, p, hs, rfl, hp⟩
  · rintro s _ u _ ⟨later, p, -, rfl, -⟩ ⟨more, q, hu, rfl, hq⟩
    exact ⟨more, q, hu, rfl, hq⟩

/-- Under a profile of its own a part does not come to see the one outside. -/
theorem blind_withProfile {x : Run η α} (hx : x.Blind True past past') :
    (withProfile x).Blind seen past past' := by
  have hbody : (do
      let a ← x
      let s ← get
      pure (a, s.profile.getD .zero) : Run η (α × Counters)).Blind True past past' := by
    refine hx.bind_eq fun a => parallel_get_bind ?_
    rintro s _ ⟨later, p, -, rfl, hp⟩
    obtain rfl := hp trivial
    exact parallel_pure rfl
  apply Parallel.bracket hbody
  · rintro s _ ⟨later, p, hs, rfl, -⟩
    exact ⟨later ++ [.opened], some .zero, by simp [hs], by simp, fun _ => rfl⟩
  · rintro s _ u _ ⟨later, p, -, rfl, hp⟩ ⟨more, q, hu, rfl, -⟩
    exact ⟨more ++ [.closed], p, by simp [hu], by simp, hp⟩

theorem blind_withThread {x : Run η α} (hx : x.Blind True past past') :
    (withThread x).Blind seen past past' := by
  apply Parallel.bracket hx
  · rintro s _ ⟨later, p, hs, rfl, -⟩
    exact ⟨later ++ [.opened], none, by simp [hs], by simp, fun _ => rfl⟩
  · rintro s _ u _ ⟨later, p, -, rfl, hp⟩ ⟨more, q, hu, rfl, -⟩
    exact ⟨more ++ [.closed], p, by simp [hu], by simp, hp⟩

theorem blind_change (number : Nat) (c : Change (Labelled η)) :
    (change number c).Blind seen past past' := by
  apply parallel_get_bind
  rintro s _ ⟨later, p, hs, rfl, hp⟩
  dsimp only [State.registry]
  split
  · exact parallel_throw _
  · refine Parallel.bind_eq (fun _ _ _ => .done rfl ?_) fun _ => parallel_pure rfl
    exact ⟨later, p, hs, rfl, hp⟩

theorem blind_addRegistry : (addRegistry : Run η Nat).Blind seen past past' := by
  rintro s _ ⟨later, p, hs, rfl, hp⟩
  exact .done rfl ⟨later, p, hs, rfl, hp⟩

theorem blind_newEngine (id : Text) (c : Config) (number : Nat) :
    (newEngine id c number : Run η Engine).Blind seen past past' :=
  (blind_modify fun _ _ _ => rfl).bind_eq fun _ => parallel_pure rfl

end Run

namespace Engine
variable {handlers : Registry (Registered η)}

/-- What a rendering does with a content when it has been counted. -/
def replacing (call : Caller η) (content : Text) (handlers : Registry (Registered η)) :
    Run η Text := do
  let replaced ← (scan handlers.names content).mapM (replacement call handlers)
  pure (splice content replaced)

section Visits
variable (hv : past.filterMap Activity.visit? = past'.filterMap Activity.visit?)
include hv

theorem blind_visit (hc : call.Blind seen past past') (h : Registered η) (c : Call) :
    (visit call h c).Blind seen past past' := by
  intro s t hs
  have hb : (begun h c s).Twins seen past past' (begun h c t) := hs.record _ _
  rw [visit_apply, visit_apply, hb.callCount hv, Option.map_eq_bind, Option.map_eq_bind]
  refine (hc h.handler c _ _ _ hb).bind (fun _ _ _ hr => .failed hr) ?_
  rintro ⟨out, notes⟩ _ u v rfl hr
  exact .done rfl (hs.note hr notes)

theorem blind_dispatch (hc : call.Blind seen past past') (p : TagParts) :
    (dispatch call handlers p).Blind seen past past' := by
  apply parallel_get_bind
  rintro s _ ⟨_, _, _, rfl, _⟩
  dsimp only
  split
  · exact (blind_record _ _).bind_eq fun _ => parallel_pure rfl
  · cases handlers.get? p.tag with
    | none => exact parallel_throw _
    | some h => exact (blind_visit hv hc h _).bind_eq fun _ => parallel_pure rfl

theorem blind_replacing (hc : call.Blind seen past past') (content : Text)
    (handlers : Registry (Registered η)) :
    (replacing call content handlers).Blind seen past past' := by
  have hm : ∀ m, (replacement call handlers m).Blind seen past past' := fun m =>
    (blind_dispatch hv hc m.toTagParts).bind_eq fun _ => parallel_pure rfl
  exact (parallel_mapM hm _).bind_eq fun _ => parallel_pure rfl

end Visits

theorem blind_guarded (e : Engine) (content : Text) (a : Activity η)
    (count : Counters → Counters) {work : Registry (Registered η) → Run η Text}
    (hw : ∀ handlers, (work handlers).Blind seen past past') :
    (guarded e content a count work).Blind seen past past' := by
  apply parallel_get_bind
  rintro s _ ⟨_, _, _, rfl, _⟩
  dsimp only [State.registry]
  split
  · exact parallel_pure rfl
  · exact (blind_record a count).bind_eq fun _ => blind_withConfig (hw _) e.config

theorem blind_render (hv : past.filterMap Activity.visit? = past'.filterMap Activity.visit?)
    (hc : call.Blind seen past past') (e : Engine) (content : Text) :
    (e.render call content).Blind seen past past' := by
  rw [render_eq_guarded]
  exact blind_guarded _ _ _ _ (blind_replacing hv hc content)

theorem blind_strip (e : Engine) (content : Text) :
    (e.strip content : Run η Text).Blind seen past past' := by
  rw [strip_eq_guarded]
  apply blind_guarded
  intro handlers
  exact (parallel_forM fun _ _ => blind_record _ _).bind_eq fun _ => parallel_pure rfl

end Engine
end Shortcode
