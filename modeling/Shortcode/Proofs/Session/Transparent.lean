import Shortcode.Proofs.Session.Ledger
import Shortcode.Proofs.Session.Twins

/-! Profiling is transparent: a program that does not ask for the metrics runs under a profile as it does
without one. -/
namespace Shortcode
open Run
variable {η : Type} {seen : Prop} {past past' : List (Activity η)} {call : Caller η}
  {behave : η → Call → Nat → Program η}

section Blind
variable (hv : past.filterMap Activity.visit? = past'.filterMap Activity.visit?)

include hv in
theorem Step.blind_exec (hc : call.Blind seen past past') {s : Step η} (hs : s.Discreet seen) :
    (s.exec call).Blind seen past past' := by
  cases s with
  | newRegistry id =>
    refine blind_addRegistry.bind_eq fun number => ?_
    exact (blind_modify fun _ _ _ => rfl).bind_eq fun _ => parallel_pure rfl
  | newEngine id c registry =>
    have hn : ∀ number, (do
        let e ← Run.newEngine id c number
        pure (.config e.config) : Run η Answer).Blind seen past past' := fun number =>
      (blind_newEngine id c number).bind_eq fun _ => parallel_pure rfl
    cases registry with
    | none => exact blind_addRegistry.bind_eq hn
    | some on => exact (blind_find (fun _ _ _ _ => rfl) on).bind_eq hn
  | snapshot on id =>
    refine (blind_find (fun _ _ _ _ => rfl) on).bind_eq fun handlers => ?_
    exact (blind_modify fun _ _ _ => rfl).bind_eq fun _ => parallel_pure rfl
  | change on c => exact (blind_find (fun _ _ _ _ => rfl) on).bind_eq fun _ => blind_change _ c
  | lookup on tag => exact (blind_find (fun _ _ _ _ => rfl) on).bind_eq fun _ => parallel_pure rfl
  | has on tag => exact (blind_find (fun _ _ _ _ => rfl) on).bind_eq fun _ => parallel_pure rfl
  | names on => exact (blind_find (fun _ _ _ _ => rfl) on).bind_eq fun _ => parallel_pure rfl
  | render on content =>
    exact (blind_find (fun _ _ _ _ => rfl) on).bind_eq fun e =>
      (Engine.blind_render hv hc e content).map _
  | strip on content =>
    exact (blind_find (fun _ _ _ _ => rfl) on).bind_eq fun e => (e.blind_strip content).map _
  | dispatch on p taken =>
    exact (blind_find (fun _ _ _ _ => rfl) on).bind_eq fun _ =>
      (blind_find (fun _ _ _ _ => rfl) taken).bind_eq fun _ =>
        (Engine.blind_dispatch hv hc p).bind_eq fun _ => parallel_pure rfl
  | parse t =>
    apply parallel_get_bind
    rintro s _ ⟨_, _, _, rfl, _⟩
    exact parallel_pure rfl
  | getConfig =>
    apply parallel_get_bind
    rintro s _ ⟨_, _, _, rfl, _⟩
    exact parallel_pure rfl
  | setConfig c => exact (blind_modify fun _ _ _ => rfl).bind_eq fun _ => parallel_pure rfl
  | resetConfig => exact (blind_modify fun _ _ _ => rfl).bind_eq fun _ => parallel_pure rfl
  | metrics =>
    apply parallel_get_bind
    rintro s _ ⟨_, _, _, rfl, hp⟩
    exact parallel_pure (congrArg Answer.metrics (hp hs).symm)

theorem Scope.blind_exec_config {body : Run η (Text × List Answer)}
    (hb : body.Blind seen past past') (c : Config) (raises : Bool) :
    ((Scope.config c raises).exec body).Blind seen past past' := by
  refine (blind_withConfig hb c).bind_eq fun _ => parallel_get_bind ?_
  rintro s _ ⟨_, _, _, rfl, _⟩
  exact parallel_pure rfl

include hv in
/-- A body that runs out of sight of the profile outside may ask for the metrics. -/
theorem Program.blind_exec (hc : call.Blind seen past past') (ht : call.Blind True past past')
    {p : Program η} (hp : p.Discreet seen) : (p.exec call).Blind seen past past' := by
  induction p generalizing seen with
  | done out notes => exact parallel_pure rfl
  | raise f => exact parallel_throw f
  | step s next ih =>
    exact (Step.blind_exec hv hc hp.1).answer.bind_eq fun a => ih a hc (hp.2 a)
  | «scoped» s body next ihb ih =>
    cases s with
    | config c raises =>
      exact (Scope.blind_exec_config (ihb hc hp.1) c raises).answer.bind_eq fun a =>
        ih a hc (hp.2 a)
    | profile =>
      have hbody : (withProfile (body.exec call)).Blind seen past past' :=
        blind_withProfile (ihb ht (Program.discreet_of_seen trivial body))
      have hs : (Scope.profile.exec (body.exec call)).Blind seen past past' :=
        hbody.bind_eq fun _ => parallel_pure rfl
      exact hs.answer.bind_eq fun a => ih a hc (hp a)
    | thread =>
      have hbody : (withThread (body.exec call)).Blind seen past past' :=
        blind_withThread (ihb ht (Program.discreet_of_seen trivial body))
      have hs : (Scope.thread.exec (body.exec call)).Blind seen past past' :=
        hbody.bind_eq fun _ => parallel_pure rfl
      exact hs.answer.bind_eq fun a => ih a hc (hp a)

include hv in
/-- By induction on the nesting, for handlers under the profile and out of its sight at once. -/
theorem blind_invoke (hb : ∀ h c n, (behave h c n).Discreet seen) (depth : Nat) :
    Caller.Blind seen past past' (invoke behave depth) := by
  have ht : ∀ h c n, (behave h c n).Discreet True := fun _ _ _ => Program.discreet_of_seen trivial _
  have hboth : Caller.Blind seen past past' (invoke behave depth) ∧
      Caller.Blind True past past' (invoke behave depth) := by
    induction depth with
    | zero => exact ⟨fun _ _ _ => parallel_endless, fun _ _ _ => parallel_endless⟩
    | succ depth ih =>
      exact ⟨fun h c n => Program.blind_exec hv ih.1 ih.2 (hb h c n),
        fun h c n => Program.blind_exec hv ih.2 ih.2 (ht h c n)⟩
  exact hboth.1

end Blind

/-- Under a profile a program gives the same value or fault as without one, makes the same calls in
the same order, and leaves the same registries, snapshots and configuration behind. -/
theorem profile_transparent {p : Program η} (hp : p.Discreet False)
    (hb : ∀ h c n, (behave h c n).Discreet False) (depth : Nat) (s : State η) :
    (p.exec (invoke behave depth) { s with profile := none } = none ∧
      withProfile (p.exec (invoke behave depth)) s = none) ∨
    ∃ r t u c, p.exec (invoke behave depth) { s with profile := none } = some (r, t) ∧
      withProfile (p.exec (invoke behave depth)) s = some (r.map fun a => (a, c), u) ∧
      u.visits = t.visits ∧ u.registries = t.registries ∧ u.items = t.items ∧
      u.objects = t.objects ∧ u.config = t.config := by
  have hv : s.trail.filterMap Activity.visit? =
      (s.trail ++ [Activity.opened]).filterMap Activity.visit? := by simp [Activity.visit?]
  have hstart : State.Twins False s.trail (s.trail ++ [.opened]) { s with profile := none }
      (Point.profiled s).state := ⟨[], some .zero, by simp, by simp [Point.profiled], False.elim⟩
  have hseen := blind_invoke hv (fun h c n => Program.discreet_of_seen trivial (behave h c n)) depth
  have hrun := Program.blind_exec hv (blind_invoke hv hb depth) hseen hp
  rw [withProfile_apply]
  rcases hrun.alike hstart with ⟨ht, hu⟩ | ⟨r, t, u, ht, hu, h⟩
  · rw [ht, hu]
    exact Or.inl ⟨rfl, rfl⟩
  · rw [ht, hu]
    -- the closing of the profile is no call
    have hvisits : (u.trail ++ [Activity.closed]).filterMap Activity.visit? = t.visits := by
      rw [h.visits hv]
      simp [State.visits, Activity.visit?]
    refine Or.inr ⟨r, t, _, _, rfl, rfl, hvisits, ?_⟩
    obtain ⟨_, _, _, rfl, _⟩ := h
    exact ⟨rfl, rfl, rfl, rfl⟩

/-- A rendering in which a handler fails, one under a profile of its own, one in a thread, and a
stripping under another configuration, with all answers on record. -/
def rounds : Program Bool :=
  .askAll ['o'] [] [.step (.render ['i'] ['[', 'a', ']']),
    .scoped .profile (.step (.render ['j'] ['[', 'b', ']']) fun a => .done [] [a]),
    .scoped .thread (.step (.render ['i'] ['[', 'a', ']']) fun a => .done [] [a]),
    .scoped (.config ⟨.null, .null⟩ true) (.step (.strip ['i'] ['[', 'a', ']']) fun a => .done [] [a])]

/-- The calls of handlers are the same, three of them inside another call or a scope. -/
theorem profile_transparent_rounds : ∃ r t u c,
    rounds.exec (invoke delegating 2) { delegates with profile := none } = some (.ok r, t) ∧
    withProfile (rounds.exec (invoke delegating 2)) delegates = some (.ok (r, c), u) ∧
    r.2.length = 4 ∧ t.visits.map (·.object) = [0, 1, 1, 0, 1] ∧ u.visits = t.visits ∧
    u.config = t.config := by
  have hp : rounds.Discreet False :=
    ⟨trivial, fun _ _ _ => ⟨⟨trivial, fun _ => trivial⟩, fun _ => trivial⟩⟩
  have hb : ∀ h c n, (delegating h c n).Discreet False := by
    rintro (_ | _) c n
    · trivial
    · exact ⟨trivial, fun _ => trivial⟩
  rcases profile_transparent hp hb 2 delegates with ⟨hn, -⟩ | ⟨r, t, u, c, ht, hu, hv, -, -, -, hc⟩
  · cases hn
  · cases ht
    exact ⟨_, _, u, c, rfl, hu, rfl, rfl, hv, hc⟩

end Shortcode
