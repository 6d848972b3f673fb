import Shortcode.Proofs.Session.Confined

/-! What has nothing to do with the configuration, the profile and the trail is touched by single steps
only, however deep they are nested. So an identifier keeps its meaning until a step gives it
another. -/
namespace Shortcode
variable {η γ : Type} {call : Caller η} {behave : η → Call → Nat → Program η} {id : Text}

section Touched
variable {view : State η → γ} (hv : ∀ (s : State η) config profile trail,
  view { s with config := config, profile := profile, trail := trail } = view s)
include hv

theorem Engine.keeps_guarded {e : Engine} {content : Text} {a : Activity η}
    {count : Counters → Counters} {work : Registry (Registered η) → Run η Text}
    (hw : ∀ handlers, (work handlers).Keeps view) :
    (guarded e content a count work).Keeps view := by
  apply Run.keeps_get.bind
  intro s
  dsimp only
  split
  · exact Run.keeps_pure _
  · refine (Run.keeps_record (fun s _ _ => hv s s.config _ _) _ _).bind fun _ => ?_
    exact (hw _).bracket (fun s => hv s _ s.profile s.trail) fun _ t => hv t _ t.profile t.trail

theorem Engine.keeps_render (hc : ∀ h c n, (call h c n).Keeps view) (e : Engine) (content : Text) :
    (e.render call content).Keeps view := by
  rw [render_eq_guarded]
  refine keeps_guarded hv fun handlers => (Run.keeps_mapM (fun m => ?_) _).bind fun _ =>
    Run.keeps_pure _
  exact (keeps_dispatch (fun s _ _ => hv s s.config _ _) (fun _ h _ => hc h.handler) _).bind fun _ =>
    Run.keeps_pure _

theorem Engine.keeps_strip (e : Engine) (content : Text) :
    (e.strip content : Run η Text).Keeps view := by
  rw [strip_eq_guarded]
  refine keeps_guarded hv fun handlers => (Run.keeps_forM (fun m => ?_) _).bind fun _ =>
    Run.keeps_pure _
  exact Run.keeps_record (fun s _ _ => hv s s.config _ _) _ _

theorem Scope.keeps_exec {body : Run η (Text × List Answer)} (hb : body.Keeps view) (c : Scope) :
    (c.exec body).Keeps view := by
  cases c with
  | config c raises =>
    have hx : (Run.withConfig c body).Keeps view :=
      hb.bracket (fun s => hv s _ s.profile s.trail) fun _ t => hv t _ t.profile t.trail
    exact hx.bind fun _ => Run.keeps_get.bind fun _ => Run.keeps_pure _
  | profile =>
    have hx : (Run.withProfile body).Keeps view :=
      Run.Keeps.bracket (hb.bind fun a => Run.keeps_get.bind fun s => Run.keeps_pure _)
        (fun s => hv s s.config _ _) fun _ t => hv t t.config _ _
    exact hx.bind fun _ => Run.keeps_pure _
  | thread =>
    have hx : (Run.withThread body).Keeps view :=
      hb.bracket (fun s => hv s _ _ _) fun _ t => hv t _ _ _
    exact hx.bind fun _ => Run.keeps_pure _

end Touched

/-- A step gives an identifier a meaning. -/
def Step.Assigns (id : Text) : Step η → Prop
  | .newRegistry i => i = id
  | .newEngine i _ _ => i = id
  | .snapshot _ i => i = id
  | _ => False

/-- A program leaves an identifier the meaning that it has. -/
def Program.Respects (id : Text) : Program η → Prop
  | .done _ _ => True
  | .raise _ => True
  | .step st next => ¬ st.Assigns id ∧ ∀ a, (next a).Respects id
  | .scoped _ body next => body.Respects id ∧ ∀ a, (next a).Respects id

theorem Run.keeps_item_assign {i : Text} (item : Item η) (h : i ≠ id) :
    (modify (·.assign i item) : Run η PUnit).Keeps (·.items.get? id) :=
  keeps_modify fun s => (OrderedMap.get?_insert s.items i id item).trans (if_neg h.symm)

theorem Run.keeps_item_change (n : Nat) (c : Change (Labelled η)) :
    (change n c).Keeps (·.items.get? id) := by
  intro s r t h
  rw [change_apply] at h
  cases ha : (s.registry n).apply (c.map fun h => ⟨h, s.objects⟩) <;> (rw [ha] at h; cases h; rfl)

theorem Step.keeps_item_exec {st : Step η} (hst : ¬ st.Assigns id)
    (hc : ∀ h c n, (call h c n).Keeps (·.items.get? id)) :
    (st.exec call).Keeps (·.items.get? id) := by
  cases st with
  | newRegistry i =>
    refine Run.Keeps.bind (fun s r t h => ?_) fun _ => (Run.keeps_item_assign _ hst).bind fun _ =>
      Run.keeps_pure _
    cases h
    rfl
  | newEngine i c registry =>
    have hk : ∀ n, (do
        let e ← Run.newEngine i c n
        pure (.config e.config) : Run η Answer).Keeps (·.items.get? id) := fun _ =>
      ((Run.keeps_item_assign _ hst).bind fun _ => Run.keeps_pure _).bind fun _ => Run.keeps_pure _
    cases registry with
    | none =>
      refine Run.Keeps.bind (fun s r t h => ?_) hk
      cases h
      rfl
    | some on => exact (Run.keeps_find _ _).bind hk
  | snapshot on i =>
    exact (Run.keeps_find _ _).bind fun _ => (Run.keeps_item_assign _ hst).bind fun _ =>
      Run.keeps_pure _
  | change on c => exact (Run.keeps_find _ _).bind fun n => Run.keeps_item_change n c
  | lookup on tag => exact (Run.keeps_find _ _).bind fun _ => Run.keeps_pure _
  | has on tag => exact (Run.keeps_find _ _).bind fun _ => Run.keeps_pure _
  | names on => exact (Run.keeps_find _ _).bind fun _ => Run.keeps_pure _
  | render on content =>
    exact (Run.keeps_find _ _).bind fun e =>
      (Engine.keeps_render (fun _ _ _ _ => rfl) hc e content).map _
  | strip on content =>
    exact (Run.keeps_find _ _).bind fun e => (Engine.keeps_strip (fun _ _ _ _ => rfl) e content).map _
  | dispatch on p taken =>
    exact (Run.keeps_find _ _).bind fun _ => (Run.keeps_find _ _).bind fun _ =>
      (Engine.keeps_dispatch (fun _ _ _ => rfl) (fun _ h _ => hc h.handler) p).bind fun _ =>
        Run.keeps_pure _
  | parse t => exact Run.keeps_get.bind fun _ => Run.keeps_pure _
  | getConfig => exact Run.keeps_get.bind fun _ => Run.keeps_pure _
  | setConfig c =>
    refine (Run.keeps_modify ?_).bind fun _ => Run.keeps_pure _
    exact fun _ => rfl
  | resetConfig =>
    refine (Run.keeps_modify ?_).bind fun _ => Run.keeps_pure _
    exact fun _ => rfl
  | metrics => exact Run.keeps_get.bind fun _ => Run.keeps_pure _

theorem Program.keeps_item_exec {p : Program η} (hp : p.Respects id)
    (hc : ∀ h c n, (call h c n).Keeps (·.items.get? id)) :
    (p.exec call).Keeps (·.items.get? id) := by
  induction p with
  | done out notes => exact Run.keeps_pure _
  | raise f => exact Run.keeps_throw _
  | step st next ih => exact (Step.keeps_item_exec hp.1 hc).answer.bind fun a => ih a (hp.2 a)
  | «scoped» c body next ihb ih =>
    exact (Scope.keeps_exec (fun _ _ _ _ => rfl) (ihb hp.1) c).answer.bind fun a => ih a (hp.2 a)

/-- By induction on the nesting. -/
theorem keeps_item_invoke (hb : ∀ h c n, (behave h c n).Respects id) (depth : Nat) (h : η) (c : Call)
    (n : Nat) : (invoke behave depth h c n).Keeps (·.items.get? id) := by
  induction depth generalizing h c n with
  | zero => exact Run.keeps_endless
  | succ depth ih => exact Program.keeps_item_exec (hb h c n) ih

end Shortcode
