import Shortcode.Proofs.Engine.Strip
import Shortcode.Proofs.Session.Keeps
import Shortcode.Proofs.Session.Work

/-! Every computation counts under the profile in force exactly the work it does, also when it ends with
a fault: one lemma for each way to build a computation, from these one for each function. -/
namespace Shortcode
open Counters
variable {η α β : Type} {call : Caller η} {inner : Deeds η} {behave : η → Call → Nat → Program η}

namespace Run
variable {x : Run η α} {f : α → Run η β} {w : State η → List Deed} {v : α → State η → List Deed}

/-- A computation adds some work, told from the state in which it begins, to the profile in force, and
does so also when it ends with a fault. -/
def Counts (x : Run η α) (w : State η → List Deed) : Prop :=
  ∀ s r t, x s = some (r, t) → t.profile = s.profile.map (· + tally (w s))

theorem Keeps.counts (hx : x.Keeps (·.profile)) : Counts x fun _ => [] := by
  intro s r t h
  have ht : t.profile = s.profile := hx s r t h
  rw [ht]
  cases s.profile <;> simp

theorem counts_record {d : Deed} {a : Activity η} {count : Counters → Counters}
    (h : ∀ c, count c = c + tally [d]) : Counts (record a count) fun _ => [d] := by
  intro s r t hr
  cases hr
  exact congrArg (s.profile.map ·) (funext h)

/-- The work after a part is counted on top of the work of the part. -/
theorem Counts.bind (hx : Counts x w) (hf : ∀ a, Counts (f a) (v a)) :
    Counts (x >>= f) fun s => w s ++ x.afterwards v s := by
  intro s r t h
  dsimp only [afterwards]
  rcases bind_eq_some h with ⟨e, hs, -⟩ | ⟨a, u, hs, hu⟩
  · rw [hs, List.append_nil]
    exact hx s _ t hs
  · rw [hs, hf a u r t hu, hx s _ u hs, Option.map_map]
    refine congrArg (s.profile.map ·) (funext fun c => ?_)
    rw [tally_append, ← add_assoc]
    rfl

theorem Counts.get_bind {f : State η → Run η β} {v : State η → State η → List Deed}
    (hf : ∀ s, Counts (f s) (v s)) : Counts (get >>= f) fun s => v s s :=
  fun s r t h => hf s s r t h

theorem Counts.answer {x : Run η Answer} (hx : Counts x w) : Counts (answer x) w := by
  intro s r t h
  obtain ⟨-, r', hs⟩ := answer_eq_some h
  exact hx s r' t hs

theorem Counts.withConfig (c : Config) (hx : Counts x w) :
    Counts (withConfig c x) fun s => w { s with config := c } := by
  intro s r t h
  rw [withConfig_apply] at h
  obtain ⟨⟨r', u⟩, hs, hp⟩ := Option.map_eq_some_iff.mp h
  obtain ⟨-, rfl⟩ := Prod.mk.inj hp
  exact hx _ r' u hs

theorem Counts.congr {w' : State η → List Deed} (hx : Counts x w) (h : ∀ s, w s = w' s) :
    Counts x w' := by
  obtain rfl : w = w' := funext h
  exact hx

/-- What adds nothing can stand behind a part. -/
theorem Counts.bind_keeps (hx : Counts x w) (hf : ∀ a, (f a).Keeps (·.profile)) :
    Counts (x >>= f) w :=
  (hx.bind fun a => (hf a).counts).congr fun s => by rw [afterwards_nil, List.append_nil]

/-- A look-up adds nothing, and without what is looked up nothing more is done. -/
theorem Counts.find_bind {lookup : State η → Text → Option α} {id : Text}
    (hf : ∀ a, Counts (f a) (v a)) :
    Counts (find lookup id >>= f) fun s => (lookup s id).elim [] fun a => v a s := by
  refine ((keeps_find lookup id).counts.bind hf).congr fun s => ?_
  cases h : lookup s id with
  | none => simp [afterwards, find, bind_apply, h]
  | some a => simp [afterwards, find_apply h]

end Run

namespace Engine
variable {handlers : Registry (Registered η)}

theorem counts_visit {h : Registered η}
    (hc : ∀ c n, (call h.handler c n).Counts (inner h.handler c n)) (c : Call) :
    (visit call h c).Counts fun s =>
      .called :: inner h.handler c ((begun h c s).callCount h.object) (begun h c s) := by
  have hn : ∀ (place : Nat) (r : Text × List Answer), (do
      modify fun s => { s with trail := s.trail.modify place (·.note r.2) }
      pure r.1 : Run η Text).Keeps (·.profile) := by
    intro place r
    refine (Run.keeps_modify ?_).bind fun _ => Run.keeps_pure _
    exact fun _ => rfl
  exact Run.Counts.get_bind fun s =>
    (Run.counts_record recordMatch_eq_add_called).bind fun _ =>
      Run.Counts.get_bind fun t => (hc c _).bind_keeps (hn s.trail.length)

theorem counts_dispatch (hc : ∀ h c n, (call h c n).Counts (inner h c n)) (p : TagParts) :
    (dispatch call handlers p).Counts (dispatchWork inner handlers p) := by
  intro s r t ht
  rw [dispatch, Run.bind_apply, Run.get_apply, Option.bind_some] at ht
  rw [dispatchWork]
  dsimp only at ht
  split at ht
  next he =>
    rw [if_pos he]
    exact ((Run.counts_record recordMatch_eq_add_spared).bind_keeps fun _ =>
      Run.keeps_pure _) s r t ht
  next he =>
    rw [if_neg he]
    cases hh : handlers.get? p.tag with
    | none =>
      rw [hh] at ht
      exact (Run.keeps_throw _).counts s r t ht
    | some h =>
      rw [hh] at ht
      exact ((counts_visit (hc h.handler) _).bind_keeps fun _ => Run.keeps_pure _) s r t ht

/-- By induction on the matches; the work for a match is told from the state that the match before it
leaves. -/
theorem counts_mapM_replacement (hc : ∀ h c n, (call h c n).Counts (inner h c n))
    (ms : List TagMatch) : (ms.mapM (replacement call handlers)).Counts
      (matchesWork call inner handlers ms) := by
  induction ms with
  | nil => exact (Run.keeps_pure _).counts
  | cons m ms ih =>
    have hm : (replacement call handlers m).Counts (dispatchWork inner handlers m.toTagParts) :=
      (counts_dispatch hc m.toTagParts).bind_keeps fun _ => Run.keeps_pure _
    rw [List.mapM_cons]
    refine (hm.bind fun _ => ih.bind_keeps fun _ => Run.keeps_pure _).congr fun s => ?_
    rw [matchesWork, Run.afterwards, Run.afterwards, replacement_apply]
    cases dispatch call handlers m.toTagParts s with
    | none => rfl
    | some r => obtain ⟨_ | _, _⟩ := r <;> rfl

theorem counts_forM_strike (ms : List TagMatch) :
    (ms.forM strike : Run η PUnit).Counts fun _ => ms.map fun m => .removed m.isEscaped := by
  induction ms with
  | nil => exact (Run.keeps_pure _).counts
  | cons m ms ih =>
    exact (Run.counts_record fun c => recordMatch_eq_add_removed c m.isEscaped).bind fun _ => ih

theorem counts_guarded {e : Engine} {content : Text} {d : Deed} {a : Activity η}
    {count : Counters → Counters} {part : Registry (Registered η) → Run η Text}
    {w : Registry (Registered η) → State η → List Deed} (hd : ∀ c, count c = c + tally [d])
    (hp : ∀ handlers, (part handlers).Counts (w handlers)) :
    (guarded e content a count part).Counts fun s =>
      if (s.registry e.registry).names.isEmpty then []
      else d :: w (s.registry e.registry) { s with
        trail := s.trail ++ [a], profile := s.profile.map count, config := e.config } := by
  intro s r t ht
  rw [guarded, Run.bind_apply, Run.get_apply, Option.bind_some] at ht
  dsimp only at ht ⊢
  split at ht
  next hn =>
    rw [if_pos hn]
    exact (Run.keeps_pure _).counts s r t ht
  next hn =>
    rw [if_neg hn]
    exact ((Run.counts_record hd).bind fun _ => (hp _).withConfig e.config) s r t ht

theorem counts_render (hc : ∀ h c n, (call h c n).Counts (inner h c n)) (e : Engine)
    (content : Text) : (render call e content).Counts (renderWork call inner e content) := by
  rw [render_eq_guarded]
  exact (counts_guarded (fun c => recordRender_eq_add c content.length) fun handlers =>
    (counts_mapM_replacement hc _).bind_keeps fun _ => Run.keeps_pure _).congr fun _ => rfl

theorem counts_strip (e : Engine) (content : Text) :
    (strip e content : Run η Text).Counts (stripWork e content) := by
  rw [strip_eq_guarded]
  exact (counts_guarded (fun c => recordStrip_eq_add c content.length) fun handlers =>
    (counts_forM_strike _).bind_keeps fun _ => Run.keeps_pure _).congr fun _ => rfl

end Engine

theorem Step.counts_exec (hc : ∀ h c n, (call h c n).Counts (inner h c n)) (s : Step η) :
    (s.exec call).Counts (s.work call inner) := by
  cases s with
  | render on content =>
    exact Run.Counts.find_bind fun e =>
      (Engine.counts_render hc e content).bind_keeps fun _ => Run.keeps_pure _
  | strip on content =>
    exact Run.Counts.find_bind fun e =>
      (Engine.counts_strip e content).bind_keeps fun _ => Run.keeps_pure _
  | dispatch on p taken =>
    exact Run.Counts.find_bind fun _ => Run.Counts.find_bind fun _ =>
      (Engine.counts_dispatch hc p).bind_keeps fun _ => Run.keeps_pure _
  | setConfig c =>
    refine ((Run.keeps_modify ?_).bind fun _ => Run.keeps_pure _).counts
    exact fun _ => rfl
  | resetConfig =>
    refine ((Run.keeps_modify ?_).bind fun _ => Run.keeps_pure _).counts
    exact fun _ => rfl
  | _ => exact Run.Keeps.counts (Step.keeps_exec trivial fun _ _ _ _ => rfl)

theorem Scope.counts_exec {body : Run η (Text × List Answer)} {w : State η → List Deed}
    (hb : body.Counts w) (s : Scope) : (s.exec body).Counts (s.work w) := by
  cases s with
  | config c raises =>
    exact (hb.withConfig c).bind_keeps fun _ => Run.keeps_get.bind fun _ => Run.keeps_pure _
  | profile =>
    exact ((Run.keeps_profile_withProfile body).bind fun _ => Run.keeps_pure _).counts
  | thread =>
    have ht : (Run.withThread body).Keeps (·.profile) := Run.keeps_bracket fun _ _ => rfl
    exact (ht.bind fun _ => Run.keeps_pure _).counts

theorem Program.counts_exec (hc : ∀ h c n, (call h c n).Counts (inner h c n)) (p : Program η) :
    (p.exec call).Counts (p.work call inner) := by
  induction p with
  | done out notes => exact (Run.keeps_pure _).counts
  | raise f => exact (Run.keeps_throw _).counts
  | step s next ih => exact (Step.counts_exec hc s).answer.bind ih
  | «scoped» s body next ihb ih => exact (Scope.counts_exec ihb s).answer.bind ih

/-- By induction on the nesting: a handler runs one level deeper than what calls it. -/
theorem counts_invoke (behave : η → Call → Nat → Program η) (depth : Nat) (h : η) (c : Call)
    (n : Nat) : (invoke behave depth h c n).Counts (handlerWork behave depth h c n) := by
  induction depth generalizing h c n with
  | zero => exact Run.keeps_endless.counts
  | succ depth ih => exact Program.counts_exec ih (behave h c n)

end Shortcode
