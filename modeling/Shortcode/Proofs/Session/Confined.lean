import Shortcode.Proofs.Engine.Render
import Shortcode.Proofs.Engine.Strip
import Shortcode.Proofs.Session.Keeps

/-! The configuration in force is scoped: whatever is done inside a rendering, a stripping, a block or
a thread, on its end the configuration is the one it began with. So a rendering whose handlers change
the configuration only inside such scopes handles every match under the configuration of its
engine. -/
namespace Shortcode
open Scan
variable {η : Type} {call : Caller η} {behave : η → Call → Nat → Program η} {direct : Prop}

/-- A step does not itself change the configuration. A handler that is called where the step stands
belongs to no scope of its own, so `direct` tells whether such calls are allowed. -/
def Step.Confined (direct : Prop) : Step η → Prop
  | .setConfig _ => False
  | .resetConfig => False
  | .dispatch _ _ _ => direct
  | _ => True

/-- A program changes the configuration only inside scopes that mend it; a profile is no such
scope. -/
def Program.Confined (direct : Prop) : Program η → Prop
  | .done _ _ => True
  | .raise _ => True
  | .step s next => s.Confined direct ∧ ∀ a, (next a).Confined direct
  | .scoped .profile body next => body.Confined direct ∧ ∀ a, (next a).Confined direct
  | .scoped (.config _ _) _ next => ∀ a, (next a).Confined direct
  | .scoped .thread _ next => ∀ a, (next a).Confined direct

namespace Engine

theorem keeps_config_guarded (e : Engine) (content : Text) (a : Activity η)
    (count : Counters → Counters) (work : Registry (Registered η) → Run η Text) :
    (guarded e content a count work).Keeps (·.config) := by
  apply Run.keeps_get.bind
  intro s
  dsimp only
  split
  · exact Run.keeps_pure _
  · exact (Run.keeps_record (fun _ _ _ => rfl) _ _).bind fun _ => Run.keeps_config_withConfig _ _

theorem keeps_config_render (call : Caller η) (e : Engine) (content : Text) :
    (e.render call content).Keeps (·.config) := by
  rw [render_eq_guarded]
  exact keeps_config_guarded e content _ _ _

theorem keeps_config_strip (e : Engine) (content : Text) :
    (e.strip content : Run η Text).Keeps (·.config) := by
  rw [strip_eq_guarded]
  exact keeps_config_guarded e content _ _ _

section Calls
variable {γ : Type} {view : State η → γ} (hv : ∀ (s : State η) trail profile,
  view { s with trail := trail, profile := profile } = view s)
include hv

theorem keeps_visit {h : Registered η} (hc : ∀ c n, (call h.handler c n).Keeps view) (c : Call) :
    (visit call h c).Keeps view := by
  apply Run.keeps_get.bind
  intro s
  apply (Run.keeps_record hv _ _).bind
  intro _
  apply Run.keeps_get.bind
  intro t
  apply (hc c _).bind
  rintro ⟨out, notes⟩
  refine (Run.keeps_modify ?_).bind fun _ => Run.keeps_pure out
  exact fun s => hv s _ s.profile

theorem keeps_dispatch {handlers : Registry (Registered η)}
    (hc : ∀ tag h, handlers.get? tag = some h → ∀ c n, (call h.handler c n).Keeps view)
    (p : TagParts) : (dispatch call handlers p).Keeps view := by
  apply Run.keeps_get.bind
  intro s
  dsimp only
  split
  · exact (Run.keeps_record hv _ _).bind fun _ => Run.keeps_pure _
  · split
    · exact Run.keeps_throw _
    · next h hh => exact (keeps_visit hv (hc _ h hh) _).bind fun _ => Run.keeps_pure _

end Calls

end Engine

theorem Scope.keeps_config_exec {body : Run η (Text × List Answer)} {s : Scope}
    (hb : s = .profile → body.Keeps (·.config)) : (s.exec body).Keeps (·.config) := by
  cases s with
  | config c raises =>
    apply (Run.keeps_config_withConfig c body).bind
    rintro ⟨_, answers⟩
    exact Run.keeps_get.bind fun _ => Run.keeps_pure _
  | profile => exact (hb rfl).config_withProfile.bind fun _ => Run.keeps_pure _
  | thread => exact (Run.keeps_config_withThread body).bind fun _ => Run.keeps_pure _

theorem Step.keeps_config_exec {s : Step η} (hs : s.Confined direct)
    (hd : direct → ∀ h c n, (call h c n).Keeps (·.config)) : (s.exec call).Keeps (·.config) := by
  cases s with
  | render on content =>
    exact (Run.keeps_find State.engine? on).bind fun e => (e.keeps_config_render call content).map _
  | strip on content =>
    exact (Run.keeps_find State.engine? on).bind fun e => (e.keeps_config_strip content).map _
  | dispatch on p taken =>
    exact (Run.keeps_find State.engine? on).bind fun _ =>
      (Run.keeps_find State.handlers? taken).bind fun handlers =>
        (Engine.keeps_dispatch (fun _ _ _ => rfl) (fun _ h _ => hd hs h.handler) p).bind fun _ =>
          Run.keeps_pure _
  | setConfig c => exact hs.elim
  | resetConfig => exact hs.elim
  | _ => exact Step.keeps_exec trivial fun _ _ _ _ => rfl

theorem Program.keeps_config_exec {p : Program η} (hp : p.Confined direct)
    (hd : direct → ∀ h c n, (call h c n).Keeps (·.config)) : (p.exec call).Keeps (·.config) := by
  induction p with
  | done out notes => exact Run.keeps_pure _
  | raise f => exact Run.keeps_throw _
  | step s next ih =>
    exact (Step.keeps_config_exec hp.1 hd).answer.bind fun a => ih a (hp.2 a)
  | «scoped» s body next ihb ih =>
    -- only of the body of a profile something is known, and only there it is needed
    cases s with
    | config c raises =>
      have hs : ((Scope.config c raises).exec (body.exec call)).Keeps (·.config) := by
        apply Scope.keeps_config_exec
        rintro ⟨⟩
      exact hs.answer.bind fun a => ih a (hp a)
    | profile =>
      exact (Scope.keeps_config_exec fun _ => ihb hp.1).answer.bind fun a => ih a (hp.2 a)
    | thread =>
      have hs : (Scope.thread.exec (body.exec call)).Keeps (·.config) := by
        apply Scope.keeps_config_exec
        rintro ⟨⟩
      exact hs.answer.bind fun a => ih a (hp a)

/-- By induction on the nesting, since a handler that is called directly runs one level deeper. -/
theorem keeps_config_invoke (hd : direct → ∀ h c n, (behave h c n).Confined direct) (depth : Nat)
    {h : η} {c : Call} {n : Nat} (hc : (behave h c n).Confined direct) :
    (invoke behave depth h c n).Keeps (·.config) := by
  induction depth generalizing h c n with
  | zero => exact Run.keeps_endless
  | succ depth ih => exact Program.keeps_config_exec hc fun hx h c n => ih (hd hx h c n)

namespace Engine

theorem Handled.config_eq {handlers : Registry (Registered η)} {m : TagMatch} {s t : State η}
    {out : Text} (h : Handled call handlers m s out t)
    (hc : ∀ tag h, handlers.get? tag = some h → ∀ c n, (call h.handler c n).Keeps (·.config)) :
    t.config = s.config :=
  keeps_dispatch (fun _ _ _ => rfl) hc m.toTagParts s _ t (dispatch_of_handled h)

theorem config_eq_of_each {handlers : Registry (Registered η)} {ms : List TagMatch}
    {s t : State η} {outs : List Text} (h : Run.Each (Handled call handlers) ms s outs t)
    (hc : ∀ tag h, handlers.get? tag = some h → ∀ c n, (call h.handler c n).Keeps (·.config)) :
    t.config = s.config := by
  induction h with
  | nil => rfl
  | cons h _ ih => exact ih.trans (h.config_eq hc)

theorem Reaches.config_eq {e : Engine} {content : Text} {s t : State η} {m : TagMatch}
    (h : Reaches call e content s m t) (hc : ∀ tag h, (s.registry e.registry).get? tag = some h →
      ∀ c n, (call h.handler c n).Keeps (·.config)) : t.config = e.config := by
  obtain ⟨before, after, outs, -, he⟩ := h
  exact config_eq_of_each he hc

/-- Two callers do the same wherever a configuration is in force and the attributes of a match are
read under it. -/
def AgreeUnder (c : Config) (call call' : Caller η) : Prop :=
  ∀ h (m : TagMatch) n s, s.config = c →
    call' h ⟨.parse c m.rawAttributes, m.content, m.tag⟩ n s =
      call h ⟨.parse c m.rawAttributes, m.content, m.tag⟩ n s

/-- A match is dispatched while a configuration is in force, and a text takes its place. -/
def DispatchedUnder (c : Config) (call : Caller η) (handlers : Registry (Registered η))
    (m : TagMatch) (s : State η) (out : Text) (t : State η) : Prop :=
  s.config = c ∧ dispatch call handlers m.toTagParts s = some (.ok out, t)

/-- What a rendering does if one configuration is in force at every match. Without handlers it does
nothing. Else it dispatches the matches in order and puts the texts in their places, or stops at the
first match whose dispatch gives no text. -/
inductive RendersUnder (c : Config) (call : Caller η) (e : Engine) (content : Text) (s : State η) :
    Option (Except Fault Text × State η) → Prop
  | idle (hn : (s.registry e.registry).names = []) :
      RendersUnder c call e content s (some (.ok content, s))
  | done {outs : List Text} {t : State η} (hn : (s.registry e.registry).names ≠ [])
      (he : Run.Each (DispatchedUnder c call (s.registry e.registry))
        (scan (s.registry e.registry).names content) (entered e content s) outs t) :
      RendersUnder c call e content s (some (.ok (interleave
        (gaps content 0 (scan (s.registry e.registry).names content)) outs),
        { t with config := s.config }))
  | stopped {before after : List TagMatch} {m : TagMatch} {outs : List Text} {t : State η}
      {o : Option (Except Fault Text × State η)} (hn : (s.registry e.registry).names ≠ [])
      (hm : scan (s.registry e.registry).names content = before ++ m :: after)
      (he : Run.Each (DispatchedUnder c call (s.registry e.registry)) before
        (entered e content s) outs t)
      (hc : t.config = c) (hd : dispatch call (s.registry e.registry) m.toTagParts t = o)
      (ho : ∀ out u, o ≠ some (.ok out, u)) :
      RendersUnder c call e content s (o.map fun r => (r.1, { r.2 with config := s.config }))

section Confined
variable {e : Engine} {content : Text} {s : State η}
  (hc : ∀ tag h, (s.registry e.registry).get? tag = some h →
    ∀ c n, (call h.handler c n).Keeps (·.config))
include hc

/-- Handlers that keep the configuration begin under that of the engine, so it does not matter what
they would do under another one. -/
theorem render_eq_of_agreeUnder {call' : Caller η} (h : AgreeUnder e.config call call') :
    render call' e content s = render call e content s := by
  apply render_congr
  rintro m t o hr ⟨hs, r, hg, rfl⟩
  have ht : t.config = e.config := hr.config_eq hc
  refine ⟨hs, r, hg, ?_⟩
  rw [callFor, ht]
  exact h r.handler m _ _ ht

/-- Every match is dispatched under the configuration of the engine. -/
theorem rendersUnder_render :
    RendersUnder e.config call e content s (render call e content s) := by
  have hr : ∀ m t, Reaches call e content s m t → t.config = e.config := fun m t h =>
    h.config_eq hc
  have hd : ∀ m t out u, Reaches call e content s m t →
      Handled call (s.registry e.registry) m t out u →
        DispatchedUnder e.config call (s.registry e.registry) m t out u := fun m t out u h hh =>
    ⟨hr m t h, dispatch_of_handled hh⟩
  obtain ⟨o, ho⟩ := exists_renders call e content s
  rw [ho.eq]
  cases ho with
  | idle hn => exact RendersUnder.idle hn
  | done hn he => exact RendersUnder.done hn (each_of_reaches (List.append_nil _).symm he hd)
  | raised hn hm he hf =>
    refine RendersUnder.stopped hn hm (each_of_reaches hm he hd) (hr _ _ ⟨_, _, _, hm, he⟩)
      (dispatch_of_calls hf) ?_
    rintro out u ⟨⟩
  | endless hn hm he hf =>
    refine RendersUnder.stopped hn hm (each_of_reaches hm he hd) (hr _ _ ⟨_, _, _, hm, he⟩)
      (dispatch_of_calls hf) ?_
    rintro out u ⟨⟩

end Confined

/-- Renderings, strippings, blocks and threads leave the configuration as they found it, and profiles
and threads the profile. A rendering whose handlers are confined to such scopes dispatches every match
under the configuration of its engine, and what the handlers would do under another one makes no
difference to it. -/
theorem config_scoped (call : Caller η) (behave : η → Call → Nat → Program η) (depth : Nat) :
    (∀ e content, (render call e content).Keeps (·.config)) ∧
    (∀ e content, (strip e content : Run η Text).Keeps (·.config)) ∧
    (∀ c raises (body : Program η),
      ((Scope.config c raises).exec (body.exec call)).Keeps (·.config)) ∧
    (∀ body : Program η,
      (Scope.thread.exec (body.exec call)).Keeps fun s => (s.config, s.profile)) ∧
    (∀ body : Program η, (Scope.profile.exec (body.exec call)).Keeps (·.profile)) ∧
    ∀ direct, (direct → ∀ h c n, (behave h c n).Confined direct) → ∀ e content s,
      (∀ tag h, (s.registry e.registry).get? tag = some h →
        ∀ c n, (behave h.handler c n).Confined direct) →
      RendersUnder e.config (invoke behave depth) e content s
        (render (invoke behave depth) e content s) ∧
      ∀ call', AgreeUnder e.config (invoke behave depth) call' →
        render call' e content s = render (invoke behave depth) e content s := by
  refine ⟨keeps_config_render call, keeps_config_strip, ?_, ?_, ?_, ?_⟩
  · intro c raises body
    apply Scope.keeps_config_exec
    rintro ⟨⟩
  · intro body
    have hk : (Run.withThread (body.exec call)).Keeps fun s => (s.config, s.profile) :=
      Run.keeps_bracket fun _ _ => rfl
    exact hk.bind fun _ => Run.keeps_pure _
  · intro body
    exact (Run.keeps_profile_withProfile (body.exec call)).bind fun _ => Run.keeps_pure _
  · intro direct hd e content s hc
    have hk : ∀ tag h, (s.registry e.registry).get? tag = some h →
        ∀ c n, (invoke behave depth h.handler c n).Keeps (·.config) := fun tag h hg c n =>
      keeps_config_invoke hd depth (hc tag h hg c n)
    exact ⟨rendersUnder_render hk, fun call' => render_eq_of_agreeUnder hk⟩

/-- One handler changes the configuration in a block that it leaves by an error, and renders a text
with another engine; the other one fails. -/
def restless : Bool → Call → Nat → Program Bool
  | true, _, _ =>
    .scoped (.config ⟨.null, .null⟩ true) (.step (.setConfig .default) fun _ => .done [] [])
      fun _ => .step (.render ['i'] ['[', 'b', ']']) fun _ => .done ['x'] []
  | false, _, _ => .raise .noTags

/-- An engine for each of the two handlers. -/
def twoEngines : State Bool where
  registries := [Registry.empty.add ['a'] (some ⟨⟨[], true⟩, 0⟩),
    Registry.empty.add ['b'] (some ⟨⟨[], false⟩, 1⟩)]
  items := OrderedMap.empty.insert ['i'] (.engine ⟨.default, 1⟩)

/-- Both matches are dispatched under the configuration of the engine, so it is no matter that the
handlers have no end where escaping is on. -/
theorem config_scoped_second : ∃ t,
    render (fun h c n s => if s.config.escapes then none else invoke restless 2 h c n s)
      ⟨⟨.bool false, .bool true⟩, 0⟩ ['[', 'a', ']', '-', '[', 'a', ']'] twoEngines =
        some (.ok ['x', '-', 'x'], t) ∧
    RendersUnder ⟨.bool false, .bool true⟩ (invoke restless 2) ⟨⟨.bool false, .bool true⟩, 0⟩
      ['[', 'a', ']', '-', '[', 'a', ']'] twoEngines (some (.ok ['x', '-', 'x'], t)) := by
  have hd : ∀ h c n, (restless h c n).Confined False := by
    rintro (_ | _) c n
    · trivial
    · exact fun _ => ⟨trivial, fun _ => trivial⟩
  have hr : ∃ t, render (invoke restless 2) ⟨⟨.bool false, .bool true⟩, 0⟩
      ['[', 'a', ']', '-', '[', 'a', ']'] twoEngines = some (.ok ['x', '-', 'x'], t) := ⟨_, rfl⟩
  obtain ⟨t, ht⟩ := hr
  obtain ⟨-, -, -, -, -, h⟩ := config_scoped (invoke restless 2) restless 2
  obtain ⟨hunder, hagree⟩ := h False False.elim ⟨⟨.bool false, .bool true⟩, 0⟩
    ['[', 'a', ']', '-', '[', 'a', ']'] twoEngines fun _ h _ => hd h.handler
  rw [ht] at hunder hagree
  refine ⟨t, hagree _ ?_, hunder⟩
  intro h m n s hs
  have hoff : ¬ s.config.escapes = true := by simp [hs, Config.escapes, Value.isOn]
  exact if_neg hoff

end Engine
end Shortcode
