import Shortcode.Engine
import Shortcode.OrderedMap.Lemmas
import Shortcode.Proofs.Scan.Coverage
import Shortcode.Proofs.Session.Run

/-! What a rendering does: it handles the matches one after another, with the handlers that were
registered on entry, and ends with the text or with the fault of a handler. -/
namespace Shortcode.Engine
open Scan
variable {η : Type} {call : Caller η} {handlers : Registry (Registered η)} {m : TagMatch}
  {ms : List TagMatch} {out content : Text} {outs : List Text} {s t u v : State η} {e : Engine}
  {f : Fault} {o : Option (Except Fault Text × State η)}

/-- A match is left standing: it is escaped, and escaping is on at that moment. -/
def Spares (m : TagMatch) (s : State η) : Prop := m.isEscaped = true ∧ s.config.escapes = true

/-- What a handler is told of a match. -/
def callFor (m : TagMatch) (s : State η) : Call :=
  ⟨.parse s.config m.rawAttributes, m.content, m.tag⟩

/-- The state in which a handler begins: the call is on the trail and counted. -/
def begun (h : Registered η) (c : Call) (s : State η) : State η :=
  { s with
    trail := s.trail ++ [.called ⟨h.object, h.handler, c, []⟩]
    profile := s.profile.map (·.recordMatch false true) }

/-- The one call for a match that is not left standing, and how it ends: it is a call of the handler
that was registered for the tag on entry. -/
def Calls (call : Caller η) (handlers : Registry (Registered η)) (m : TagMatch) (s : State η)
    (o : Option (Except Fault (Text × List Answer) × State η)) : Prop :=
  ¬ Spares m s ∧ ∃ h, handlers.get? m.tag = some h ∧
    call h.handler (callFor m s) ((begun h (callFor m s) s).callCount h.object)
      (begun h (callFor m s) s) = o

/-- A match is handled, and a text takes its place. -/
inductive Handled (call : Caller η) (handlers : Registry (Registered η)) (m : TagMatch)
    (s : State η) : Text → State η → Prop
  | spared (h : Spares m s) : Handled call handlers m s m.text.tail.dropLast
      { s with
        trail := s.trail ++ [.spared], profile := s.profile.map (·.recordMatch true false) }
  | called {out : Text} {notes : List Answer} {t : State η}
      (h : Calls call handlers m s (some (.ok (out, notes), t))) :
      Handled call handlers m s (m.leading ++ out ++ m.trailing)
        { t with trail := t.trail.modify s.trail.length (·.note notes) }

/-- The state in which the first match is handled. -/
def entered (e : Engine) (content : Text) (s : State η) : State η :=
  { s with
    trail := s.trail ++ [.rendered content.length]
    profile := s.profile.map (·.recordRender content.length)
    config := e.config }

/-- What a rendering does. Without handlers it does nothing. Else it handles the matches in order
and puts the texts in their places, or stops at the first match whose call fails or has no end. -/
inductive Renders (call : Caller η) (e : Engine) (content : Text) (s : State η) :
    Option (Except Fault Text × State η) → Prop
  | idle (hn : (s.registry e.registry).names = []) :
      Renders call e content s (some (.ok content, s))
  | done {outs : List Text} {t : State η} (hn : (s.registry e.registry).names ≠ [])
      (he : Run.Each (Handled call (s.registry e.registry))
        (scan (s.registry e.registry).names content) (entered e content s) outs t) :
      Renders call e content s (some (.ok (interleave
        (gaps content 0 (scan (s.registry e.registry).names content)) outs),
        { t with config := s.config }))
  | raised {before after : List TagMatch} {m : TagMatch} {outs : List Text} {f : Fault}
      {t u : State η} (hn : (s.registry e.registry).names ≠ [])
      (hm : scan (s.registry e.registry).names content = before ++ m :: after)
      (he : Run.Each (Handled call (s.registry e.registry)) before (entered e content s) outs t)
      (hc : Calls call (s.registry e.registry) m t (some (.error f, u))) :
      Renders call e content s (some (.error f, { u with config := s.config }))
  | endless {before after : List TagMatch} {m : TagMatch} {outs : List Text} {t : State η}
      (hn : (s.registry e.registry).names ≠ [])
      (hm : scan (s.registry e.registry).names content = before ++ m :: after)
      (he : Run.Each (Handled call (s.registry e.registry)) before (entered e content s) outs t)
      (hc : Calls call (s.registry e.registry) m t none) : Renders call e content s none

/-- A rendering comes to a match in a state: the matches in front of it have been handled. -/
def Reaches (call : Caller η) (e : Engine) (content : Text) (s : State η) (m : TagMatch)
    (t : State η) : Prop :=
  ∃ before after outs, scan (s.registry e.registry).names content = before ++ m :: after ∧
    Run.Each (Handled call (s.registry e.registry)) before (entered e content s) outs t

theorem dispatch_of_spares (h : Spares m s) : dispatch call handlers m.toTagParts s =
    some (.ok (Text.inner m.text), { s with
      trail := s.trail ++ [.spared], profile := s.profile.map (·.recordMatch true false) }) := by
  obtain ⟨he, hc⟩ := h
  rw [dispatch, Run.bind_apply, Run.get_apply]
  simp only [Option.bind_some, he, hc, Bool.and_self, if_true]
  rfl

/-- A visit is one call, and ends as the call does. -/
theorem visit_apply (call : Caller η) (h : Registered η) (c : Call) (s : State η) :
    visit call h c s =
      (call h.handler c ((begun h c s).callCount h.object) (begun h c s)).map fun
        | (.ok (out, notes), t) =>
          (.ok out, { t with trail := t.trail.modify s.trail.length (·.note notes) })
        | (.error f, t) => (.error f, t) := by
  show (call h.handler c ((begun h c s).callCount h.object) >>= _) (begun h c s) = _
  rw [Run.bind_apply]
  cases call h.handler c ((begun h c s).callCount h.object) (begun h c s) with
  | none => rfl
  | some r =>
    obtain ⟨_ | ⟨out, notes⟩, t⟩ := r <;> rfl

theorem dispatch_of_calls {o : Option (Except Fault (Text × List Answer) × State η)}
    (h : Calls call handlers m s o) : dispatch call handlers m.toTagParts s = o.map fun
      | (.ok (out, notes), t) => (.ok (m.leading ++ out ++ m.trailing),
          { t with trail := t.trail.modify s.trail.length (·.note notes) })
      | (.error f, t) => (.error f, t) := by
  obtain ⟨hs, h, hg, rfl⟩ := h
  have hn : (m.isEscaped && s.config.escapes) = false := by
    rw [Bool.eq_false_iff]
    intro hb
    exact hs (Bool.and_eq_true_iff.mp hb)
  rw [dispatch, Run.bind_apply, Run.get_apply]
  simp only [Option.bind_some, hn, Bool.false_eq_true, if_false, hg]
  show (visit call h (callFor m s) >>= _) s = _
  rw [Run.bind_apply, visit_apply]
  cases call h.handler (callFor m s) ((begun h (callFor m s) s).callCount h.object)
    (begun h (callFor m s) s) with
  | none => rfl
  | some r =>
    obtain ⟨_ | ⟨out, notes⟩, t⟩ := r <;> rfl

theorem dispatch_of_handled (h : Handled call handlers m s out t) :
    dispatch call handlers m.toTagParts s = some (.ok out, t) := by
  cases h with
  | spared h => exact dispatch_of_spares h
  | called h => exact dispatch_of_calls h

/-- A match whose tag has a handler is handled, or its call fails or has no end. -/
theorem handled_or_calls (call : Caller η) (hm : m.tag ∈ handlers.names) (s : State η) :
    (∃ out t, Handled call handlers m s out t) ∨
      (∃ f t, Calls call handlers m s (some (.error f, t))) ∨ Calls call handlers m s none := by
  by_cases hs : Spares m s
  · exact Or.inl ⟨_, _, Handled.spared hs⟩
  · cases hg : handlers.get? m.tag with
    | none => exact (OrderedMap.get?_eq_none_iff.mp hg hm).elim
    | some h =>
      cases ho : call h.handler (callFor m s) ((begun h (callFor m s) s).callCount h.object)
          (begun h (callFor m s) s) with
      | none => exact Or.inr (Or.inr ⟨hs, h, hg, ho⟩)
      | some r =>
        obtain ⟨f | ⟨out, notes⟩, t⟩ := r
        · exact Or.inr (Or.inl ⟨f, t, hs, h, hg, ho⟩)
        · exact Or.inl ⟨_, _, Handled.called ⟨hs, h, hg, ho⟩⟩

/-- Of matches whose tags have handlers all are handled, or there is a first one whose call fails or
has no end. -/
theorem each_handled_or_calls (call : Caller η) (hm : ∀ m ∈ ms, m.tag ∈ handlers.names)
    (s : State η) :
    (∃ outs t, Run.Each (Handled call handlers) ms s outs t) ∨
      ∃ before m after outs t, ms = before ++ m :: after ∧
        Run.Each (Handled call handlers) before s outs t ∧
        ((∃ f u, Calls call handlers m t (some (.error f, u))) ∨ Calls call handlers m t none) := by
  induction ms generalizing s with
  | nil => exact Or.inl ⟨[], s, Run.Each.nil⟩
  | cons m ms ih =>
    rcases handled_or_calls call (hm m List.mem_cons_self) s with ⟨out, t, h⟩ | hc
    · have hms : ∀ m' ∈ ms, m'.tag ∈ handlers.names := by
        intro m' h'
        exact hm m' (List.mem_cons_of_mem m h')
      rcases ih hms t with ⟨outs, u, he⟩ | ⟨before, m', after, outs, u, rfl, he, hc⟩
      · exact Or.inl ⟨out :: outs, u, Run.Each.cons h he⟩
      · exact Or.inr ⟨m :: before, m', after, out :: outs, u, rfl, Run.Each.cons h he, hc⟩
    · exact Or.inr ⟨[], m, ms, [], s, rfl, Run.Each.nil, hc⟩

/-- The text for one match, with the match. -/
def replacement (call : Caller η) (handlers : Registry (Registered η)) (m : TagMatch) :
    Run η (TagMatch × Text) :=
  return (m, ← dispatch call handlers m.toTagParts)

theorem replacement_apply (call : Caller η) (handlers : Registry (Registered η)) (m : TagMatch)
    (s : State η) : replacement call handlers m s =
      (dispatch call handlers m.toTagParts s).map fun r => (r.1.map fun out => (m, out), r.2) := by
  rw [replacement, Run.bind_apply]
  cases dispatch call handlers m.toTagParts s with
  | none => rfl
  | some r =>
    obtain ⟨_ | _, _⟩ := r <;> rfl

theorem replacement_of_handled (m : TagMatch) (s : State η) (p : TagMatch × Text) (t : State η)
    (h : p.1 = m ∧ Handled call handlers m s p.2 t) :
    replacement call handlers m s = some (.ok p, t) := by
  obtain ⟨rfl, h⟩ := h
  rw [replacement_apply, dispatch_of_handled h]
  rfl

theorem render_of_names (hn : (s.registry e.registry).names ≠ []) :
    render call e content s =
      ((((scan (s.registry e.registry).names content).mapM
        (replacement call (s.registry e.registry))) >>= fun replaced =>
          pure (splice content replaced) : Run η Text) (entered e content s)).map fun r =>
            (r.1, { r.2 with config := s.config }) := by
  have hb : (s.registry e.registry).names.isEmpty = false := by simpa using hn
  rw [render, Run.bind_apply, Run.get_apply]
  simp only [Option.bind_some, hb, Bool.false_eq_true, if_false]
  rfl

theorem Renders.eq (h : Renders call e content s o) : render call e content s = o := by
  cases h with
  | idle hn =>
    rw [render, Run.bind_apply, Run.get_apply]
    simp only [Option.bind_some, hn, List.isEmpty_nil, if_true]
    rfl
  | done hn he =>
    have hr := Run.mapM_of_each replacement_of_handled he.zip
    have hs := splice_eq_interleave (inOrder_scan _ content) _ he.length_eq
    rw [render_of_names hn, Run.bind_apply, hr, ← hs]
    rfl
  | @raised before after m outs f t u hn hm he hc =>
    have hx : replacement call (s.registry e.registry) m t = some (.error f, u) := by
      rw [replacement_apply, dispatch_of_calls hc]
      rfl
    rw [render_of_names hn, hm, Run.bind_apply,
      Run.mapM_of_each_error replacement_of_handled he.zip hx]
    rfl
  | @endless before after m outs t hn hm he hc =>
    have hx : replacement call (s.registry e.registry) m t = none := by
      rw [replacement_apply, dispatch_of_calls hc]
      rfl
    rw [render_of_names hn, hm, Run.bind_apply,
      Run.mapM_of_each_none replacement_of_handled he.zip hx]
    rfl

/-- A rendering always goes on to one of its ends. -/
theorem exists_renders (call : Caller η) (e : Engine) (content : Text) (s : State η) :
    ∃ o, Renders call e content s o := by
  by_cases hn : (s.registry e.registry).names = []
  · exact ⟨_, Renders.idle hn⟩
  · have hm : ∀ m ∈ scan (s.registry e.registry).names content,
        m.tag ∈ (s.registry e.registry).names := fun m h => tag_mem_of_mem_scan h
    rcases each_handled_or_calls call hm (entered e content s) with
      ⟨outs, t, he⟩ | ⟨before, m, after, outs, t, hm, he, ⟨f, u, hc⟩ | hc⟩
    · exact ⟨_, Renders.done hn he⟩
    · exact ⟨_, Renders.raised hn hm he hc⟩
    · exact ⟨_, Renders.endless hn hm he hc⟩

/-- What holds wherever a match is handled that the rendering comes to, holds at every match that it
has handled. -/
theorem each_of_reaches {R : TagMatch → State η → Text → State η → Prop}
    {before rest : List TagMatch}
    (hm : scan (s.registry e.registry).names content = before ++ rest)
    (he : Run.Each (Handled call (s.registry e.registry)) before (entered e content s) outs t)
    (hr : ∀ m t out u, Reaches call e content s m t →
      Handled call (s.registry e.registry) m t out u → R m t out u) :
    Run.Each R before (entered e content s) outs t := by
  apply he.imp_of_prefix
  rintro front m back outs u out v rfl hf hd
  exact hr m u out v ⟨front, back ++ rest, outs, by simp [hm], hf⟩ hd

/-- A rendering depends on its caller only through the calls for the matches that it comes to. -/
theorem render_congr {call' : Caller η}
    (h : ∀ m t o, Reaches call e content s m t → Calls call (s.registry e.registry) m t o →
      Calls call' (s.registry e.registry) m t o) :
    render call' e content s = render call e content s := by
  have hh : ∀ m t out u, Reaches call e content s m t →
      Handled call (s.registry e.registry) m t out u →
        Handled call' (s.registry e.registry) m t out u := by
    rintro m t out u hr (hs | hc)
    · exact Handled.spared hs
    · exact Handled.called (h m t _ hr hc)
  obtain ⟨o, ho⟩ := exists_renders call e content s
  rw [ho.eq]
  apply Renders.eq
  cases ho with
  | idle hn => exact Renders.idle hn
  | done hn he => exact Renders.done hn (each_of_reaches (List.append_nil _).symm he hh)
  | raised hn hm he hc =>
    exact Renders.raised hn hm (each_of_reaches hm he hh) (h _ _ _ ⟨_, _, _, hm, he⟩ hc)
  | endless hn hm he hc =>
    exact Renders.endless hn hm (each_of_reaches hm he hh) (h _ _ _ ⟨_, _, _, hm, he⟩ hc)

/-- If all matches are handled the rendering ends with their texts in the gaps. -/
theorem exists_render_of_each (he : Run.Each (Handled call (s.registry e.registry))
      (scan (s.registry e.registry).names content) (entered e content s) outs t) :
    ∃ u, render call e content s = some (.ok (interleave
        (gaps content 0 (scan (s.registry e.registry).names content)) outs), u) ∧
      (u = s ∨ u = { t with config := s.config }) := by
  by_cases hn : (s.registry e.registry).names = []
  · have hs : scan (s.registry e.registry).names content = [] := by
      apply List.eq_nil_iff_forall_not_mem.mpr
      intro m hm
      have ht := tag_mem_of_mem_scan hm
      simp [hn] at ht
    rw [hs] at he ⊢
    cases he
    refine ⟨s, ?_, Or.inl rfl⟩
    rw [(Renders.idle hn).eq]
    simp [gaps, interleave]
  · exact ⟨_, (Renders.done hn he).eq, Or.inr rfl⟩

/-- A rendering ends exactly as the calls for its matches let it, whatever the handlers do to the
state, and a fault of it is the fault of one of these calls. -/
theorem render_eq_iff_renders (call : Caller η) (e : Engine) (content : Text) (s : State η) :
    (∀ o, render call e content s = o ↔ Renders call e content s o) ∧
      ∀ f t, render call e content s = some (.error f, t) →
        ∃ m ∈ scan (s.registry e.registry).names content, ∃ u v,
          Calls call (s.registry e.registry) m u (some (.error f, v)) := by
  have hiff : ∀ o, render call e content s = o ↔ Renders call e content s o := by
    intro o
    constructor
    · rintro rfl
      obtain ⟨o, h⟩ := exists_renders call e content s
      rw [h.eq]
      exact h
    · exact Renders.eq
  refine ⟨hiff, ?_⟩
  intro f t h
  cases (hiff _).mp h with
  | @raised before after m outs f t u _ hm _ hc => exact ⟨m, by simp [hm], t, u, hc⟩

end Shortcode.Engine
