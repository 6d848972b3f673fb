import Shortcode.Proofs.Scan.Brackets
import Shortcode.Proofs.Session.Settled

/-! Handlers may have rendered what their tag encloses. Then each rendering is of a shorter text than the
one around it, so the nesting comes to an end, and every call has an opening bracket of its own in the
text at the outset. -/
namespace Shortcode
open Run Scan
variable {η : Type} {call : Nat → Caller η} {k n : Nat} {s : State η} {e : Engine}
  {handlers : Registry (Registered η)} {content : Text}

theorem State.length_visits_note (s : State η) (place : Nat) (notes : List Answer) :
    ({ s with trail := s.trail.modify place (·.note notes) } : State η).visits.length =
      s.visits.length := by
  have hl : ∀ (l : List (Activity η)) (i : Nat), ((l.modify i (·.note notes)).filterMap
      Activity.visit?).length = (l.filterMap Activity.visit?).length := by
    intro l
    induction l with
    | nil => simp
    | cons a l ih =>
      rintro (_ | i)
      · cases a <;> simp [Activity.note, Activity.visit?, List.filterMap_cons]
      · cases a <;> simp [Activity.visit?, List.filterMap_cons, ih]
  exact hl s.trail place

namespace Engine

theorem settles_visit {h : Registered η} {c : Call}
    (hc : ∀ i s, Settles (fun depth => call depth h.handler c i) k s n) :
    Settles (fun depth => visit (call depth) h c) k s (n + 1) := by
  obtain ⟨r, t, ht, hn⟩ := hc ((begun h c s).callCount h.object) (begun h c s)
  have hb : (begun h c s).visits.length = s.visits.length + 1 := by
    simp [begun, State.visits, Activity.visit?]
  obtain f | ⟨out, notes⟩ := r
  · refine ⟨.error f, t, fun depth hd => ?_, by omega⟩
    exact (visit_apply _ h c s).trans (congrArg (Option.map _) (ht depth hd))
  · refine ⟨.ok out, { t with trail := t.trail.modify s.trail.length (·.note notes) },
      fun depth hd => ?_, ?_⟩
    · exact (visit_apply _ h c s).trans (congrArg (Option.map _) (ht depth hd))
    · rw [State.length_visits_note]
      omega

theorem settles_dispatch {p : TagParts}
    (hc : ∀ h c i s, c.content = p.content → Settles (fun depth => call depth h c i) k s n) :
    Settles (fun depth => dispatch (call depth) handlers p) k s (n + 1) := by
  have hrecord : (record .spared (·.recordMatch true false) : Run η Unit).Keeps (·.visits) := by
    apply keeps_modify
    intro s
    simp [State.visits, Activity.visit?]
  by_cases he : (p.isEscaped && s.config.escapes) = true
  · refine (settles_of_keeps (hrecord.bind fun _ => keeps_pure (Text.inner p.text)) ?_).congr ?_
    · exact Option.some_ne_none _
    · intro depth
      rw [dispatch, bind_apply, get_apply, Option.bind_some]
      dsimp only
      rw [if_pos he]
  · cases hg : handlers.get? p.tag with
    | none =>
      refine (settles_throw (.unregistered p.tag none)).congr fun depth => ?_
      rw [dispatch, bind_apply, get_apply, Option.bind_some]
      dsimp only
      rw [if_neg he, hg]
    | some h =>
      have hv := settles_visit (s := s) (h := h) (c := ⟨.parse s.config p.rawAttributes, p.content,
        p.tag⟩) fun i s => hc h.handler _ i s rfl
      refine ((hv.bind (m := 0) fun out t _ =>
        settles_pure (p.leading ++ out ++ p.trailing)).congr fun depth => ?_)
      rw [dispatch, bind_apply, get_apply, Option.bind_some]
      dsimp only
      rw [if_neg he, hg]

theorem settles_replacement {m : TagMatch}
    (hc : ∀ h c i s, c.content = m.content → Settles (fun depth => call depth h c i) k s n) :
    Settles (fun depth => replacement (call depth) handlers m) k s (n + 1) :=
  (settles_dispatch hc).bind (m := 0) fun out _ _ => settles_pure (m, out)

/-- A rendering makes as many calls as its matches do; each has its own brackets for them. -/
theorem settles_render (hc : ∀ m ∈ scan (s.registry e.registry).names content, ∀ h c i s,
      c.content = m.content →
        Settles (fun depth => call depth h c i) k s ((m.content.getD []).count '[')) :
    Settles (fun depth => render (call depth) e content) k s (content.count '[') := by
  by_cases hn : (s.registry e.registry).names = []
  · have hidle : ∀ depth, render (call depth) e content s = (pure content : Run η Text) s := fun _ =>
      (Renders.idle hn).eq
    exact (settles_pure content).congr hidle
  · have hms : Settles (fun depth => (scan (s.registry e.registry).names content).mapM
        (replacement (call depth) (s.registry e.registry))) k (entered e content s)
        ((scan (s.registry e.registry).names content).map fun m => m.text.count '[').sum := by
      apply settles_mapM
      intro m hm u
      exact (settles_replacement (hc m hm)).mono (count_body_lt hm).1
    have hle := sum_count_text_le (s.registry e.registry).names content
    obtain ⟨r, t, ht, hcount⟩ := hms.bind (f := fun _ replaced => pure (splice content replaced))
      (m := 0) fun replaced t _ => settles_pure (splice content replaced)
    have hv : (entered e content s).visits = s.visits := by
      simp [entered, State.visits, Activity.visit?]
    rw [hv] at hcount
    refine ⟨r, { t with config := s.config }, fun depth hd => ?_, ?_⟩
    · dsimp only
      rw [render_of_names hn]
      exact congrArg _ (ht depth hd)
    · show t.visits.length ≤ _
      omega

theorem keeps_visits_strip (e : Engine) (content : Text) :
    (e.strip content : Run η Text).Keeps (·.visits) := by
  intro s r t h
  obtain ⟨u, hu, hr⟩ := e.strip_records content s
  obtain ⟨-, rfl⟩ := Prod.mk.inj (Option.some.inj (hu.symm.trans h))
  exact hr.visits_eq

end Engine

/-- A step that renders or strips a text with few brackets comes to an end. -/
theorem Step.settles_exec {st : Step η} (hr : ∀ e content s, content.count '[' ≤ k →
      Settles (fun depth => Engine.render (call depth) e content) k s (content.count '['))
    (hd : ¬ st.Dispatches) (ht : ∀ t ∈ st.texts, t.count '[' ≤ k) :
    Settles (fun depth => st.exec (call depth)) k s (st.texts.flatten.count '[') := by
  cases st with
  | render on content =>
    have hf := settles_of_keeps (k := k) (s := s) (n := 0) (keeps_find State.engine? on)
      (find_ne_none _ on)
    refine (hf.bind (f := fun depth e => Run.render (call depth) e content) fun e t _ =>
      (hr e content t (ht content (by simp [texts]))).map Answer.text).mono ?_
    simp [texts]
  | strip on content =>
    have hf := settles_of_keeps (k := k) (s := s) (n := 0) (keeps_find State.engine? on)
      (find_ne_none _ on)
    refine (hf.bind (f := fun _ e => Run.strip e content) fun e t _ =>
      (settles_of_keeps (n := 0) (e.keeps_visits_strip content) ?_).map Answer.text).mono
        (Nat.zero_le _)
    obtain ⟨u, hu⟩ := e.strip_apply content t
    rw [hu]
    exact Option.some_ne_none _
  | dispatch on p taken => exact (hd trivial).elim
  | _ =>
    exact (settles_of_keeps (Step.keeps_visits_exec rfl hd)
      (Step.exec_ne_none rfl hd)).congr (x := fun _ => Step.exec (call k) _) fun _ => rfl

/-- A scope comes to an end where its body does. -/
theorem Scope.settles_exec {body : Nat → Run η (Text × List Answer)} {c : Scope}
    (hb : Settles body k (c.entered s) n) : Settles (fun depth => c.exec (body depth)) k s n := by
  cases c with
  | config c raises =>
    have hx : Settles (fun depth => withConfig c (body depth)) k s n :=
      Settles.bracket hb rfl fun _ => rfl
    exact hx.bind (m := 0) (f := fun _ a => do
      pure (Answer.block a.2 raises (← get).config)) fun a t _ =>
        settles_of_keeps (keeps_get.bind fun _ => keeps_pure _) (Option.some_ne_none _)
  | profile =>
    have hx : Settles (fun depth => withProfile (body depth)) k s n := by
      refine Settles.bracket (hb.bind (m := 0) fun a t _ => ?_) ?_ fun t => ?_
      · exact settles_of_keeps (keeps_get.bind fun _ => keeps_pure _) (Option.some_ne_none _)
      · simp [State.visits, Activity.visit?]
      · simp [State.visits, Activity.visit?]
    exact hx.bind (m := 0) (f := fun _ a => pure (Answer.profile a.1.2 a.2)) fun a t _ =>
      settles_pure _
  | thread =>
    have hx : Settles (fun depth => withThread (body depth)) k s n := by
      refine Settles.bracket hb ?_ fun t => ?_
      · simp [State.visits, Activity.visit?]
      · simp [State.visits, Activity.visit?]
    exact hx.bind (m := 0) (f := fun _ a => pure (Answer.thread a.2)) fun a t _ => settles_pure _

/-- A program whose requests are of texts with few brackets comes to an end. It makes as many calls
at most as there are brackets in these texts. -/
theorem Program.settles_exec {p : Program η} (hr : ∀ e content s, content.count '[' ≤ k →
      Settles (fun depth => Engine.render (call depth) e content) k s (content.count '['))
    (hd : ∀ st ∈ p.requests (call k) s, ¬ st.Dispatches)
    (ht : ∀ t ∈ (p.requests (call k) s).flatMap Step.texts, t.count '[' ≤ k) :
    Settles (fun depth => p.exec (call depth)) k s
      (((p.requests (call k) s).flatMap Step.texts).flatten.count '[') := by
  induction p generalizing s with
  | done out notes => exact settles_pure (out, notes)
  | raise f => exact settles_throw f
  | step st next ih =>
    simp only [requests, List.forall_mem_cons, List.flatMap_cons, List.forall_mem_append,
      List.flatten_append, List.count_append] at hd ht ⊢
    refine (Step.settles_exec hr hd.1 ht.1).answer.bind fun a t ha => ?_
    rw [requestsAfter_eq ha] at hd ht ⊢
    exact ih a hd.2 ht.2
  | «scoped» c body next ihb ih =>
    simp only [requests, List.flatMap_append, List.forall_mem_append, List.flatten_append,
      List.count_append] at hd ht ⊢
    refine (Scope.settles_exec (ihb hd.1 ht.1)).answer.bind fun a t ha => ?_
    rw [requestsAfter_eq ha] at hd ht ⊢
    exact ih a hd.2 ht.2

/-- A step depends on its caller only through the rendering of its text. -/
theorem Step.exec_congr {call call' : Caller η} {st : Step η} (hd : ¬ st.Dispatches)
    (hr : ∀ t ∈ st.texts, ∀ e s, Engine.render call' e t s = Engine.render call e t s) :
    st.exec call' = st.exec call := by
  cases st with
  | render on content =>
    have hrender : ∀ e, Engine.render call' e content = Engine.render call e content := fun e =>
      funext (hr content (by simp [texts]) e)
    simp only [Step.exec, Run.render, hrender]
  | dispatch on p taken => exact (hd trivial).elim
  | _ => rfl

theorem Scope.exec_congr {body body' : Run η (Text × List Answer)} {c : Scope}
    (h : body' (c.entered s) = body (c.entered s)) : c.exec body' s = c.exec body s := by
  cases c with
  | config c raises =>
    have hx : withConfig c body' s = withConfig c body s := congrArg (Option.map _) h
    exact bind_apply_congr hx fun _ _ _ => rfl
  | profile =>
    have hx : withProfile body' s = withProfile body s :=
      congrArg (Option.map _) (bind_apply_congr h fun _ _ _ => rfl)
    exact bind_apply_congr hx fun _ _ _ => rfl
  | thread =>
    have hx : withThread body' s = withThread body s := congrArg (Option.map _) h
    exact bind_apply_congr hx fun _ _ _ => rfl

/-- A program depends on its caller only through the renderings of the texts that it asks for. -/
theorem Program.exec_congr {call call' : Caller η} {p : Program η}
    (hd : ∀ st ∈ p.requests call s, ¬ st.Dispatches)
    (hr : ∀ t ∈ (p.requests call s).flatMap Step.texts, ∀ e u,
      Engine.render call' e t u = Engine.render call e t u) :
    p.exec call' s = p.exec call s := by
  induction p generalizing s with
  | done out notes => rfl
  | raise f => rfl
  | step st next ih =>
    simp only [requests, List.forall_mem_cons, List.flatMap_cons, List.forall_mem_append] at hd hr
    refine bind_apply_congr (congrFun (congrArg answer (Step.exec_congr hd.1 hr.1)) s) ?_
    intro a t ha
    rw [requestsAfter_eq ha] at hd hr
    exact ih a hd.2 hr.2
  | «scoped» c body next ihb ih =>
    simp only [requests, List.flatMap_append, List.forall_mem_append] at hd hr
    have hs : answer (c.exec (body.exec call')) s = answer (c.exec (body.exec call)) s := by
      rw [answer_apply, answer_apply, Scope.exec_congr (ihb hd.1 hr.1)]
    refine bind_apply_congr hs ?_
    intro a t ha
    rw [requestsAfter_eq ha] at hd hr
    exact ih a hd.2 hr.2

/-- Every handler has at most one text rendered or stripped, and only what its tag encloses. It has no
match handled by itself. Nothing else that it does is restricted, and any engine may do it. -/
def Thrifty (behave : η → Call → Nat → Program η) : Prop :=
  ∀ depth h c n s,
    (((behave h c n).requests (invoke behave depth) s).flatMap Step.texts).Sublist [c.body] ∧
      ∀ st ∈ (behave h c n).requests (invoke behave depth) s, ¬ st.Dispatches

namespace Engine
variable {behave : η → Call → Nat → Program η}

/-- By induction on a bound for the brackets in the text: those in what a tag encloses are fewer. -/
theorem settles_render_of_thrifty (hb : Thrifty behave) (e : Engine) (content : Text) (s : State η)
    (hk : content.count '[' ≤ k) :
    Settles (fun depth => render (invoke behave depth) e content) k s (content.count '[') := by
  induction k generalizing e content s with
  | zero =>
    refine settles_render fun m hm => ?_
    have hlt := count_body_lt hm
    omega
  | succ k ih =>
    refine settles_render fun m hm h c i s hc => Settles.succ ?_
    have hbody : c.body.count '[' ≤ k := by
      have hlt := count_body_lt hm
      rw [Call.body, hc]
      omega
    obtain ⟨hone, hd⟩ := hb k h c i s
    have hx : Settles (fun depth => (behave h c i).exec (invoke behave depth)) k s _ :=
      Program.settles_exec ih hd fun t ht => by
        obtain rfl := List.mem_singleton.mp (hone.subset ht)
        exact hbody
    refine hx.mono ?_
    rw [← hc]
    rcases List.sublist_singleton.mp hone with h | h
    · simp [h]
    · simp [h, Call.body]

/-- The handler of a match asks for a text to be rendered or stripped. -/
inductive Nests (behave : η → Call → Nat → Program η) (depth : Nat) (e : Engine) (content : Text)
    (s : State η) (m : TagMatch) : Text → Prop
  | intro {t : State η} {h : Registered η} {body : Text}
      (hr : Reaches (invoke behave (depth + 1)) e content s m t) (hs : ¬ Spares m t)
      (hh : (s.registry e.registry).get? m.tag = some h)
      (hb : body ∈ ((behave h.handler (callFor m t)
        ((begun h (callFor m t) t).callCount h.object)).requests (invoke behave depth)
          (begun h (callFor m t) t)).flatMap Step.texts) :
      Nests behave depth e content s m body

theorem Nests.length_lt {depth : Nat} {m : TagMatch} {body : Text} (hb : Thrifty behave)
    (h : Nests behave depth e content s m body) :
    body.length < content.length ∧ (m.content ≠ none → body.length + 6 ≤ content.length) := by
  obtain ⟨⟨before, after, outs, hm, -⟩, -, -, hbody⟩ := h
  have hmem : m ∈ scan (s.registry e.registry).names content := by simp [hm]
  obtain rfl : body = m.content.getD [] :=
    List.mem_singleton.mp ((hb _ _ _ _ _).1.subset hbody)
  obtain ⟨hlt, hsix⟩ := length_body_lt hmem
  refine ⟨hlt, fun hc => ?_⟩
  obtain ⟨t, ht⟩ := Option.ne_none_iff_exists'.mp hc
  rw [ht, Option.getD_some]
  exact hsix t ht

/-- Inside a rendering only the texts that handlers ask for are rendered: what another caller would make
of any other text makes no difference to it. -/
theorem render_congr_of_nests {depth : Nat} {call' : Caller η} (hb : Thrifty behave)
    (h : ∀ m body, Nests behave depth e content s m body → ∀ e' u,
      render call' e' body u = render (invoke behave depth) e' body u) :
    render (fun h c n => (behave h c n).exec call') e content s =
      render (invoke behave (depth + 1)) e content s := by
  apply render_congr
  rintro m t o hr ⟨hs, r, hg, rfl⟩
  refine ⟨hs, r, hg, Program.exec_congr (hb _ _ _ _ _).2 ?_⟩
  intro body hbody
  exact h m body (Nests.intro hr hs hg hbody)

/-- Where every handler has at most what its tag encloses rendered or stripped, and that once, every
rendering ends: always in the same way when handlers may be nested as deep as there are opening
brackets in the text, and with no more calls in all than there are such brackets. Each text that a
handler asks for is shorter than the one its tag stands in, by six at least if the tag encloses it, and
the rendering makes use of the renderings of these texts alone. -/
theorem recursive_render_ends (hb : Thrifty behave) (e : Engine) (content : Text) (s : State η) :
    (∃ r t, (∀ depth, content.count '[' ≤ depth →
        render (invoke behave depth) e content s = some (r, t)) ∧
      t.visits.length ≤ s.visits.length + content.count '[') ∧
    (∀ depth m body, Nests behave depth e content s m body →
      body.length < content.length ∧ (m.content ≠ none → body.length + 6 ≤ content.length)) ∧
    ∀ depth (call' : Caller η), (∀ m body, Nests behave depth e content s m body → ∀ e' u,
        render call' e' body u = render (invoke behave depth) e' body u) →
      render (fun h c n => (behave h c n).exec call') e content s =
        render (invoke behave (depth + 1)) e content s :=
  ⟨settles_render_of_thrifty hb e content s (Nat.le_refl _), fun _ _ _ h => h.length_lt hb,
    fun _ _ => render_congr_of_nests hb⟩

/-- A card renders what it holds; an icon holds nothing. -/
def cardOrIcon : Bool → Call → Nat → Program Bool
  | true, c, _ => .step (.render ['i'] c.body) (.withText fun t => .done t [])
  | false, _, _ => .done ['x'] []

/-- One engine for both. -/
def cards : State Bool where
  registries := [(Registry.empty.add ['a'] (some ⟨⟨[], true⟩, 0⟩)).add ['b']
    (some ⟨⟨[], false⟩, 1⟩)]
  items := OrderedMap.empty.insert ['i'] (.engine ⟨.default, 0⟩)

theorem thrifty_cardOrIcon : Thrifty cardOrIcon := by
  rintro depth (_ | _) c n s
  · simp [cardOrIcon, Program.requests]
  · have hnext : ∀ a, ((Program.withText fun t => .done t []) a : Program Bool).requests
        (invoke cardOrIcon depth) = fun _ => [] := by
      intro a
      cases a <;> rfl
    simp [cardOrIcon, Program.requests, hnext, Step.texts, Step.Dispatches]

/-- An icon on a card. -/
theorem recursive_render_ends_card :
    (∃ r t, (∀ depth, 3 ≤ depth → render (invoke cardOrIcon depth) ⟨.default, 0⟩
        ['[', 'a', ']', '[', 'b', ']', '[', '/', 'a', ']'] cards = some (r, t)) ∧
      t.visits.length ≤ 3) ∧
    ∃ m, Nests cardOrIcon 1 ⟨.default, 0⟩ ['[', 'a', ']', '[', 'b', ']', '[', '/', 'a', ']'] cards m
      ['[', 'b', ']'] ∧ 3 < 10 ∧ (m.content ≠ none → 3 + 6 ≤ 10) := by
  obtain ⟨hends, hshort, -⟩ := recursive_render_ends thrifty_cardOrIcon ⟨.default, 0⟩
    ['[', 'a', ']', '[', 'b', ']', '[', '/', 'a', ']'] cards
  have hn : ∃ m, Nests cardOrIcon 1 ⟨.default, 0⟩
      ['[', 'a', ']', '[', 'b', ']', '[', '/', 'a', ']'] cards m ['[', 'b', ']'] :=
    ⟨_, .intro ⟨[], [], [], rfl, .nil⟩ (fun hs => Bool.false_ne_true hs.1) rfl (.head _)⟩
  obtain ⟨m, hm⟩ := hn
  exact ⟨hends, m, hm, hshort 1 m _ hm⟩

end Engine

end Shortcode
