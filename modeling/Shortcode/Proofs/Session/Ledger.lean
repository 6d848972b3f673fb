import Shortcode.Proofs.Session.Counting

/-! The counters of a profile are an exact ledger of the work done in its scope, at every point a run
comes to: between the steps of a program, between the matches of a rendering or a stripping, and inside
handlers, blocks, profiles and threads, nested however deep. -/
namespace Shortcode
open Counters

/-- A point of a run: the state, and the work done since the scope of the profile in force began. -/
structure Point (η : Type) where
  state : State η
  deeds : List Deed

variable {η α β : Type} {call : Caller η} {inner : Deeds η} {behave : η → Call → Nat → Program η}
  {depth : Nat} {p : Program η} {P Q : Point η}

namespace Point

/-- A profile begins. -/
def profiled (s : State η) : Point η :=
  ⟨{ s with profile := some .zero, trail := s.trail ++ [.opened] }, []⟩

/-- A rendering takes up its first match. -/
def rendering (P : Point η) (e : Engine) (content : Text) : Point η :=
  ⟨Engine.entered e content P.state, P.deeds ++ [.rendered content.length]⟩

/-- A stripping takes up its first match. -/
def stripping (P : Point η) (e : Engine) (content : Text) : Point η :=
  ⟨{ P.state with
      trail := P.state.trail ++ [.stripped content.length]
      profile := P.state.profile.map (·.recordStrip content.length)
      config := e.config },
    P.deeds ++ [.stripped content.length]⟩

/-- A handler begins. -/
def calling (P : Point η) (h : Registered η) (c : Call) : Point η :=
  ⟨Engine.begun h c P.state, P.deeds ++ [.called]⟩

/-- The profile in force, if there is one, shows exactly the work done in its scope. -/
def Booked (P : Point η) : Prop := ∀ c, P.state.profile = some c → c = tally P.deeds

theorem booked_profiled (s : State η) : (profiled s).Booked := by
  rintro c ⟨⟩
  rfl

theorem Booked.append {w : List Deed} {t : State η} (hP : P.Booked)
    (ht : t.profile = P.state.profile.map (· + tally w)) : Booked ⟨t, P.deeds ++ w⟩ := by
  intro c hc
  obtain ⟨d, hd, rfl⟩ := Option.map_eq_some_iff.mp (ht.symm.trans hc)
  rw [hP d hd, tally_append]

theorem Booked.rendering (hP : P.Booked) (e : Engine) (content : Text) :
    (P.rendering e content).Booked := hP.append rfl

theorem Booked.stripping (hP : P.Booked) (e : Engine) (content : Text) :
    (P.stripping e content).Booked := hP.append rfl

theorem Booked.calling (hP : P.Booked) (h : Registered η) (c : Call) : (P.calling h c).Booked := by
  apply hP.append
  rw [← funext recordMatch_eq_add_called]
  rfl

end Point

/-- A computation leads from one point to another and ends there with a value. -/
def Run.Leads (x : Run η α) (w : State η → List Deed) (P : Point η) (a : α) (Q : Point η) : Prop :=
  x P.state = some (.ok a, Q.state) ∧ Q.deeds = P.deeds ++ w P.state

theorem Run.Leads.booked {x : Run η α} {w : State η → List Deed} {a : α} (h : x.Leads w P a Q)
    (hx : x.Counts w) (hP : P.Booked) : Q.Booked := by
  obtain ⟨s, deeds⟩ := Q
  obtain ⟨hs, rfl⟩ := h
  exact hP.append (hx _ _ _ hs)

/-- For a tag that is not left standing the call of a handler begins. -/
inductive Engine.Begins (handlers : Registry (Registered η)) (p : TagParts) (P : Point η) :
    Registered η → Call → Point η → Prop
  | intro {h : Registered η} (hs : (p.isEscaped && P.state.config.escapes) = false)
      (hh : handlers.get? p.tag = some h) :
      Begins handlers p P h (callOf p P.state) (P.calling h (callOf p P.state))

/-- The points a step comes to outside of handlers: in a rendering or a stripping, when some of the
matches have been dealt with. -/
inductive Step.Passes (call : Caller η) (inner : Deeds η) (P : Point η) : Step η → Point η → Prop
  | render {on content : Text} {e : Engine} {before : List TagMatch}
      {replaced : List (TagMatch × Text)} {Q : Point η} (he : P.state.engine? on = some e)
      (hn : (P.state.registry e.registry).names ≠ [])
      (hb : before <+: scan (P.state.registry e.registry).names content)
      (hq : (before.mapM (Engine.replacement call (P.state.registry e.registry))).Leads
        (Engine.matchesWork call inner (P.state.registry e.registry) before)
        (P.rendering e content) replaced Q) :
      Passes call inner P (.render on content) Q
  | strip {on content : Text} {e : Engine} {before : List TagMatch} {Q : Point η}
      (he : P.state.engine? on = some e) (hn : (P.state.registry e.registry).names ≠ [])
      (hb : before <+: scan (P.state.registry e.registry).names content)
      (hq : (before.forM Engine.strike : Run η PUnit).Leads
        (fun _ => before.map fun m => .removed m.isEscaped) (P.stripping e content) ⟨⟩ Q) :
      Passes call inner P (.strip on content) Q

/-- The calls of handlers that a step makes, each with the point at which it begins. -/
inductive Step.Calls (call : Caller η) (inner : Deeds η) (P : Point η) :
    Step η → Registered η → Call → Point η → Prop
  | render {on content : Text} {e : Engine} {before : List TagMatch} {m : TagMatch}
      {replaced : List (TagMatch × Text)} {h : Registered η} {c : Call} {Q R : Point η}
      (he : P.state.engine? on = some e) (hn : (P.state.registry e.registry).names ≠ [])
      (hb : before ++ [m] <+: scan (P.state.registry e.registry).names content)
      (hq : (before.mapM (Engine.replacement call (P.state.registry e.registry))).Leads
        (Engine.matchesWork call inner (P.state.registry e.registry) before)
        (P.rendering e content) replaced Q)
      (hr : Engine.Begins (P.state.registry e.registry) m.toTagParts Q h c R) :
      Calls call inner P (.render on content) h c R
  | dispatch {on taken : Text} {p : TagParts} {e : Engine} {handlers : Registry (Registered η)}
      {h : Registered η} {c : Call} {R : Point η} (he : P.state.engine? on = some e)
      (ht : P.state.handlers? taken = some handlers) (hr : Engine.Begins handlers p P h c R) :
      Calls call inner P (.dispatch on p taken) h c R

/-- Where the body of a scope begins. Under a profile of its own and in a thread no work has been done
yet. -/
def Scope.entry (P : Point η) : Scope → Point η
  | .config c _ => ⟨{ P.state with config := c }, P.deeds⟩
  | .profile => .profiled P.state
  | .thread =>
    ⟨{ P.state with config := .default, profile := none, trail := P.state.trail ++ [.opened] }, []⟩

/-- The points a run of a program comes to, with those inside the handlers it calls. -/
inductive Program.Comes (behave : η → Call → Nat → Program η) :
    (depth : Nat) → Program η → Point η → Point η → Prop
  | here {depth : Nat} {p : Program η} {P : Point η} : Comes behave depth p P P
  | within {depth : Nat} {s : Step η} {next : Answer → Program η} {P Q : Point η}
      (h : s.Passes (invoke behave depth) (handlerWork behave depth) P Q) :
      Comes behave depth (.step s next) P Q
  | called {depth : Nat} {s : Step η} {next : Answer → Program η} {h : Registered η} {c : Call}
      {P Q R : Point η}
      (hc : s.Calls (invoke behave (depth + 1)) (handlerWork behave (depth + 1)) P h c Q)
      (hr : Comes behave depth (behave h.handler c (Q.state.callCount h.object)) Q R) :
      Comes behave (depth + 1) (.step s next) P R
  | stepped {depth : Nat} {s : Step η} {next : Answer → Program η} {a : Answer} {P Q R : Point η}
      (hs : (Run.answer (s.exec (invoke behave depth))).Leads
        (s.work (invoke behave depth) (handlerWork behave depth)) P a Q)
      (hr : Comes behave depth (next a) Q R) : Comes behave depth (.step s next) P R
  | inside {depth : Nat} {s : Scope} {body : Program η} {next : Answer → Program η} {P Q : Point η}
      (h : Comes behave depth body (s.entry P) Q) : Comes behave depth (.scoped s body next) P Q
  | left {depth : Nat} {s : Scope} {body : Program η} {next : Answer → Program η} {a : Answer}
      {P Q R : Point η}
      (hs : (Run.answer (s.exec (body.exec (invoke behave depth)))).Leads
        (s.work (body.work (invoke behave depth) (handlerWork behave depth))) P a Q)
      (hr : Comes behave depth (next a) Q R) : Comes behave depth (.scoped s body next) P R

theorem Engine.Begins.booked {handlers : Registry (Registered η)} {p : TagParts}
    {h : Registered η} {c : Call} (hb : Begins handlers p P h c Q) (hP : P.Booked) : Q.Booked := by
  cases hb
  exact hP.calling h _

theorem Step.Passes.booked {s : Step η} (h : s.Passes call inner P Q)
    (hc : ∀ h c n, (call h c n).Counts (inner h c n)) (hP : P.Booked) : Q.Booked := by
  cases h with
  | render he hn hb hq => exact hq.booked (Engine.counts_mapM_replacement hc _) (hP.rendering _ _)
  | strip he hn hb hq => exact hq.booked (Engine.counts_forM_strike _) (hP.stripping _ _)

theorem Step.Calls.booked {s : Step η} {g : Registered η} {c : Call}
    (h : s.Calls call inner P g c Q) (hc : ∀ h c n, (call h c n).Counts (inner h c n))
    (hP : P.Booked) : Q.Booked := by
  cases h with
  | render he hn hb hq hr =>
    exact hr.booked (hq.booked (Engine.counts_mapM_replacement hc _) (hP.rendering _ _))
  | dispatch he ht hr => exact hr.booked hP

theorem Scope.booked_entry (hP : P.Booked) (s : Scope) : (s.entry P).Booked := by
  cases s with
  | config c raises => exact hP
  | profile => exact Point.booked_profiled P.state
  | thread => rintro c ⟨⟩

theorem Program.Comes.booked (h : p.Comes behave depth P Q) (hP : P.Booked) : Q.Booked := by
  induction h with
  | here => exact hP
  | within h => exact h.booked (counts_invoke behave _) hP
  | called hc _ ih => exact ih (hc.booked (counts_invoke behave _) hP)
  | stepped hs _ ih => exact ih (hs.booked (Step.counts_exec (counts_invoke behave _) _).answer hP)
  | inside _ ih => exact ih (Scope.booked_entry hP _)
  | left hs _ ih =>
    exact ih (hs.booked (Scope.counts_exec (counts_exec (counts_invoke behave _) _) _).answer hP)

theorem Run.afterwards_eq {x : Run η α} {next : α → State η → List Deed} {a : α} {s t : State η}
    (h : x s = some (.ok a, t)) : x.afterwards next s = next a t := by
  rw [afterwards, h]

theorem Run.answer_bind_eq_some {x : Run η Answer} {f : Answer → Run η β} {r : Except Fault β}
    {s t : State η} (h : (answer x >>= f) s = some (r, t)) :
    ∃ a u, answer x s = some (.ok a, u) ∧ f a u = some (r, t) := by
  rcases bind_eq_some h with ⟨e, he, -⟩ | h
  · obtain ⟨⟨a, ha⟩, -⟩ := answer_eq_some he
    cases ha
  · exact h

/-- The end of a run is a point it comes to. -/
theorem Program.comes_of_exec {r : Except Fault (Text × List Answer)} {t : State η}
    (h : p.exec (invoke behave depth) P.state = some (r, t)) :
    p.Comes behave depth P
      ⟨t, P.deeds ++ p.work (invoke behave depth) (handlerWork behave depth) P.state⟩ := by
  induction p generalizing P with
  | done out notes =>
    cases h
    rw [work, List.append_nil]
    exact .here
  | raise f =>
    cases h
    rw [work, List.append_nil]
    exact .here
  | step s next ih =>
    obtain ⟨a, u, ha, hu⟩ := Run.answer_bind_eq_some h
    rw [work, Run.afterwards_eq ha, ← List.append_assoc]
    refine .stepped (Q := ⟨u, _⟩) ⟨ha, rfl⟩ ?_
    exact ih a hu
  | «scoped» s body next _ ih =>
    obtain ⟨a, u, ha, hu⟩ := Run.answer_bind_eq_some h
    rw [work, Run.afterwards_eq ha, ← List.append_assoc]
    refine .left (Q := ⟨u, _⟩) ⟨ha, rfl⟩ ?_
    exact ih a hu

/-- The counters after some work can differ from a balance only by matches that a stripping has
removed. -/
theorem Counters.balance_tally (w : List Deed) :
    (tally w).handlerCalls + (tally w).escaped ≤ (tally w).matched ∧
      ((tally w).handlerCalls + (tally w).escaped = (tally w).matched ↔ .removed false ∉ w) := by
  rw [← List.count_eq_zero, tally_matched]
  omega

/-- Without a handler for a tag that is not left standing nothing happens but the fault. -/
theorem Engine.dispatch_of_unregistered {handlers : Registry (Registered η)} {q : TagParts}
    {s : State η} (hs : (q.isEscaped && s.config.escapes) = false)
    (hq : handlers.get? q.tag = none) :
    dispatch call handlers q s = some (.error (.unregistered q.tag none), s) := by
  rw [dispatch, Run.bind_apply, Run.get_apply]
  simp only [Option.bind_some, hs, Bool.false_eq_true, if_false, hq]
  rfl

theorem Run.withProfile_apply (x : Run η α) (s : State η) :
    withProfile x s = (x (Point.profiled s).state).map fun r =>
      (r.1.map fun a => (a, r.2.profile.getD .zero),
        { r.2 with profile := s.profile, trail := r.2.trail ++ [.closed] }) := by
  rw [withProfile, bracket_apply, bind_apply]
  show ((x (Point.profiled s).state).bind _).map _ = _
  cases x (Point.profiled s).state with
  | none => rfl
  | some r => obtain ⟨_ | _, _⟩ := r <;> rfl

theorem Scope.of_exec_profile {body : Run η (Text × List Answer)} {s t : State η}
    {answers : List Answer} {c : Counters}
    (h : Scope.profile.exec body s = some (.ok (.profile answers c), t)) :
    ∃ out u, body (Point.profiled s).state = some (.ok (out, answers), u) ∧
      c = u.profile.getD .zero ∧ t.profile = s.profile := by
  rw [exec, Run.bind_apply, Run.withProfile_apply] at h
  cases hb : body (Point.profiled s).state with
  | none => simp [hb] at h
  | some r =>
    obtain ⟨f | ⟨out, given⟩, u⟩ := r
    · simp only [hb, Option.map_some, Option.bind_some] at h
      cases h
    · simp only [hb, Option.map_some, Option.bind_some] at h
      cases h
      exact ⟨out, u, rfl, rfl, rfl⟩

/-- Whatever handlers do, at whatever depth, and wherever a fault cuts the run short: the summary of a
profile, the profile in force when its body ends and the profile in force at every point in between
count exactly the work done in the scope. -/
theorem profile_eq_tally (behave : η → Call → Nat → Program η) (depth : Nat) (p : Program η)
    (s : State η) :
    (∀ answers c t,
      Scope.profile.exec (p.exec (invoke behave depth)) s = some (.ok (.profile answers c), t) →
        c = tally (p.work (invoke behave depth) (handlerWork behave depth)
          (Point.profiled s).state) ∧ t.profile = s.profile) ∧
    (∀ r t, p.exec (invoke behave depth) (Point.profiled s).state = some (r, t) →
      t.profile = some (tally (p.work (invoke behave depth) (handlerWork behave depth)
          (Point.profiled s).state)) ∧
        p.Comes behave depth (.profiled s)
          ⟨t, p.work (invoke behave depth) (handlerWork behave depth) (Point.profiled s).state⟩) ∧
    (∀ Q c, p.Comes behave depth (.profiled s) Q → Q.state.profile = some c →
      c = tally Q.deeds ∧ c.handlerCalls + c.escaped ≤ c.matched ∧
        (c.handlerCalls + c.escaped = c.matched ↔ .removed false ∉ Q.deeds)) ∧
    ∀ handlers q (u : State η), (q.isEscaped && u.config.escapes) = false →
      handlers.get? q.tag = none →
      Engine.dispatch (invoke behave depth) handlers q u =
        some (.error (.unregistered q.tag none), u) := by
  have hend : ∀ r t, p.exec (invoke behave depth) (Point.profiled s).state = some (r, t) →
      t.profile = some (tally (p.work (invoke behave depth) (handlerWork behave depth)
        (Point.profiled s).state)) := by
    intro r t h
    rw [Program.counts_exec (counts_invoke behave depth) p _ r t h]
    exact congrArg some (Counters.zero_add _)
  refine ⟨?_, ?_, ?_, fun handlers q u => Engine.dispatch_of_unregistered⟩
  · intro answers c t h
    obtain ⟨out, u, hu, rfl, ht⟩ := Scope.of_exec_profile h
    rw [hend _ u hu]
    exact ⟨rfl, ht⟩
  · intro r t h
    exact ⟨hend r t h, Program.comes_of_exec h⟩
  · intro Q c h hc
    obtain rfl := h.booked (Point.booked_profiled s) c hc
    exact ⟨rfl, Counters.balance_tally Q.deeds⟩

/-- One handler renders a content with another engine; the other one raises a fault. -/
def delegating : Bool → Call → Nat → Program Bool
  | true, _, _ => .step (.render ['j'] ['[', 'b', ']']) fun _ => .done ['x'] []
  | false, _, _ => .raise .noTags

/-- An engine for each of the two handlers. -/
def delegates : State Bool where
  registries := [Registry.empty.add ['a'] (some ⟨⟨[], true⟩, 0⟩),
    Registry.empty.add ['b'] (some ⟨⟨[], false⟩, 1⟩)]
  items := (OrderedMap.empty.insert ['i'] (.engine ⟨.default, 0⟩)).insert ['j']
    (.engine ⟨.default, 1⟩)

/-- A rendering, another one under a profile of its own, and a stripping. -/
def errands : Program Bool :=
  .step (.render ['i'] ['[', 'a', ']']) fun _ =>
    .scoped .profile (.step (.render ['j'] ['[', 'b', ']']) fun _ => .done [] []) fun _ =>
      .step (.strip ['j'] ['[', '[', 'b', ']', ']', '[', 'b', ']']) fun _ => .done [] []

/-- The rendering inside the handler is counted, and so is the call that fails there; the rendering
under a profile of its own is not. -/
theorem profile_eq_tally_nested : ∃ answers t,
    Scope.profile.exec (errands.exec (invoke delegating 2)) delegates =
      some (.ok (.profile answers ⟨14, 2, 1, 4, 2, 1⟩), t) ∧
    ⟨14, 2, 1, 4, 2, 1⟩ = tally (errands.work (invoke delegating 2) (handlerWork delegating 2)
      (Point.profiled delegates).state) :=
  ⟨_, _, rfl, ((profile_eq_tally delegating 2 errands delegates).1 _ _ _ rfl).1⟩

end Shortcode
