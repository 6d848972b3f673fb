import Shortcode.Proofs.Registry.History
import Shortcode.Proofs.Session.Identifiers
import Shortcode.Proofs.Session.Settled

/-! Registries and snapshots in a session. A registry shows the history of the changes made to it, by
whatever identifier; a snapshot shows the registry as it was when the snapshot was taken. -/
namespace Shortcode
variable {η α : Type} {call : Caller η} {behave : η → Call → Nat → Program η} {number : Nat}
  {s : State η}

/-- The changes that a step makes to a registry. -/
def Step.changes (number : Nat) (s : State η) : Step η → List (Change (Registered η))
  | .change on c => if s.number? on = some number then [c.map fun h => ⟨h, s.objects⟩] else []
  | _ => []

/-- The changes that are made to a registry when steps are carried out one after another. -/
def State.history (call : Caller η) (number : Nat) :
    List (Step η) → State η → List (Change (Registered η))
  | [], _ => []
  | st :: rest, s => st.changes number s ++
    match st.exec call s with
    | some (_, t) => history call number rest t
    | none => []

/-- A computation ends, and makes some changes to a registry. -/
def Run.Makes (x : Run η α) (number : Nat) (s : State η) (cs : List (Change (Registered η))) :
    Prop :=
  ∃ r t, x s = some (r, t) ∧ t.registry number = (s.registry number).after cs ∧
    number < t.registries.length

namespace Run

theorem makes_of_keeps {x : Run η α} (hx : x.Keeps (·.registries)) (he : x s ≠ none)
    (hn : number < s.registries.length) : Makes x number s [] := by
  obtain ⟨⟨r, t⟩, ht⟩ := Option.ne_none_iff_exists'.mp he
  have hr : t.registries = s.registries := hx s r t ht
  exact ⟨r, t, ht, by simp [State.registry, hr], by rwa [hr]⟩

/-- A new registry is added behind those that there are. -/
theorem makes_addRegistry (hn : number < s.registries.length) :
    Makes (addRegistry : Run η Nat) number s [] := by
  refine ⟨_, _, rfl, ?_, ?_⟩
  · simp [State.registry, List.getElem?_append_left hn]
  · simp
    omega

theorem Makes.bind_keeps {β : Type} {x : Run η α} {f : α → Run η β}
    {cs : List (Change (Registered η))} (hx : Makes x number s cs)
    (hf : ∀ a, (f a).Keeps (·.registries)) (he : ∀ a t, f a t ≠ none) :
    Makes (x >>= f) number s cs := by
  obtain ⟨e | a, t, ht, hr, hn⟩ := hx
  · exact ⟨.error e, t, by rw [bind_apply, ht]; rfl, hr, hn⟩
  · obtain ⟨⟨r, u⟩, hu⟩ := Option.ne_none_iff_exists'.mp (he a t)
    have hk : u.registries = t.registries := hf a t r u hu
    refine ⟨r, u, by rw [bind_apply, ht]; exact hu, ?_, by rwa [hk]⟩
    rw [← hr, State.registry, State.registry, hk]

/-- A change concerns the one registry only, and none if it fails. -/
theorem makes_change (on : Nat) (c : Change (Labelled η)) (hn : number < s.registries.length) :
    Makes (change on c) number s
      (if on = number then [c.map fun h => ⟨h, s.objects⟩] else []) := by
  cases ha : (s.registry on).apply (c.map fun h => ⟨h, s.objects⟩) with
  | error f =>
    refine ⟨_, s, by rw [change_apply, ha], ?_, hn⟩
    have hc : (s.registry on).changed (c.map fun h => ⟨h, s.objects⟩) = s.registry on := by
      rw [Registry.changed, ha]
    split
    · next h => rw [← h, Registry.after_singleton, hc]
    · rfl
  | ok p =>
    refine ⟨_, _, by rw [change_apply, ha], ?_, by simpa using hn⟩
    have hc : (s.registry on).changed (c.map fun h => ⟨h, s.objects⟩) = p.1 := by
      rw [Registry.changed, ha]
    split
    · next h =>
      subst h
      rw [Registry.after_singleton, hc]
      simp [State.registry, hn]
    · next h => simp [State.registry, List.getElem?_set_ne h]

end Run

theorem Step.makes_exec {st : Step η} (hst : st.Administers) (hn : number < s.registries.length) :
    (st.exec call).Makes number s (st.changes number s) := by
  have hassign : ∀ id item,
      (modify (·.assign id item) : Run η PUnit).Keeps (·.registries) := fun id item =>
    Run.keeps_modify fun _ => rfl
  have hends : st.exec call s ≠ none := by
    cases st with
    | render on content => exact hst.elim
    | strip on content => exact hst.elim
    | dispatch on p taken => exact hst.elim
    | _ => exact exec_ne_none rfl id
  cases st with
  | newRegistry id =>
    exact (Run.makes_addRegistry hn).bind_keeps
      (fun _ => (hassign _ _).bind fun _ => Run.keeps_pure _) fun _ _ => Option.some_ne_none _
  | newEngine id c registry =>
    have hk : ∀ n, (do
        let e ← Run.newEngine id c n
        pure (.config e.config) : Run η Answer).Keeps (·.registries) := fun _ =>
      ((hassign _ _).bind fun _ => Run.keeps_pure _).bind fun _ => Run.keeps_pure _
    cases registry with
    | none => exact (Run.makes_addRegistry hn).bind_keeps hk fun _ _ => Option.some_ne_none _
    | some on => exact Run.makes_of_keeps ((Run.keeps_find _ _).bind hk) hends hn
  | change on c =>
    cases hon : s.number? on with
    | none =>
      refine ⟨.error (.unknown on), s, ?_, by simp [changes, hon], hn⟩
      simp [exec, Run.find, Run.bind_apply, hon]
    | some n =>
      obtain ⟨r, t, ht, hr, hnt⟩ : (Run.change n c).Makes number s _ := Run.makes_change n c hn
      refine ⟨r, t, ?_, by simpa [changes, hon] using hr, hnt⟩
      rw [exec, Run.bind_apply, Run.find_apply hon]
      exact ht
  | snapshot on id =>
    refine Run.makes_of_keeps ((Run.keeps_find _ _).bind fun _ => ?_) hends hn
    exact (hassign _ _).bind fun _ => Run.keeps_pure _
  | lookup on tag =>
    exact Run.makes_of_keeps ((Run.keeps_find _ _).bind fun _ => Run.keeps_pure _) hends hn
  | has on tag =>
    exact Run.makes_of_keeps ((Run.keeps_find _ _).bind fun _ => Run.keeps_pure _) hends hn
  | names on =>
    exact Run.makes_of_keeps ((Run.keeps_find _ _).bind fun _ => Run.keeps_pure _) hends hn
  | parse t => exact Run.makes_of_keeps (Run.keeps_get.bind fun _ => Run.keeps_pure _) hends hn
  | getConfig => exact Run.makes_of_keeps (Run.keeps_get.bind fun _ => Run.keeps_pure _) hends hn
  | metrics => exact Run.makes_of_keeps (Run.keeps_get.bind fun _ => Run.keeps_pure _) hends hn
  | render on content => exact hst.elim
  | strip on content => exact hst.elim
  | dispatch on p taken => exact hst.elim
  | setConfig c => exact hst.elim
  | resetConfig => exact hst.elim

/-- By induction on the steps, each from the state in which the one before it ends. -/
theorem State.registry_history (call : Caller η) {steps : List (Step η)}
    (hst : ∀ st ∈ steps, st.Administers) (hn : number < s.registries.length) :
    ∃ answers t, steps.mapM (fun st => Run.answer (st.exec call)) s = some (.ok answers, t) ∧
      t.registry number = (s.registry number).after (history call number steps s) := by
  induction steps generalizing s with
  | nil => exact ⟨[], s, rfl, rfl⟩
  | cons st rest ih =>
    obtain ⟨r, t, ht, hr, hnt⟩ : (st.exec call).Makes number s _ :=
      Step.makes_exec (hst st List.mem_cons_self) hn
    obtain ⟨answers, u, hu, hru⟩ := ih (fun st h => hst st (List.mem_cons_of_mem _ h)) hnt
    obtain ⟨a, ha⟩ : ∃ a, Run.answer (st.exec call) s = some (.ok a, t) := by
      rw [Run.answer_apply, ht]
      cases r with
      | error f => exact ⟨_, rfl⟩
      | ok a => exact ⟨_, rfl⟩
    refine ⟨a :: answers, u, ?_, ?_⟩
    · rw [Run.mapM_cons_apply, ha]
      simp [hu, Except.map]
    · rw [hru, hr, history, ht, Registry.after_append]

/-- A snapshot is taken of what an identifier stands for at the moment. -/
theorem Step.snapshot_apply {on id : Text} {r : Registry (Registered η)}
    (hr : s.handlers? on = some r) :
    (Step.snapshot on id).exec call s =
      some (.ok (.snapshot r.names), s.assign id (.snapshot r)) := by
  rw [exec, Run.bind_apply, Run.find_apply hr]
  rfl

/-- What is asked of handlers is answered from them alone. -/
theorem Step.queries_apply {id : Text} {r : Registry (Registered η)}
    (hr : s.handlers? id = some r) (tag : Text) :
    (Step.lookup id tag).exec call s =
        some (.ok (.handler ((r.get? tag).map (·.label))), s) ∧
      (Step.has id tag).exec call s = some (.ok (.membership (r.has tag)), s) ∧
      (Step.names id).exec call s = some (.ok (.names r.names), s) := by
  simp only [exec, Run.bind_apply, Run.find_apply hr]
  exact ⟨rfl, rfl, rfl⟩

theorem State.handlers?_of_snapshot {id : Text} {r : Registry (Registered η)}
    (h : s.items.get? id = some (.snapshot r)) : s.handlers? id = some r := by
  rw [handlers?, h]

/-- A registry is the ordered map that the history of its changes defines, whatever engines and
registries the changes go through; its queries agree with one another; and a snapshot is not changed
by anything that is done later. -/
theorem registry_follows_history (call : Caller η) (behave : η → Call → Nat → Program η)
    {past : List (Change (Registered η))} {steps : List (Step η)}
    (hst : ∀ st ∈ steps, st.Administers) (hn : number < s.registries.length)
    (hp : s.registry number = Registry.empty.after past) :
    (∃ answers t, steps.mapM (fun st => Run.answer (st.exec call)) s = some (.ok answers, t) ∧
      t.registry number = Registry.empty.after (past ++ State.history call number steps s) ∧
      (t.registry number).Follows
        ((past ++ State.history call number steps s).flatMap Change.events)) ∧
    (∀ (r : Registry (Registered η)) tag, (r.has tag = true ↔ tag ∈ r.names) ∧
      r.has tag = (r.get? tag).isSome ∧ r.size = r.names.length) ∧
    (∀ (r : Registry (Registered η)) tag tags h,
      r.apply (.add tag none) = .ok (r, [.ignored tag]) ∧
      (tag ∉ r.names → r.apply (.remove tag) = .ok (r, [])) ∧
      r.apply (.addAll [] h) = .error .noTags ∧
      (tags ≠ [] → r.apply (.addAll tags h) =
        .ok (r.after (tags.map (.add · h)), tags.map (Registry.report · h)))) ∧
    ∀ on id r, s.handlers? on = some r → (∀ h c n, (behave h c n).Respects id) →
      ∃ u, (Step.snapshot on id).exec call s = some (.ok (.snapshot r.names), u) ∧
        ∀ (p : Program η) depth o v, p.Respects id →
          p.exec (invoke behave depth) u = some (o, v) → v.handlers? id = some r ∧ ∀ tag,
            (Step.lookup id tag).exec call v =
                some (.ok (.handler ((r.get? tag).map (·.label))), v) ∧
              (Step.has id tag).exec call v = some (.ok (.membership (r.has tag)), v) ∧
              (Step.names id).exec call v = some (.ok (.names r.names), v) := by
  refine ⟨?_, fun r tag => ?_, fun r tag tags h => ?_, fun on id r hr hb => ?_⟩
  · obtain ⟨answers, t, ht, hr⟩ := State.registry_history call hst hn
    rw [hp, ← Registry.after_append] at hr
    exact ⟨answers, t, ht, hr, hr ▸ Registry.follows_after _⟩
  · exact ⟨OrderedMap.contains_iff, rfl, (OrderedMap.length_keys r.handlers).symm⟩
  · refine ⟨rfl, fun ht => ?_, rfl, fun ht => ?_⟩
    · rw [Registry.apply, Registry.remove_of_not_mem ht]
    · rw [Registry.apply, if_neg (by simpa using ht), Registry.addAll_eq_after]
  · refine ⟨_, Step.snapshot_apply hr, fun p depth o v hp hv => ?_⟩
    have hkept : v.items.get? id = (s.assign id (.snapshot r)).items.get? id :=
      Program.keeps_item_exec hp (keeps_item_invoke hb depth) _ o v hv
    have hsnap : v.handlers? id = some r := by
      apply State.handlers?_of_snapshot
      rw [hkept]
      exact (OrderedMap.get?_insert s.items id id _).trans (if_pos rfl)
    exact ⟨hsnap, Step.queries_apply hsnap⟩

/-- A registry with one tag, and an identifier for it. -/
def oneTag : State Unit where
  registries := [Registry.empty.after [.add ['a'] (some ⟨⟨['0'], ()⟩, 0⟩)]]
  items := OrderedMap.empty.insert ['r'] (.registry 0)
  objects := 1

/-- Changes through the registry and through an engine that shares it: a tag is replaced, one that was
removed comes back, and two attempts change nothing. -/
def turnover : List (Step Unit) :=
  [.newEngine ['e'] .default (some ['r']),
    .change ['e'] (.addAll [['b'], ['a']] (some ⟨['1'], ()⟩)),
    .change ['r'] (.remove ['a']), .change ['e'] (.add ['c'] none),
    .change ['e'] (.add ['a'] (some ⟨['2'], ()⟩)), .change ['e'] (.addAll [] none)]

/-- Everything is removed. -/
def clearance : Program Unit := .step (.change ['r'] .removeAll) fun _ => .done [] []

/-- The snapshot still shows what has been removed. -/
theorem registry_follows_history_turnover :
    (∃ answers t, turnover.mapM (fun st => Run.answer (st.exec fun _ _ _ => Run.endless)) oneTag =
        some (.ok answers, t) ∧ (t.registry 0).names = [['b'], ['a']] ∧
      ((t.registry 0).get? ['a']).map (·.label) = some ['2']) ∧
    ∃ r u v, (Step.snapshot ['r'] ['s']).exec (fun _ _ _ => Run.endless) oneTag =
        some (.ok (.snapshot [['a']]), u) ∧
      clearance.exec (invoke (fun _ _ _ => .done [] []) 0) u = some (.ok ([], []), v) ∧
      (v.registry 0).names = [] ∧ v.handlers? ['s'] = some r ∧ r.names = [['a']] := by
  have hst : ∀ st ∈ turnover, st.Administers := by
    simp [turnover, Step.Administers]
  obtain ⟨⟨answers, t, ht, hr, -⟩, -, -, hsnap⟩ := registry_follows_history (s := oneTag)
    (fun _ _ _ => Run.endless) (fun _ _ _ => .done [] []) hst (by decide : 0 < 1) rfl
  obtain ⟨u, hu, hlater⟩ := hsnap ['r'] ['s'] _ rfl fun _ _ _ => trivial
  obtain ⟨v, hv⟩ : ∃ v, clearance.exec (invoke (fun _ _ _ => .done [] []) 0) u =
      some (.ok ([], []), v) ∧ (v.registry 0).names = [] := by
    cases hu
    exact ⟨_, rfl, rfl⟩
  refine ⟨⟨answers, t, ht, ?_, ?_⟩, _, u, v, hu, hv.1, hv.2,
    (hlater clearance 0 _ v ⟨id, fun _ => trivial⟩ hv.1).1, rfl⟩
  · rw [hr]
    rfl
  · rw [hr]
    rfl

end Shortcode
