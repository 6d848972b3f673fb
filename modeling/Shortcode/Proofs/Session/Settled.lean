import Shortcode.Proofs.Session.Keeps
import Shortcode.Proofs.Session.Ledger

/-! Runs that come to an end, and to the same end wherever handlers may be nested deep enough, with a
bound on the calls they make. -/
namespace Shortcode
variable {η α β : Type} {call : Caller η} {k n m : Nat} {s : State η}

namespace Run
variable {x y : Nat → Run η α} {f : Nat → α → Run η β}

/-- Where handlers may be nested at least `k` deep a computation has one and the same end, and it makes
at most `n` calls. -/
def Settles (x : Nat → Run η α) (k : Nat) (s : State η) (n : Nat) : Prop :=
  ∃ r t, (∀ depth, k ≤ depth → x depth s = some (r, t)) ∧ t.visits.length ≤ s.visits.length + n

theorem settles_pure (a : α) : Settles (fun _ => pure a) k s n :=
  ⟨.ok a, s, fun _ _ => rfl, Nat.le_add_right _ _⟩

theorem settles_throw (e : Fault) : Settles (fun _ => (throw e : Run η α)) k s n :=
  ⟨.error e, s, fun _ _ => rfl, Nat.le_add_right _ _⟩

/-- A computation that does not depend on the depth, ends, and calls nobody. -/
theorem settles_of_keeps {x : Run η α} (hx : x.Keeps (·.visits)) (he : x s ≠ none) :
    Settles (fun _ => x) k s n := by
  obtain ⟨⟨r, t⟩, ht⟩ := Option.ne_none_iff_exists'.mp he
  have hv : t.visits = s.visits := hx s r t ht
  exact ⟨r, t, fun _ _ => ht, by simp [hv]⟩

theorem Settles.congr (hx : Settles x k s n) (h : ∀ depth, y depth s = x depth s) :
    Settles y k s n := by
  obtain ⟨r, t, ht, hn⟩ := hx
  exact ⟨r, t, fun depth hd => (h depth).trans (ht depth hd), hn⟩

theorem Settles.mono (hx : Settles x k s n) (h : n ≤ m) : Settles x k s m := by
  obtain ⟨r, t, ht, hn⟩ := hx
  exact ⟨r, t, ht, by omega⟩

/-- What a handler does is nested one level deeper than its call. -/
theorem Settles.succ (hx : Settles (fun depth => x (depth + 1)) k s n) : Settles x (k + 1) s n := by
  obtain ⟨r, t, ht, hn⟩ := hx
  refine ⟨r, t, fun depth hd => ?_, hn⟩
  obtain ⟨depth, rfl⟩ := Nat.exists_eq_add_of_le' (Nat.le_of_add_left_le hd)
  exact ht depth (by omega)

/-- What follows is bounded from the state in which the first part ends. -/
theorem Settles.bind (hx : Settles x k s n)
    (hf : ∀ a t, x k s = some (.ok a, t) → Settles (fun depth => f depth a) k t m) :
    Settles (fun depth => x depth >>= f depth) k s (n + m) := by
  obtain ⟨e | a, t, ht, hn⟩ := hx
  · refine ⟨.error e, t, fun depth hd => ?_, by omega⟩
    dsimp only
    rw [bind_apply, ht depth hd]
    rfl
  · obtain ⟨r, u, hu, hm⟩ := hf a t (ht k (Nat.le_refl k))
    refine ⟨r, u, fun depth hd => ?_, by omega⟩
    dsimp only
    rw [bind_apply, ht depth hd]
    exact hu depth hd

theorem Settles.map (hx : Settles x k s n) (g : α → β) :
    Settles (fun depth => g <$> x depth) k s n := by
  have hm := hx.bind (f := fun _ a => pure (g a)) (m := 0) fun a t _ => settles_pure (g a)
  exact hm.congr fun depth => by rw [map_eq_pure_bind]

theorem Settles.answer {x : Nat → Run η Answer} (hx : Settles x k s n) :
    Settles (fun depth => answer (x depth)) k s n := by
  obtain ⟨e | a, t, ht, hn⟩ := hx
  · refine ⟨.ok (.failed e), t, fun depth hd => ?_, hn⟩
    dsimp only
    rw [answer_apply, ht depth hd]
    rfl
  · refine ⟨.ok a, t, fun depth hd => ?_, hn⟩
    dsimp only
    rw [answer_apply, ht depth hd]
    rfl

theorem Settles.bracket {enter : State η → State η} {leave : State η → State η → State η}
    (hx : Settles x k (enter s) n) (he : (enter s).visits = s.visits)
    (hl : ∀ t, (leave s t).visits = t.visits) :
    Settles (fun depth => bracket enter leave (x depth)) k s n := by
  obtain ⟨r, t, ht, hn⟩ := hx
  rw [he] at hn
  refine ⟨r, leave s t, fun depth hd => ?_, by rw [hl]; exact hn⟩
  dsimp only
  rw [bracket_apply, ht depth hd]
  rfl

theorem settles_mapM {ι : Type} {f : Nat → ι → Run η α} {w : ι → Nat} {as : List ι}
    (h : ∀ a ∈ as, ∀ s, Settles (fun depth => f depth a) k s (w a)) (s : State η) :
    Settles (fun depth => as.mapM (f depth)) k s (as.map w).sum := by
  induction as generalizing s with
  | nil => exact settles_pure []
  | cons a as ih =>
    have hrest := ih fun b hb => h b (List.mem_cons_of_mem a hb)
    have hboth := (h a List.mem_cons_self s).bind (f := fun depth b => do
      let bs ← as.mapM (f depth)
      pure (b :: bs)) fun b t _ => (hrest t).bind (m := 0) fun bs u _ => settles_pure _
    exact hboth.congr fun depth => by rw [List.mapM_cons]

theorem find_ne_none (lookup : State η → Text → Option α) (id : Text) : find lookup id s ≠ none := by
  cases h : lookup s id <;> simp [find, bind_apply, h]

theorem find_bind_ne_none {lookup : State η → Text → Option α} {id : Text} {f : α → Run η β}
    (h : ∀ a, f a s ≠ none) : (find lookup id >>= f) s ≠ none := by
  cases ha : lookup s id with
  | none => simp [find, bind_apply, ha]
  | some a =>
    rw [bind_apply, find_apply ha]
    exact h a

theorem change_ne_none (number : Nat) (c : Change (Labelled η)) : change number c s ≠ none := by
  rw [change_apply]
  cases (s.registry number).apply (c.map fun h => ⟨h, s.objects⟩) <;> exact Option.some_ne_none _

/-- What is asked after a part that ends with a value. -/
def requestsAfter {ρ : Type} (x : Run η α) (next : α → State η → List ρ) (s : State η) : List ρ :=
  match x s with
  | some (.ok a, t) => next a t
  | _ => []

theorem requestsAfter_eq {ρ : Type} {x : Run η α} {next : α → State η → List ρ} {a : α}
    {t : State η} (h : x s = some (.ok a, t)) : x.requestsAfter next s = next a t := by
  rw [requestsAfter, h]

@[simp] theorem requestsAfter_nil {ρ : Type} (x : Run η α) (s : State η) :
    x.requestsAfter (fun _ _ => ([] : List ρ)) s = [] := by
  rw [requestsAfter]
  split <;> rfl

end Run

/-- The text that a step has rendered or stripped. -/
def Step.texts : Step η → List Text
  | .render _ t => [t]
  | .strip _ t => [t]
  | _ => []

/-- A step that has a match handled by itself, without a rendering. -/
def Step.Dispatches : Step η → Prop
  | .dispatch _ _ _ => True
  | _ => False

/-- The state in which the body of a scope begins. -/
def Scope.entered (s : State η) (c : Scope) : State η := (c.entry ⟨s, []⟩).state

/-- The steps of a run of a program, in order, with those in blocks and threads and without those of
the handlers that it calls. -/
def Program.requests (call : Caller η) : Program η → State η → List (Step η)
  | .done _ _, _ => []
  | .raise _, _ => []
  | .step st next, s =>
    st :: (Run.answer (st.exec call)).requestsAfter (fun a => (next a).requests call) s
  | .scoped c body next, s =>
    body.requests call (c.entered s) ++
      (Run.answer (c.exec (body.exec call))).requestsAfter (fun a => (next a).requests call) s

theorem Step.exec_ne_none {st : Step η} (ht : st.texts = []) (hd : ¬ st.Dispatches) :
    st.exec call s ≠ none := by
  cases st with
  | newEngine id c registry =>
    cases registry with
    | none => exact Option.some_ne_none _
    | some on => exact Run.find_bind_ne_none fun _ => Option.some_ne_none _
  | snapshot on id => exact Run.find_bind_ne_none fun _ => Option.some_ne_none _
  | change on c => exact Run.find_bind_ne_none fun number => Run.change_ne_none number c
  | lookup on tag => exact Run.find_bind_ne_none fun _ => Option.some_ne_none _
  | has on tag => exact Run.find_bind_ne_none fun _ => Option.some_ne_none _
  | names on => exact Run.find_bind_ne_none fun _ => Option.some_ne_none _
  | render on content => cases ht
  | strip on content => cases ht
  | dispatch on p taken => exact (hd trivial).elim
  | _ => exact Option.some_ne_none _

theorem Step.keeps_visits_exec {st : Step η} (ht : st.texts = []) (hd : ¬ st.Dispatches) :
    (st.exec call).Keeps (·.visits) := by
  cases st with
  | render on content => cases ht
  | strip on content => cases ht
  | dispatch on p taken => exact (hd trivial).elim
  | setConfig c =>
    refine (Run.keeps_modify ?_).bind fun _ => Run.keeps_pure _
    exact fun _ => rfl
  | resetConfig =>
    refine (Run.keeps_modify ?_).bind fun _ => Run.keeps_pure _
    exact fun _ => rfl
  | _ => exact Step.keeps_exec trivial fun _ _ _ _ => rfl

end Shortcode
