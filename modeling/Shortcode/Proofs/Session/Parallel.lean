import Shortcode.Proofs.Session.Run

/-! Two computations side by side: from related states they come to related ends. One lemma for each
way to build a computation. -/
namespace Shortcode.Run
variable {η α β γ δ : Type} {R R' : State η → State η → Prop} {V : α → β → Prop} {W : γ → δ → Prop}
  {x : Run η α} {y : Run η β}

/-- Both have no end, both end with the same fault, or both end with values that are related; the
states they leave are related too. -/
inductive EndAlike (R : State η → State η → Prop) (V : α → β → Prop) :
    Option (Except Fault α × State η) → Option (Except Fault β × State η) → Prop
  | endless : EndAlike R V none none
  | failed {f : Fault} {s t : State η} (h : R s t) :
      EndAlike R V (some (.error f, s)) (some (.error f, t))
  | done {a : α} {b : β} {s t : State η} (hv : V a b) (h : R s t) :
      EndAlike R V (some (.ok a, s)) (some (.ok b, t))

theorem EndAlike.bind {o : Option (Except Fault α × State η)} {p : Option (Except Fault β × State η)}
    {k : Except Fault α × State η → Option (Except Fault γ × State η)}
    {l : Except Fault β × State η → Option (Except Fault δ × State η)} (h : EndAlike R V o p)
    (hf : ∀ f s t, R s t → EndAlike R' W (k (.error f, s)) (l (.error f, t)))
    (hd : ∀ a b s t, V a b → R s t → EndAlike R' W (k (.ok a, s)) (l (.ok b, t))) :
    EndAlike R' W (o.bind k) (p.bind l) := by
  cases h with
  | endless => exact .endless
  | failed hr => exact hf _ _ _ hr
  | done hv hr => exact hd _ _ _ _ hv hr

/-- From related states two computations end alike. -/
def Parallel (R : State η → State η → Prop) (V : α → β → Prop) (x : Run η α) (y : Run η β) : Prop :=
  ∀ s t, R s t → EndAlike R V (x s) (y t)

theorem parallel_pure {a : α} {b : β} (h : V a b) : Parallel R V (pure a) (pure b) :=
  fun _ _ hr => .done h hr

theorem parallel_throw (f : Fault) : Parallel R V (throw f) (throw f) := fun _ _ hr => .failed hr

theorem parallel_endless : Parallel R V endless endless := fun _ _ _ => .endless

theorem parallel_modify {f g : State η → State η} (h : ∀ s t, R s t → R (f s) (g t)) :
    Parallel R Eq (modify f : Run η PUnit) (modify g) := fun s t hr => .done rfl (h s t hr)

theorem Parallel.bind {f : α → Run η γ} {g : β → Run η δ} (hx : Parallel R V x y)
    (hf : ∀ a b, V a b → Parallel R W (f a) (g b)) : Parallel R W (x >>= f) (y >>= g) := by
  intro s t hr
  rw [bind_apply, bind_apply]
  exact (hx s t hr).bind (fun _ _ _ h => .failed h) fun _ _ _ _ hv h => hf _ _ hv _ _ h

/-- Of a part that gives the same value both times. -/
theorem Parallel.bind_eq {x y : Run η α} {f : α → Run η γ} {g : α → Run η δ}
    (hx : Parallel R Eq x y) (hf : ∀ a, Parallel R W (f a) (g a)) :
    Parallel R W (x >>= f) (y >>= g) := by
  refine hx.bind ?_
  rintro a _ rfl
  exact hf a

theorem Parallel.map {x y : Run η α} (hx : Parallel R Eq x y) (g : α → β) :
    Parallel R Eq (g <$> x) (g <$> y) := by
  rw [map_eq_pure_bind, map_eq_pure_bind]
  exact hx.bind_eq fun _ => parallel_pure rfl

theorem parallel_get_bind {f g : State η → Run η γ} {W : γ → γ → Prop}
    (h : ∀ s t, R s t → Parallel R W (f s) (g t)) : Parallel R W (get >>= f) (get >>= g) :=
  fun s t hr => h s t hr s t hr

theorem Parallel.answer {x y : Run η Answer} (hx : Parallel R Eq x y) :
    Parallel R Eq (answer x) (answer y) := by
  intro s t hr
  rw [answer_apply, answer_apply, Option.map_eq_bind, Option.map_eq_bind]
  refine (hx s t hr).bind (fun _ _ _ h => .done rfl h) ?_
  rintro a _ _ _ rfl h
  exact .done rfl h

theorem parallel_find {lookup : State η → Text → Option α} {id : Text}
    (h : ∀ s t, R s t → lookup s id = lookup t id) :
    Parallel R Eq (find lookup id) (find lookup id) := by
  apply parallel_get_bind
  intro s t hr
  rw [h s t hr]
  cases lookup t id with
  | none => exact parallel_throw _
  | some a => exact parallel_pure rfl

/-- What is done inside two brackets may be related in another way. -/
theorem Parallel.bracket {enter enter' : State η → State η}
    {leave leave' : State η → State η → State η} (hx : Parallel R' V x y)
    (he : ∀ s t, R s t → R' (enter s) (enter' t))
    (hl : ∀ s t u v, R s t → R' u v → R (leave s u) (leave' t v)) :
    Parallel R V (bracket enter leave x) (bracket enter' leave' y) := by
  intro s t hr
  rw [bracket_apply, bracket_apply, Option.map_eq_bind, Option.map_eq_bind]
  exact (hx _ _ (he s t hr)).bind (fun _ _ _ h => .failed (hl _ _ _ _ hr h))
    fun _ _ _ _ hv h => .done hv (hl _ _ _ _ hr h)

theorem parallel_mapM {ι : Type} {f : ι → Run η α} (h : ∀ a, Parallel R Eq (f a) (f a))
    (as : List ι) : Parallel R Eq (as.mapM f) (as.mapM f) := by
  induction as with
  | nil => exact parallel_pure rfl
  | cons a as ih =>
    rw [List.mapM_cons]
    exact (h a).bind_eq fun _ => ih.bind_eq fun _ => parallel_pure rfl

theorem parallel_forM {ι : Type} {f g : ι → Run η PUnit} {as : List ι}
    (h : ∀ a ∈ as, Parallel R Eq (f a) (g a)) : Parallel R Eq (as.forM f) (as.forM g) := by
  induction as with
  | nil => exact parallel_pure rfl
  | cons a as ih =>
    refine (h a List.mem_cons_self).bind_eq fun _ => ?_
    exact ih fun b hb => h b (List.mem_cons_of_mem a hb)

end Shortcode.Run
