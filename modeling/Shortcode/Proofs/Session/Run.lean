import Shortcode.Session.Run

/-! What the parts of a computation do to the state, and what a computation for each of a list
does. -/
namespace Shortcode.Run
variable {η α β : Type} {f : α → Run η β} {R : α → State η → β → State η → Prop}
  {a : α} {as : List α} {bs : List β} {s t : State η} {e : Fault}

@[simp] theorem record_apply (a : Activity η) (count : Counters → Counters) (s : State η) :
    record a count s =
      some (.ok ⟨⟩, { s with trail := s.trail ++ [a], profile := s.profile.map count }) := rfl

theorem withConfig_apply (c : Config) (part : Run η α) (s : State η) :
    withConfig c part s = (part { s with config := c }).map fun r =>
      (r.1, { r.2 with config := s.config }) := rfl

/-- A computation in two parts ends where the first part fails or where the second one ends. -/
theorem bind_eq_some {x : Run η α} {r : Except Fault β} (h : (x >>= f) s = some (r, t)) :
    (∃ e, x s = some (.error e, t) ∧ r = .error e) ∨
      ∃ a u, x s = some (.ok a, u) ∧ f a u = some (r, t) := by
  rw [bind_apply] at h
  cases hx : x s with
  | none => simp [hx] at h
  | some p =>
    obtain ⟨e | a, u⟩ := p
    · simp only [hx, Option.bind_some, Option.some.injEq, Prod.mk.injEq] at h
      obtain ⟨rfl, rfl⟩ := h
      exact Or.inl ⟨e, rfl, rfl⟩
    · simp only [hx, Option.bind_some] at h
      exact Or.inr ⟨a, u, rfl, h⟩

/-- Two computations in two parts end alike if their first parts do, and their second parts where the
first ones end with a value. -/
theorem bind_apply_congr {x y : Run η α} {g : α → Run η β} (hx : x s = y s)
    (hf : ∀ a t, y s = some (.ok a, t) → f a t = g a t) : (x >>= f) s = (y >>= g) s := by
  rw [bind_apply, bind_apply, hx]
  cases hy : y s with
  | none => rfl
  | some p =>
    obtain ⟨e | a, t⟩ := p
    · rfl
    · exact hf a t hy

/-- Where a part ends there is an answer to it. -/
theorem answer_eq_some {x : Run η Answer} {r : Except Fault Answer}
    (h : answer x s = some (r, t)) : (∃ a, r = .ok a) ∧ ∃ r', x s = some (r', t) := by
  rw [answer_apply] at h
  obtain ⟨⟨e | a, u⟩, hs, hp⟩ := Option.map_eq_some_iff.mp h
  · obtain ⟨rfl, rfl⟩ := Prod.mk.inj hp
    exact ⟨⟨_, rfl⟩, _, hs⟩
  · obtain ⟨rfl, rfl⟩ := Prod.mk.inj hp
    exact ⟨⟨_, rfl⟩, _, hs⟩

theorem find_apply {lookup : State η → Text → Option α} {id : Text} (h : lookup s id = some a) :
    find lookup id s = some (.ok a, s) := by
  rw [find, bind_apply, get_apply, Option.bind_some]
  dsimp only
  rw [h]
  rfl

/-- One step for each of a list, each from the state in which the one before it ends. -/
inductive Each (R : α → State η → β → State η → Prop) :
    List α → State η → List β → State η → Prop
  | nil {s : State η} : Each R [] s [] s
  | cons {a : α} {as : List α} {b : β} {bs : List β} {s t u : State η} (h : R a s b t)
      (he : Each R as t bs u) : Each R (a :: as) s (b :: bs) u

theorem Each.length_eq (h : Each R as s bs t) : bs.length = as.length := by
  induction h with
  | nil => rfl
  | cons _ _ ih => exact congrArg Nat.succ ih

theorem Each.zip (h : Each R as s bs t) :
    Each (fun a s (p : α × β) t => p.1 = a ∧ R a s p.2 t) as s (as.zip bs) t := by
  induction h with
  | nil => exact Each.nil
  | cons h _ ih => exact Each.cons ⟨rfl, h⟩ ih

/-- Steps are of another kind too, if each of them is where the ones in front of it lead to. -/
theorem Each.imp_of_prefix {R' : α → State η → β → State η → Prop} (h : Each R as s bs t)
    (hr : ∀ before a after cs u b v, as = before ++ a :: after → Each R before s cs u →
      R a u b v → R' a u b v) : Each R' as s bs t := by
  induction h with
  | nil => exact Each.nil
  | @cons a as b bs s t u h _ ih =>
    refine Each.cons (hr [] a as [] s b t rfl Each.nil h) (ih ?_)
    rintro before a' after cs v b' w rfl he hb
    exact hr (a :: before) a' after (b :: cs) v b' w rfl (Each.cons h he) hb

theorem mapM_cons_apply (f : α → Run η β) (a : α) (as : List α) (s : State η) :
    (a :: as).mapM f s = (f a s).bind fun
      | (.ok b, t) => (as.mapM f t).map fun r => (r.1.map (b :: ·), r.2)
      | (.error e, t) => some (.error e, t) := by
  rw [List.mapM_cons, bind_apply]
  congr 1
  funext r
  obtain ⟨_ | b, t⟩ := r
  · rfl
  · dsimp only
    rw [bind_apply]
    cases as.mapM f t with
    | none => rfl
    | some r =>
      obtain ⟨_ | bs, u⟩ := r <;> rfl

/-- After the steps for the first part of a list, the rest goes on from the state they end in. -/
theorem mapM_append_of_each (hf : ∀ a s b t, R a s b t → f a s = some (.ok b, t))
    (h : Each R as s bs t) (rest : List α) :
    (as ++ rest).mapM f s = (rest.mapM f t).map fun r => (r.1.map (bs ++ ·), r.2) := by
  induction h with
  | @nil s =>
    cases hr : rest.mapM f s with
    | none => exact hr
    | some r =>
      obtain ⟨_ | cs, u⟩ := r
      · exact hr
      · exact hr
  | @cons a as b bs s t u ha _ ih =>
    rw [List.cons_append, mapM_cons_apply, hf a s b t ha, Option.bind_some]
    dsimp only
    rw [ih]
    cases rest.mapM f u with
    | none => rfl
    | some r =>
      obtain ⟨_ | cs, u⟩ := r <;> rfl

theorem mapM_of_each (hf : ∀ a s b t, R a s b t → f a s = some (.ok b, t))
    (h : Each R as s bs t) : as.mapM f s = some (.ok bs, t) := by
  have ha := mapM_append_of_each hf h []
  rw [List.append_nil] at ha
  rw [ha]
  exact congrArg (fun l => some (Except.ok l, t)) (List.append_nil bs)

/-- The first step that fails ends the whole, with its fault and its state. -/
theorem mapM_of_each_error {after : List α} {u : State η}
    (hf : ∀ a s b t, R a s b t → f a s = some (.ok b, t)) (h : Each R as s bs t)
    (ha : f a t = some (.error e, u)) : (as ++ a :: after).mapM f s = some (.error e, u) := by
  rw [mapM_append_of_each hf h, mapM_cons_apply, ha]
  rfl

theorem mapM_of_each_none {after : List α} (hf : ∀ a s b t, R a s b t → f a s = some (.ok b, t))
    (h : Each R as s bs t) (ha : f a t = none) : (as ++ a :: after).mapM f s = none := by
  rw [mapM_append_of_each hf h, mapM_cons_apply, ha]
  rfl

end Shortcode.Run
