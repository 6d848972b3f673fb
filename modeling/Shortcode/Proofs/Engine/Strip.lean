import Shortcode.Engine
import Shortcode.Proofs.Session.Run

/-! What renderings and strippings have in common, and that a stripping always gives a text and does
nothing else but put on record what it removed. -/
namespace Shortcode
open Scan
variable {η : Type} {names : List Text} {t : Text} {start : Nat}

theorem Scan.scanAfter_no_names (start : Nat) (t : Text) : scanAfter [] 0 start t = [] := by
  induction t generalizing start with
  | nil => rfl
  | cons c t ih =>
    have hn : matchAt? [] start (c :: t) = none := by
      cases t <;> simp [matchAt?, opensAt?, nameAt?]
    rw [scanAfter, hn]
    exact ih (start + 1)

theorem stripText_no_names (content : Text) : stripText [] content = content := by
  rw [stripText, scan, scanAfter_no_names]
  rfl

/-- Between two states things were put on record and counted, no call of a handler among them, and
nothing else was changed. -/
def State.OnlyRecords (s t : State η) : Prop :=
  ∃ done counters, (∀ a ∈ done, Activity.visit? a = none) ∧
    t = { s with trail := s.trail ++ done, profile := counters }

namespace State.OnlyRecords
variable {s t u : State η}

theorem refl (s : State η) : s.OnlyRecords s :=
  ⟨[], s.profile, by simp, by simp⟩

theorem trans (h : s.OnlyRecords t) (ht : t.OnlyRecords u) : s.OnlyRecords u := by
  obtain ⟨first, c, hf, rfl⟩ := h
  obtain ⟨second, d, hs, rfl⟩ := ht
  refine ⟨first ++ second, d, ?_, by simp⟩
  intro a ha
  rcases List.mem_append.mp ha with ha | ha
  · exact hf a ha
  · exact hs a ha

theorem registry_eq (h : s.OnlyRecords t) (number : Nat) : t.registry number = s.registry number := by
  obtain ⟨done, c, -, rfl⟩ := h
  rfl

theorem visits_eq (h : s.OnlyRecords t) : t.visits = s.visits := by
  obtain ⟨done, c, hd, rfl⟩ := h
  simpa [State.visits, List.filterMap_eq_nil_iff] using hd

end State.OnlyRecords

theorem State.onlyRecords_record (s : State η) {a : Activity η} (ha : a.visit? = none)
    (count : Counters → Counters) :
    s.OnlyRecords { s with trail := s.trail ++ [a], profile := s.profile.map count } :=
  ⟨[a], s.profile.map count, by simpa using ha, rfl⟩

namespace Engine

/-- Some work on a content, counted first, with the handlers registered on entry and under the
configuration of the engine. Without handlers nothing is done. -/
def guarded (e : Engine) (content : Text) (a : Activity η) (count : Counters → Counters)
    (work : Registry (Registered η) → Run η Text) : Run η Text := do
  let handlers := (← get).registry e.registry
  if handlers.names.isEmpty then pure content
  else
    Run.record a count
    Run.withConfig e.config (work handlers)

theorem render_eq_guarded (call : Caller η) (e : Engine) (content : Text) :
    render call e content = guarded e content (.rendered content.length)
      (·.recordRender content.length) (fun handlers => do
        let replaced ← (scan handlers.names content).mapM fun m =>
          return (m, ← dispatch call handlers m.toTagParts)
        pure (splice content replaced)) := rfl

theorem strip_eq_guarded (e : Engine) (content : Text) :
    (strip e content : Run η Text) = guarded e content (.stripped content.length)
      (·.recordStrip content.length) (fun handlers => do
        (scan handlers.names content).forM strike
        pure (stripText handlers.names content)) := rfl

theorem forM_strike_apply (ms : List TagMatch) (s : State η) :
    ∃ t, (ms.forM strike : Run η PUnit) s = some (.ok ⟨⟩, t) ∧ s.OnlyRecords t := by
  induction ms generalizing s with
  | nil => exact ⟨s, rfl, State.OnlyRecords.refl s⟩
  | cons m ms ih =>
    obtain ⟨t, ht, hr⟩ := ih _
    have ha : Activity.visit? (.removed m.isEscaped : Activity η) = none := rfl
    have hs := s.onlyRecords_record ha (·.recordMatch m.isEscaped false)
    refine ⟨t, ?_, hs.trans hr⟩
    show (strike m >>= fun _ => ms.forM strike) s = _
    rw [Run.bind_apply]
    exact ht

/-- Stripping ends with the stripped text, whatever the handlers are, and calls none of them. -/
theorem strip_records (e : Engine) (content : Text) (s : State η) :
    ∃ t, strip e content s = some (.ok (stripText (s.registry e.registry).names content), t) ∧
      s.OnlyRecords t := by
  rw [strip, Run.bind_apply, Run.get_apply]
  dsimp only [Option.bind_some]
  cases hn : (s.registry e.registry).names with
  | nil =>
    refine ⟨s, ?_, State.OnlyRecords.refl s⟩
    rw [stripText_no_names]
    rfl
  | cons name names =>
    obtain ⟨-, ht, done, counters, hd, rfl⟩ := forM_strike_apply (scan (name :: names) content)
      { s with
        trail := s.trail ++ [.stripped content.length]
        profile := s.profile.map (·.recordStrip content.length)
        config := e.config }
    refine ⟨{ s with trail := s.trail ++ [.stripped content.length] ++ done, profile := counters },
      ?_, .stripped content.length :: done, counters, ?_, ?_⟩
    · rw [List.isEmpty_cons, if_neg Bool.false_ne_true, Run.bind_apply, Run.record_apply]
      dsimp only [Option.bind_some]
      rw [Run.withConfig_apply, Run.bind_apply, ht]
      rfl
    · exact List.forall_mem_cons.mpr ⟨rfl, hd⟩
    · simp

theorem strip_apply (e : Engine) (content : Text) (s : State η) :
    ∃ t, strip e content s = some (.ok (stripText (s.registry e.registry).names content), t) := by
  obtain ⟨t, ht, -⟩ := strip_records e content s
  exact ⟨t, ht⟩

end Engine
end Shortcode
