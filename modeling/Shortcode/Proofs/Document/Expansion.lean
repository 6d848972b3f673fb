import Shortcode.Proofs.Document.Nested
import Shortcode.Proofs.Document.Scan
import Shortcode.Proofs.Engine.Render
import Shortcode.Session.Exec

/-! A rendering does not expand what an element encloses, but its handler can have it rendered. If all
handlers do so, a well-nested document is expanded level by level, whatever its depth. -/
namespace Shortcode
open Scan
variable {η : Type} {behave : η → Call → Nat → Program η} {call : Caller η} {e : Engine}
  {handlers : Registry (Registered η)} {s u : State η} {id content body out : Text} {m : TagMatch}
  {depth start : Nat} {names : List Text}

/-- What the handlers give for an element that stands alone, by its name, and what they put around
an enclosed text. -/
structure Wording where
  alone : Text → Text
  before : Text → Text
  after : Text → Text

variable {w : Wording}

/-- The elements of a document replaced, from the innermost on. -/
def Forest.expansion (w : Wording) (t : Text) : Forest → Text
  | empty => t
  | alone name _ _ chunk more => t ++ w.alone name ++ more.expansion w chunk
  | around name _ first body chunk more =>
    t ++ (w.before name ++ body.expansion w first ++ w.after name) ++ more.expansion w chunk

/-- What a handler does that has an enclosed text rendered by an engine. -/
def expander (w : Wording) (engine name : Text) (c : Call) : Program η :=
  match c.content with
  | none => .done (w.alone name) []
  | some body => .step (.render engine body)
      (.withText fun t => .done (w.before name ++ t ++ w.after name) [])

/-- Each name has a handler, which has what its tag encloses rendered by the engine. -/
def Expands (behave : η → Call → Nat → Program η) (w : Wording) (engine : Text)
    (handlers : Registry (Registered η)) (names : List Text) : Prop :=
  ∀ name ∈ names, ∃ h, handlers.get? name = some h ∧
    ∀ c n, behave h.handler c n = expander w engine name c

theorem Expands.subset (hx : Expands behave w id handlers names) :
    names ⊆ handlers.names := by
  intro name hm
  obtain ⟨h, hg, -⟩ := hx name hm
  exact OrderedMap.exists_get?_iff.mp ⟨h, hg⟩

theorem Forest.expansion_append (w : Wording) (t v : Text) (f : Forest) :
    f.expansion w (t ++ v) = t ++ f.expansion w v := by
  cases f <;> simp [expansion]

/-- What a state holds under numbers and identifiers. -/
def State.directory (s : State η) : List (Registry (Registered η)) × OrderedMap Text (Item η) :=
  (s.registries, s.items)

/-- The identifier stands for the engine, which has these handlers. -/
def State.Offers (s : State η) (id : Text) (e : Engine) (handlers : Registry (Registered η)) :
    Prop :=
  s.engine? id = some e ∧ s.registry e.registry = handlers

theorem State.Offers.of_directory (h : s.Offers id e handlers) (hd : u.directory = s.directory) :
    u.Offers id e handlers := by
  obtain ⟨hr, hi⟩ := Prod.mk.inj hd
  obtain ⟨he, hh⟩ := h
  refine ⟨?_, ?_⟩
  · rw [State.engine?, hi]
    exact he
  · rw [State.registry, hr]
    exact hh

theorem exec_expander_alone {c : Call} (hc : c.content = none) (name : Text) :
    (expander w id name c).exec call s = some (.ok (w.alone name, []), s) := by
  rw [expander, hc]
  rfl

theorem exec_expander_around {c : Call} (hc : c.content = some body) (he : s.engine? id = some e)
    (hr : e.render call body s = some (.ok out, u)) (name : Text) :
    (expander w id name c).exec call s =
      some (.ok (w.before name ++ out ++ w.after name, []), u) := by
  have ha : (Step.render id body).exec call s = some (.ok (.text out), u) := by
    show (Run.find State.engine? id >>= fun e => Run.render call e body) s = _
    rw [Run.bind_apply, Run.find_apply he, Option.bind_some]
    show (Answer.text <$> e.render call body) s = _
    rw [map_eq_pure_bind, Run.bind_apply, hr]
    rfl
  rw [expander, hc]
  show (Run.answer ((Step.render id body).exec call) >>= _) s = _
  rw [Run.bind_apply, Run.answer_apply, ha]
  rfl

namespace Engine

/-- A match of a tag is handled if what its handler does ends with a text, wherever it begins. -/
theorem exists_handled (hx : Expands behave w id handlers names) (hm : m.tag ∈ names)
    (he : m.isEscaped = false)
    (hp : ∀ b : State η, b.directory = s.directory → ∃ u,
      (expander w id m.tag (callFor m s)).exec (invoke behave depth) b = some (.ok (out, []), u) ∧
        u.directory = s.directory) :
    ∃ u, Handled (invoke behave (depth + 1)) handlers m s (m.leading ++ out ++ m.trailing) u ∧
      u.directory = s.directory := by
  obtain ⟨h, hg, hb⟩ := hx m.tag hm
  obtain ⟨u, hu, hd⟩ := hp (begun h (callFor m s) s) rfl
  have hs : ¬ Spares m s := by
    rintro ⟨ht, -⟩
    rw [he] at ht
    cases ht
  have hc : Calls (invoke behave (depth + 1)) handlers m s (some (.ok (out, []), u)) := by
    refine ⟨hs, h, hg, ?_⟩
    rw [invoke, hb]
    exact hu
  exact ⟨_, Handled.called hc, hd⟩

/-- The matches of a text that begins at `start` are handled one after another, and with the texts in
their places it reads `out`. -/
def Unfolds (call : Caller η) (handlers : Registry (Registered η)) (start : Nat)
    (content out : Text) (s : State η) : Prop :=
  ∃ outs u, Run.Each (Handled call handlers) (scanAfter handlers.names 0 start content) s outs u ∧
    u.directory = s.directory ∧
    spliceFrom start content ((scanAfter handlers.names 0 start content).zip outs) = out

/-- The match of the first element takes a character of the chunk behind it, so the rest of the
document begins with what is left of that chunk. -/
theorem unfolds_of_first {el : Element} {t chunk : Text} {more : Forest}
    (hn : ∀ n ∈ handlers.names, IsWordName n) (hel : el.wrapped = false)
    (hw : Document.WellFormed handlers.names t ((el, chunk) :: more.elements))
    (hm : ∀ m, el.ReadAs m → ∃ u, Handled call handlers m s (m.leading ++ out ++ m.trailing) u ∧
      u.directory = s.directory)
    (hrest : ∀ rest start u, rest <:+ chunk → u.directory = s.directory →
      Unfolds call handlers start (more.print rest) (more.expansion w rest) u) :
    Unfolds call handlers start (Document.print t ((el, chunk) :: more.elements))
      (t ++ out ++ more.expansion w chunk) s := by
  obtain ⟨m, gap, rest, hread, -, hfront, hback, hscan, hsplice⟩ :=
    Document.scan_element hn hw start
  obtain ⟨u, hu, hd⟩ := hm m hread
  simp only [Element.front, Element.back, hel, Bool.false_eq_true, if_false, List.append_nil,
    List.nil_append] at hfront hback
  obtain ⟨outs, v, he, hv, hout⟩ := hrest rest m.stop u ⟨m.trailing, hback.symm⟩ hd
  rw [Unfolds, hscan]
  refine ⟨_, v, Run.Each.cons hu he, hv.trans hd, ?_⟩
  calc _ = gap ++ (m.leading ++ out ++ m.trailing ++ more.expansion w rest) := by
        rw [List.zip_cons_cons, hsplice, ← hout]
        rfl
    _ = t ++ out ++ more.expansion w chunk := by
        rw [hfront, hback, Forest.expansion_append]
        simp

theorem exists_render_of_unfolds (hs : s.Offers id e handlers)
    (h : Unfolds call handlers 0 content out (entered e content s)) :
    ∃ u, e.render call content s = some (.ok out, u) ∧ u.directory = s.directory := by
  obtain ⟨-, rfl⟩ := hs
  obtain ⟨outs, u, he, hd, hout⟩ := h
  obtain ⟨v, hr, hv⟩ := exists_render_of_each he
  rw [← splice_eq_interleave (inOrder_scan _ content) _ he.length_eq] at hr
  refine ⟨v, ?_, ?_⟩
  · rw [hr, ← hout]
    rfl
  · rcases hv with rfl | rfl
    · rfl
    · exact hd

/-- By induction on the document: what an element encloses is rendered by its handler, and so one
level deeper. -/
theorem unfolds (hx : Expands behave w id handlers names)
    (hn : ∀ n ∈ handlers.names, IsWordName n) (f : Forest) :
    ∀ (t : Text) (depth start : Nat) (s : State η), WellNested names t f → f.height ≤ depth →
      s.Offers id e handlers →
        Unfolds (invoke behave depth) handlers start (f.print t) (f.expansion w t) s := by
  induction f with
  | empty =>
    intro t depth start s hw hd hs
    have hscan : scanAfter handlers.names 0 start (t ++ []) = [] :=
      scanAfter_gap (by cases hw; assumption) fun _ => rfl
    rw [List.append_nil] at hscan
    rw [Unfolds, Forest.print_empty, hscan]
    exact ⟨[], s, Run.Each.nil, rfl, rfl⟩
  | alone name attributes slash chunk more ih =>
    intro t depth start s hw hd hs
    have hform := (hw.mono hx.subset).wellFormed hn
    cases hw with
    | alone ht hh hl hu hmore =>
      simp only [Forest.height, Nat.max_le] at hd
      obtain ⟨depth, rfl⟩ := Nat.exists_eq_add_of_le' hd.1
      apply unfolds_of_first hn rfl hform
      · intro m hm
        have hc : (callFor m s).content = none := by
          show m.content = none
          rw [hm.content]
          cases slash <;> rfl
        have htag : m.tag = name := hm.tag
        apply exists_handled hx (htag ▸ hh.name_mem) hm.isEscaped
        intro b hb
        rw [htag]
        exact ⟨b, exec_expander_alone hc name, hb⟩
      · intro rest start u hrest hdir
        exact ih rest _ start u (hmore.of_suffix hrest) hd.2 (hs.of_directory hdir)
  | around name attributes first body chunk more ihb ih =>
    intro t depth start s hw hd hs
    have hform := (hw.mono hx.subset).wellFormed hn
    cases hw with
    | around ht hh hb hne hi hu hmore =>
      simp only [Forest.height, Nat.max_le] at hd
      obtain ⟨depth, rfl⟩ := Nat.exists_eq_add_of_le' (Nat.le_of_add_left_le hd.1)
      apply unfolds_of_first hn rfl hform
      · intro m hm
        have htag : m.tag = name := hm.tag
        apply exists_handled hx (htag ▸ hh.name_mem) hm.isEscaped
        intro b hdir
        have hoffers := hs.of_directory hdir
        -- the handler renders one level deeper, and the body is one level lower
        have hinner := ihb first depth 0 (entered e (body.print first) b) hb (by omega)
          (hoffers.of_directory rfl)
        obtain ⟨u, hr, hu⟩ := exists_render_of_unfolds hoffers hinner
        rw [htag]
        exact ⟨u, exec_expander_around hm.content hoffers.1 hr name, hu.trans hdir⟩
      · intro rest start u hrest hdir
        exact ih rest _ start u (hmore.of_suffix hrest) hd.2 (hs.of_directory hdir)

/-- Handlers that render what they enclose expand a well-nested document on all levels. -/
theorem render_print_eq_expansion {f : Forest} (t : Text)
    (he : s.engine? id = some e) (hn : ∀ n ∈ (s.registry e.registry).names, IsWordName n)
    (hx : Expands behave w id (s.registry e.registry) names) (hw : WellNested names t f)
    (hd : f.height ≤ depth) :
    ∃ u, e.render (invoke behave depth) (f.print t) s = some (.ok (f.expansion w t), u) := by
  have hs : s.Offers id e (s.registry e.registry) := ⟨he, rfl⟩
  have hu := unfolds hx hn f t depth 0 (entered e (f.print t) s) hw hd (hs.of_directory rfl)
  obtain ⟨u, hr, -⟩ := exists_render_of_unfolds hs hu
  exact ⟨u, hr⟩

/-- An engine whose handlers are known by the names they serve. -/
def oneEngine : State Text where
  registries :=
    [(Registry.empty.add ['a'] (some ⟨⟨[], ['a']⟩, 0⟩)).add ['b'] (some ⟨⟨[], ['b']⟩, 1⟩)]
  items := OrderedMap.empty.insert ['i'] (.engine ⟨.default, 0⟩)

/-- An opening bracket for what stands alone, and a full stop behind what is enclosed. -/
def angled : Wording := ⟨fun n => '<' :: n, fun n => n, fun _ => ['.']⟩

/-- The slash form of one tag inside another one. -/
def slashInside : Forest :=
  .around ['a'] [] ['y'] (.alone ['b'] [] true [] .empty) ['z'] .empty

/-- What the inner tag gives stands within what the outer one puts around it. -/
theorem render_print_eq_expansion_two : ∃ u,
    render (invoke (fun n c _ => expander angled ['i'] n c) 2) ⟨.default, 0⟩
      ['x', '[', 'a', ']', 'y', '[', 'b', '/', ']', '[', '/', 'a', ']', 'z'] oneEngine =
        some (.ok ['x', 'a', 'y', '<', 'b', '.', 'z'], u) := by
  have hin : WellNested [['a'], ['b']] ['y'] (.alone ['b'] [] true [] .empty) :=
    .alone (by decide) ⟨by decide, by decide, by decide, nofun, nofun⟩ not_false
      (fun h => (h rfl).elim) (.chunk (by decide))
  have hw : WellNested [['a'], ['b']] ['x'] slashInside :=
    .around (by decide) ⟨by decide, by decide, by decide, nofun, nofun⟩ hin (by decide) not_false
      (fun h => (h rfl).elim) (.chunk (by decide))
  have hx : Expands (fun n c _ => expander angled ['i'] n c) angled ['i'] (oneEngine.registry 0)
      [['a'], ['b']] := by
    intro name hm
    simp only [List.mem_cons, List.not_mem_nil, or_false] at hm
    rcases hm with rfl | rfl
    · exact ⟨_, rfl, fun _ _ => rfl⟩
    · exact ⟨_, rfl, fun _ _ => rfl⟩
  have he : oneEngine.engine? ['i'] = some ⟨.default, 0⟩ := rfl
  have hn : ∀ n ∈ (oneEngine.registry 0).names, IsWordName n := by decide
  have hd : slashInside.height ≤ 2 := by decide
  obtain ⟨u, hu⟩ := render_print_eq_expansion ['x'] he hn hx hw hd
  exact ⟨u, hu⟩

end Engine
end Shortcode
