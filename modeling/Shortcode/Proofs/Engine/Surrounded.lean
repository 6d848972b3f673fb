import Shortcode.Proofs.Scan.Surrounded
import Shortcode.Proofs.Session.Transparent

/-! Plain text around a content is inert: it comes back as it is, and what is rendered or stripped
between is the same. -/
namespace Shortcode
open Scan
variable {u v c t : Text} {names : List Text} {start : Nat} {m : TagMatch} {ms : List TagMatch}
  {rs : List (TagMatch × Text)}

/-! Putting texts in the place of matches. -/

theorem spliceFrom_cons {d : Char}
    (h : ∀ r ∈ rs, start + 1 ≤ r.1.start ∧ r.1.start < r.1.stop) :
    spliceFrom start (d :: t) rs = d :: spliceFrom (start + 1) t rs := by
  rw [← List.singleton_append, spliceFrom_append]
  · rfl
  · exact fun r hr => h r (List.mem_of_mem_head? hr)

theorem spliceFrom_followed (h : Found names start t ms) (hrs : rs.map Prod.fst = ms) (v : Text) :
    spliceFrom start (t ++ v) (rs.map fun r => (r.1.followed v, r.2 ++ r.1.newTrailing v)) =
      spliceFrom start t rs ++ v := by
  induction h generalizing rs with
  | nil =>
    obtain rfl := List.map_eq_nil_iff.mp hrs
    rfl
  | @skip start c rest ms hm hf ih =>
    have hlate : ∀ r ∈ rs, start + 1 ≤ r.1.start ∧ r.1.start < r.1.stop := fun r hr =>
      hf.le_start r.1 (hrs ▸ List.mem_map_of_mem hr)
    rw [List.cons_append, spliceFrom_cons hlate, spliceFrom_cons, ih hrs]
    · rfl
    · intro r hr
      obtain ⟨q, hq, rfl⟩ := List.mem_map.mp hr
      obtain ⟨hs, hp⟩ := hlate q hq
      exact ⟨hs, Nat.lt_add_right _ hp⟩
  | @take start m tail ms hm hf ih =>
    obtain ⟨⟨m', out⟩, rs, rfl, hfst, rfl⟩ := List.map_eq_cons_iff.mp hrs
    obtain rfl : m = m' := hfst.symm
    have hs := start_of_matchAt? hm
    have hp := stop_of_matchAt? hm
    rw [List.map_cons, spliceFrom_match hs hp]
    by_cases ht : m.trailing = []
    · obtain rfl := tail_eq_nil_of_trailing hm ht
      obtain rfl : rs = [] := by
        obtain h : [] = rs.map Prod.fst := hf.eq_scanAfter
        exact List.map_eq_nil_iff.mp h.symm
      have htext : m.text ++ [] ++ v = (m.followed v).text ++ v.tail := by
        simp [TagMatch.followed, TagMatch.newTrailing, ht, take_one_append_tail]
      have hstop : (m.followed v).stop = start + (m.followed v).text.length := by
        simp [TagMatch.followed, hp, Nat.add_assoc]
      have hstart : (m.followed v).start = start := hs
      rw [htext, spliceFrom_match hstart hstop]
      simp [TagMatch.newTrailing, ht, spliceFrom, take_one_append_tail]
    · have hnew : m.newTrailing v = [] := if_neg ht
      rw [TagMatch.followed_of_trailing ht, hnew, List.append_nil, List.append_assoc,
        spliceFrom_match hs hp, ih rfl, List.append_assoc]

theorem spliceFrom_shift (k start : Nat) (t : Text) (rs : List (TagMatch × Text)) :
    spliceFrom (k + start) t (rs.map fun r => (r.1.shift k, r.2)) = spliceFrom start t rs := by
  induction rs generalizing start t with
  | nil => rfl
  | cons r rs ih =>
    rw [List.map_cons, spliceFrom, spliceFrom, TagMatch.shift, Nat.add_sub_add_left,
      Nat.add_sub_add_left, ih]

theorem Scan.Found.pairwise (h : Found names start t ms) :
    ms.Pairwise fun a b => a.stop ≤ b.start := by
  induction h with
  | nil => exact .nil
  | skip _ _ ih => exact ih
  | take _ hf ih => exact .cons (fun m hm => (hf.le_start m hm).1) ih

/-- What takes the place of a match, with the characters that the match gets from around. -/
def widen (u v : Text) (r : TagMatch × Text) : TagMatch × Text :=
  (r.1.between u v, r.1.newLeading u ++ r.2 ++ r.1.newTrailing v)

theorem take_append_getLast? (u c : Text) :
    (u ++ c).take (u.length - u.getLast?.toList.length) ++ u.getLast?.toList = u := by
  rcases List.eq_nil_or_concat' u with rfl | ⟨w, x, rfl⟩
  · rfl
  · simp

/-- Matches that do not begin with their brackets at the front are only shifted. -/
theorem map_preceded_of_late (hr : ∀ r ∈ rs, ¬ (r.1.start = 0 ∧ r.1.leading = [])) :
    rs.map (fun r => (r.1.preceded u, r.1.newLeading u ++ r.2)) =
      rs.map fun r => (r.1.shift u.length, r.2) := by
  refine List.map_congr_left fun r h => ?_
  have hnew : r.1.newLeading u = [] := if_neg (hr r h)
  rw [TagMatch.preceded_eq_shift (hr r h), hnew, List.nil_append]

theorem splice_preceded (hrs : rs.map Prod.fst = scan names c) (u : Text) :
    splice (u ++ c) (rs.map fun r => (r.1.preceded u, r.1.newLeading u ++ r.2)) =
      u ++ splice c rs := by
  have hfound := found_scan names c
  rw [← hrs] at hfound
  have hordered := List.pairwise_map.mp hfound.pairwise
  have hplaced : ∀ r ∈ rs, r.1.start < r.1.stop := fun r hr =>
    (hfound.le_start r.1 (List.mem_map_of_mem hr)).2
  cases rs with
  | nil => rfl
  | cons r rs =>
    have hlate : ∀ q ∈ rs, ¬ (q.1.start = 0 ∧ q.1.leading = []) := by
      rintro q hq ⟨hs, -⟩
      have hle := List.rel_of_pairwise_cons hordered hq
      have hlt := hplaced r List.mem_cons_self
      omega
    by_cases hr : r.1.start = 0 ∧ r.1.leading = []
    · obtain ⟨hs, hl⟩ := hr
      have hnew : r.1.newLeading u = u.getLast?.toList := if_pos ⟨hs, hl⟩
      have hstart : (r.1.preceded u).start = u.length - u.getLast?.toList.length := by
        simp [TagMatch.preceded, hnew, hs]
      have hstop : (r.1.preceded u).stop = u.length + r.1.stop := rfl
      rw [List.map_cons, map_preceded_of_late hlate, splice, splice, spliceFrom, spliceFrom, hstart,
        hstop, hnew, hs, Nat.sub_zero, Nat.sub_zero, Nat.sub_zero, List.drop_length_add_append, spliceFrom_shift,
        ← List.append_assoc, take_append_getLast?]
      simp
    · rw [map_preceded_of_late (List.forall_mem_cons.mpr ⟨hr, hlate⟩), splice, spliceFrom_append,
        Nat.zero_add]
      · have hs := spliceFrom_shift u.length 0 c (r :: rs)
        rw [Nat.add_zero] at hs
        rw [hs, splice]
      · rintro q hq
        obtain rfl : (r.1.shift u.length, r.2) = q := by simpa using hq
        have hlt := hplaced r List.mem_cons_self
        simp only [TagMatch.shift]
        omega

theorem splice_between (hv : ']' ∉ v) (hb : '[' ∉ v) (hrs : rs.map Prod.fst = scan names c)
    (u : Text) : splice (u ++ c ++ v) (rs.map (widen u v)) = u ++ splice c rs ++ v := by
  have hfollowed : (rs.map fun r => (r.1.followed v, r.2 ++ r.1.newTrailing v)).map Prod.fst =
      scan names (c ++ v) := by
    rw [scan_append hv hb, ← hrs]
    simp
  have hwiden : rs.map (widen u v) = (rs.map fun r =>
      (r.1.followed v, r.2 ++ r.1.newTrailing v)).map fun r =>
        (r.1.preceded u, r.1.newLeading u ++ r.2) := by
    rw [List.map_map]
    refine List.map_congr_left fun r _ => ?_
    rw [widen, List.append_assoc]
    rfl
  rw [hwiden, List.append_assoc, splice_preceded hfollowed, splice,
    spliceFrom_followed (found_scan names c) hrs, ← splice, List.append_assoc]

namespace TagMatch

theorem context_between (u v : Text) (m : TagMatch) :
    (m.between u v).context = m.newLeading u ++ m.context ++ m.newTrailing v := by
  show (m.newLeading u ++ m.leading) ++ (m.trailing ++ m.newTrailing v) =
    m.newLeading u ++ (m.leading ++ m.trailing) ++ m.newTrailing v
  simp only [List.append_assoc]

theorem newLeading_append_eq_iff (hu : '[' ∉ u) (m : TagMatch) :
    m.newLeading u ++ m.leading = ['['] ↔ m.leading = ['['] := by
  by_cases h : m.start = 0 ∧ m.leading = []
  · rw [newLeading, if_pos h, h.2, List.append_nil]
    refine iff_of_false (fun hx => hu (List.mem_of_getLast? (a := '[') ?_)) (by rintro ⟨⟩)
    cases hlast : u.getLast? with
    | none => simp [hlast] at hx
    | some x => simpa [hlast] using hx
  · rw [newLeading, if_neg h, List.nil_append]

theorem append_newTrailing_eq_iff (hv : ']' ∉ v) (m : TagMatch) :
    m.trailing ++ m.newTrailing v = [']'] ↔ m.trailing = [']'] := by
  by_cases h : m.trailing = []
  · rw [newTrailing, if_pos h, h, List.nil_append]
    refine iff_of_false (fun hx => hv (List.mem_of_mem_take (i := 1) ?_)) (by rintro ⟨⟩)
    simp [hx]
  · rw [newTrailing, if_neg h, List.append_nil]

theorem isEscaped_iff (p : TagParts) : p.isEscaped = true ↔ p.leading = ['['] ∧ p.trailing = [']'] := by
  simp [TagParts.isEscaped]

/-- What a tag gets from around is no bracket that would escape it. -/
theorem isEscaped_between (hu : '[' ∉ u) (hv : ']' ∉ v) (m : TagMatch) :
    (m.between u v).isEscaped = m.isEscaped := by
  rw [Bool.eq_iff_iff, isEscaped_iff, isEscaped_iff]
  exact and_congr (newLeading_append_eq_iff hu m) (append_newTrailing_eq_iff hv m)

/-- An escaped tag gets nothing. -/
theorem new_eq_nil_of_isEscaped {m : TagMatch} (h : m.isEscaped = true) (u v : Text) :
    m.newLeading u = [] ∧ m.newTrailing v = [] := by
  obtain ⟨hl, ht⟩ := (isEscaped_iff m.toTagParts).mp h
  simp [newLeading, newTrailing, hl, ht]

end TagMatch

theorem stripText_between (hu : '[' ∉ u) (hv : ']' ∉ v) (hb : '[' ∉ v) (hn : ∀ n ∈ names, '[' ∉ n)
    (c : Text) : stripText names (u ++ c ++ v) = u ++ stripText names c ++ v := by
  have hfst : ((scan names c).map fun m => (m, m.context)).map Prod.fst = scan names c := by
    simp [Function.comp_def]
  rw [stripText, scan_between hu hv hb hn, stripText, ← splice_between hv hb hfst, List.map_map,
    List.map_map]
  congr 1
  refine List.map_congr_left fun m _ => ?_
  simp [widen, TagMatch.context_between]

theorem Run.map_apply {η α β : Type} (x : Run η α) (g : α → β) (s : State η) :
    (g <$> x) s = (x s).map fun r => (r.1.map g, r.2) := by
  rw [map_eq_pure_bind, bind_apply]
  cases x s with
  | none => rfl
  | some r => obtain ⟨_ | _, _⟩ := r <;> rfl

theorem Run.map_withConfig {η α β : Type} (c : Config) (x : Run η α) (g : α → β) :
    g <$> withConfig c x = withConfig c (g <$> x) := by
  funext s
  rw [map_apply, withConfig_apply, withConfig_apply, map_apply, Option.map_map, Option.map_map]
  rfl

namespace Engine
variable {η : Type} {call : Caller η} {handlers : Registry (Registered η)}

/-- A handler is told the same of a tag in other surroundings. -/
theorem dispatch_between (hu : '[' ∉ u) (hv : ']' ∉ v) (call : Caller η)
    (handlers : Registry (Registered η)) (m : TagMatch) :
    dispatch call handlers (m.between u v).toTagParts =
      (fun out => m.newLeading u ++ out ++ m.newTrailing v) <$>
        dispatch call handlers m.toTagParts := by
  have he := TagMatch.isEscaped_between hu hv m
  rw [dispatch, dispatch, map_bind]
  congr 1
  funext s
  dsimp only
  rw [he]
  split
  next hs =>
    rw [Bool.and_eq_true] at hs
    obtain ⟨hl, ht⟩ := TagMatch.new_eq_nil_of_isEscaped hs.1 u v
    have htext : (m.between u v).text = m.text := by
      show m.newLeading u ++ (m.text ++ m.newTrailing v) = m.text
      rw [hl, ht, List.nil_append, List.append_nil]
    rw [map_bind, htext, hl, ht]
    simp
  next =>
    have htag : (m.between u v).toTagParts.tag = m.toTagParts.tag := rfl
    rw [htag]
    cases handlers.get? m.toTagParts.tag with
    | none => rfl
    | some h =>
      dsimp only
      rw [map_bind]
      refine congrArg (visit call h _ >>= ·) (funext fun out => ?_)
      rw [map_pure]
      show pure ((m.newLeading u ++ m.leading) ++ out ++ (m.trailing ++ m.newTrailing v)) = _
      simp only [List.append_assoc]

theorem replacement_between (hu : '[' ∉ u) (hv : ']' ∉ v) (call : Caller η)
    (handlers : Registry (Registered η)) (m : TagMatch) :
    replacement call handlers (m.between u v) = widen u v <$> replacement call handlers m := by
  rw [replacement, replacement, dispatch_between hu hv, map_bind, bind_map_left]
  rfl

theorem mapM_replacement_between (hu : '[' ∉ u) (hv : ']' ∉ v) (call : Caller η)
    (handlers : Registry (Registered η)) (ms : List TagMatch) :
    (ms.map (·.between u v)).mapM (replacement call handlers) =
      List.map (widen u v) <$> ms.mapM (replacement call handlers) := by
  induction ms with
  | nil => rfl
  | cons m ms ih =>
    rw [List.map_cons, List.mapM_cons, List.mapM_cons, replacement_between hu hv, ih]
    simp only [bind_map_left, map_bind, map_pure, List.map_cons]

theorem map_fst_of_mapM_replacement {s t : State η}
    (h : ms.mapM (replacement call handlers) s = some (.ok rs, t)) : rs.map Prod.fst = ms := by
  induction ms generalizing s rs with
  | nil =>
    cases h
    rfl
  | cons m ms ih =>
    rw [List.mapM_cons] at h
    rcases Run.bind_eq_some h with ⟨e, -, ⟨⟩⟩ | ⟨r, w, hr, h⟩
    rcases Run.bind_eq_some h with ⟨e, -, ⟨⟩⟩ | ⟨rs, w', hrs, h⟩
    cases h
    rw [replacement_apply] at hr
    obtain ⟨⟨f | out, _⟩, -, hr⟩ := Option.map_eq_some_iff.mp hr
    · cases hr
    · cases hr
      rw [List.map_cons, ih hrs]

/-- Whatever the handlers do, the matches between two plain texts are replaced as they are by
themselves. -/
theorem replacing_between (hu : '[' ∉ u) (hv : ']' ∉ v) (hb : '[' ∉ v) (call : Caller η)
    (handlers : Registry (Registered η)) (hn : ∀ n ∈ handlers.names, '[' ∉ n) (c : Text) :
    replacing call (u ++ c ++ v) handlers =
      (fun out => u ++ out ++ v) <$> replacing call c handlers := by
  rw [replacing, replacing, scan_between hu hv hb hn, mapM_replacement_between hu hv, map_bind,
    bind_map_left]
  funext s
  rw [Run.bind_apply, Run.bind_apply]
  cases hs : (scan handlers.names c).mapM (replacement call handlers) s with
  | none => rfl
  | some p =>
    obtain ⟨f | rs, t⟩ := p
    · rfl
    · exact congrArg (fun out => some (Except.ok out, t))
        (splice_between hv hb (map_fst_of_mapM_replacement hs) u)

/-- Between two plain texts a content is rendered as by itself, but the length on record is that of the
whole. -/
theorem render_eq_map_guarded (hu : '[' ∉ u) (hv : ']' ∉ v) (hb : '[' ∉ v) (call : Caller η)
    {e : Engine} {s : State η} (hn : ∀ n ∈ (s.registry e.registry).names, '[' ∉ n) (c : Text) :
    render call e (u ++ c ++ v) s =
      ((fun out => u ++ out ++ v) <$> guarded e c (.rendered (u ++ c ++ v).length)
        (·.recordRender (u ++ c ++ v).length) (replacing call c)) s := by
  have hreplacing := replacing_between hu hv hb call _ hn c
  show guarded e (u ++ c ++ v) _ _ (replacing call (u ++ c ++ v)) s = _
  rw [guarded, guarded, map_bind, Run.bind_apply, Run.bind_apply, Run.get_apply]
  dsimp only [Option.bind_some]
  split
  · rfl
  · rw [map_bind, hreplacing]
    simp only [Run.map_withConfig]

/-- Two renderings that differ in plain text around end alike: with no end, with the same fault, or with
texts that differ in just that. The same calls are made, and the same is left behind. -/
theorem render_between (hu : '[' ∉ u) (hv : ']' ∉ v) (hb : '[' ∉ v)
    {behave : η → Call → Nat → Program η} {e : Engine} {s : State η}
    (hn : ∀ n ∈ (s.registry e.registry).names, '[' ∉ n)
    (hd : ∀ h c n, (behave h c n).Discreet (s.profile = none)) (depth : Nat) (c : Text) :
    (render (invoke behave depth) e c s = none ∧
      render (invoke behave depth) e (u ++ c ++ v) s = none) ∨
    ∃ r t t', render (invoke behave depth) e c s = some (r, t) ∧
      render (invoke behave depth) e (u ++ c ++ v) s = some (r.map fun out => u ++ out ++ v, t') ∧
      t'.visits = t.visits ∧ t'.registries = t.registries ∧ t'.items = t.items ∧
      t'.objects = t.objects ∧ t'.config = t.config := by
  by_cases hnames : (s.registry e.registry).names = []
  · exact Or.inr ⟨_, _, _, (Renders.idle hnames).eq, (Renders.idle hnames).eq, rfl, rfl, rfl, rfl,
      rfl⟩
  · have hp : (s.trail ++ [Activity.rendered c.length]).filterMap Activity.visit? =
        (s.trail ++ [Activity.rendered (u ++ c ++ v).length]).filterMap Activity.visit? := by
      rw [List.filterMap_append, List.filterMap_append]
      rfl
    have hstart : State.Twins (s.profile = none) (s.trail ++ [.rendered c.length])
        (s.trail ++ [.rendered (u ++ c ++ v).length]) (entered e c s)
        (entered e (u ++ c ++ v) s) := by
      refine ⟨[], s.profile.map (·.recordRender (u ++ c ++ v).length), by simp [entered], ?_,
        fun hs => by simp [entered, hs]⟩
      rw [List.append_nil]
      rfl
    have hrun := blind_replacing hp (blind_invoke hp hd depth) c (s.registry e.registry)
    have hc : render (invoke behave depth) e c s =
        (replacing (invoke behave depth) c (s.registry e.registry) (entered e c s)).map fun r =>
          (r.1, { r.2 with config := s.config }) := render_of_names hnames
    have hcv : render (invoke behave depth) e (u ++ c ++ v) s =
        (replacing (invoke behave depth) (u ++ c ++ v) (s.registry e.registry)
          (entered e (u ++ c ++ v) s)).map fun r =>
            (r.1, { r.2 with config := s.config }) := render_of_names hnames
    rw [replacing_between hu hv hb _ _ hn, Run.map_apply] at hcv
    rcases hrun.alike hstart with ⟨ht, ht'⟩ | ⟨r, t, t', ht, ht', h⟩
    · rw [hc, hcv, ht, ht']
      exact Or.inl ⟨rfl, rfl⟩
    · rw [hc, hcv, ht, ht']
      refine Or.inr ⟨r, _, _, rfl, rfl, (h.visits hp).symm, ?_⟩
      obtain ⟨_, _, _, rfl, _⟩ := h
      exact ⟨rfl, rfl, rfl, rfl⟩

/-- Plain text around a content is inert. The matches are the same, further on; only a tag at the front
or at the end gets a character from around. A stripping leaves the text around as it is, and so does a
rendering: whatever the handlers are, the content is rendered as by itself, but with the length of the
whole on record; and where handlers do not read that length from the metrics, the same calls are made
with the same end. -/
theorem plain_text_inert {u v : Text} (hu : '[' ∉ u) (hv : ']' ∉ v) (hb : '[' ∉ v) (c : Text) :
    (∀ names : List Text, (∀ n ∈ names, '[' ∉ n) →
      scan names (u ++ c ++ v) = (scan names c).map (·.between u v) ∧
      (∀ m ∈ scan names c, (m.between u v).isEscaped = m.isEscaped) ∧
      stripText names (u ++ c ++ v) = u ++ stripText names c ++ v) ∧
    ∀ (η : Type) (e : Engine) (s : State η), (∀ n ∈ (s.registry e.registry).names, '[' ∉ n) →
      (∀ call, render call e (u ++ c ++ v) s =
        ((fun out => u ++ out ++ v) <$> guarded e c (.rendered (u ++ c ++ v).length)
          (·.recordRender (u ++ c ++ v).length) (replacing call c)) s) ∧
      (∃ out t t', strip e c s = some (.ok out, t) ∧
        strip e (u ++ c ++ v) s = some (.ok (u ++ out ++ v), t')) ∧
      ∀ (behave : η → Call → Nat → Program η) (depth : Nat),
        (∀ h c n, (behave h c n).Discreet (s.profile = none)) →
        (render (invoke behave depth) e c s = none ∧
          render (invoke behave depth) e (u ++ c ++ v) s = none) ∨
        ∃ r t t', render (invoke behave depth) e c s = some (r, t) ∧
          render (invoke behave depth) e (u ++ c ++ v) s =
            some (r.map fun out => u ++ out ++ v, t') ∧
          t'.visits = t.visits ∧ t'.registries = t.registries ∧ t'.items = t.items ∧
          t'.objects = t.objects ∧ t'.config = t.config := by
  refine ⟨fun names hn => ⟨scan_between hu hv hb hn c, ?_, stripText_between hu hv hb hn c⟩, ?_⟩
  · exact fun m _ => TagMatch.isEscaped_between hu hv m
  · intro η e s hn
    refine ⟨fun call => render_eq_map_guarded hu hv hb call hn c, ?_, fun behave depth hd =>
      render_between hu hv hb hn hd depth c⟩
    obtain ⟨t, ht⟩ := strip_apply e c s
    obtain ⟨t', ht'⟩ := strip_apply e (u ++ c ++ v) s
    rw [stripText_between hu hv hb hn] at ht'
    exact ⟨_, t, t', ht, ht'⟩

/-- A handler that gives back what is enclosed, and one engine for it. -/
def echo : Unit → Call → Nat → Program Unit := fun _ c _ => .done c.body []

def echoing : State Unit where
  registries := [Registry.empty.add ['a'] (some ⟨⟨[], ()⟩, 0⟩)]

theorem plain_text_inert_echo : ∃ t t',
    render (invoke echo 1) ⟨.default, 0⟩ ['[', 'a', ']', 'b', '[', '/', 'a', ']'] echoing =
      some (.ok ['b'], t) ∧
    render (invoke echo 1) ⟨.default, 0⟩
      (['u'] ++ ['[', 'a', ']', 'b', '[', '/', 'a', ']'] ++ ['v']) echoing =
        some (.ok ['u', 'b', 'v'], t') ∧ t.visits.length = 1 ∧ t'.visits = t.visits := by
  have hn : ∀ n ∈ (echoing.registry 0).names, '[' ∉ n := by decide
  obtain ⟨-, hrender⟩ := plain_text_inert (u := ['u']) (v := ['v']) (by decide) (by decide)
    (by decide) ['[', 'a', ']', 'b', '[', '/', 'a', ']']
  obtain ⟨-, -, hrun⟩ := hrender Unit ⟨.default, 0⟩ echoing hn
  rcases hrun echo 1 fun _ _ _ => trivial with ⟨ho, -⟩ | ⟨r, t, t', ht, ht', hvisits, -⟩
  · cases ho
  · cases ht
    exact ⟨_, t', rfl, ht', rfl, hvisits⟩

end Engine
end Shortcode
