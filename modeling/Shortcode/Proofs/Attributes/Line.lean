import Shortcode.Attributes.Basic
import Shortcode.OrderedMap.Lemmas
import Shortcode.Proofs.Attributes.Written

/-! A line of attribute tokens with spacing between them is read back token by token. Hard spaces in
its spacing make no difference: with spaces in their place it is a line of the same tokens. -/
namespace Shortcode.Attributes
open Text

/-- Tokens, each with the spacing behind it, as one text. -/
def line : List (Written × Text) → Text
  | [] => []
  | (w, gap) :: more => w.print ++ (gap ++ line more)

/-- Proper tokens with spacing between two of them. All spacing consists of characters in `p`. -/
inductive WellSpaced (p : Char → Bool) : List (Written × Text) → Prop
  | nil : WellSpaced p []
  | cons {w : Written} {gap : Text} {more : List (Written × Text)} (hw : w.Proper p)
      (hg : ∀ c ∈ gap, p c = true) (hne : more ≠ [] → gap ≠ []) (hm : WellSpaced p more) :
      WellSpaced p ((w, gap) :: more)

theorem wellSpaced_cons_iff {p : Char → Bool} {w : Written} {gap : Text}
    {more : List (Written × Text)} : WellSpaced p ((w, gap) :: more) ↔
      w.Proper p ∧ (∀ c ∈ gap, p c = true) ∧ (more ≠ [] → gap ≠ []) ∧ WellSpaced p more := by
  constructor
  · rintro ⟨⟩
    exact ⟨‹_›, ‹_›, ‹_›, ‹_›⟩
  · rintro ⟨hw, hg, hne, hm⟩
    exact .cons hw hg hne hm

instance WellSpaced.decidable (p : Char → Bool) :
    (items : List (Written × Text)) → Decidable (WellSpaced p items)
  | [] => .isTrue .nil
  | (_, _) :: more =>
    have := decidable p more
    decidable_of_iff _ wellSpaced_cons_iff.symm

variable {p : Char → Bool} {w : Written} {items : List (Written × Text)} {t rest lead : Text}

theorem WellSpaced.head (h : WellSpaced p items) :
    ∀ c ∈ (line items).head?, isBlank c = false ∧ c ≠ '=' := by
  cases h with
  | nil => simp [line]
  | cons hw =>
    obtain ⟨c, t, ht, hc⟩ := hw.head
    intro d hd
    rw [line, ht] at hd
    obtain rfl := Option.some.inj hd
    exact hc

/-! Reading a line whose spacing is white space. -/

theorem lexemes_append_of_blank (ht : ∀ c ∈ t, isBlank c = true) (rest : Text) :
    lexemes (t ++ rest) = lexemes rest := by
  induction t with
  | nil => rfl
  | cons c t ih =>
    rw [List.cons_append, lexemes_cons_blank (ht c List.mem_cons_self)]
    exact ih fun d hd => ht d (List.mem_cons_of_mem c hd)

theorem lexemes_of_tokenAt {c : Char} {token : Token} (hc : isBlank c = false)
    (h : tokenAt (c :: t ++ rest) = (token, rest)) :
    lexemes (c :: t ++ rest) = ⟨c :: t, token⟩ :: lexemes rest := by
  have hlexeme : lexemeAt (c :: t ++ rest) = ⟨c :: t, token⟩ := by
    rw [lexemeAt, h]
    dsimp only
    rw [List.length_append, Nat.add_sub_cancel, List.take_left]
  rw [List.cons_append] at hlexeme ⊢
  rw [lexemes, lexemesAfter, if_neg (by simp [hc]), hlexeme]
  dsimp only
  rw [lexemesAfter_eq_drop]
  simp

theorem lexemes_print_append (hw : w.Proper isBlank) (hr : endsHere rest = true)
    (hs : ∀ c ∈ (rest.dropWhile isBlank).head?, c ≠ '=') :
    lexemes (w.print ++ rest) = ⟨w.print, w.token⟩ :: lexemes rest := by
  obtain ⟨c, t, ht, hc, -⟩ := hw.head
  have htoken := tokenAt_print hw hr hs
  rw [ht] at htoken ⊢
  exact lexemes_of_tokenAt hc htoken

/-- By induction on the line: what follows a token is white space and then a line again. -/
theorem tokens_line (h : WellSpaced isBlank items) :
    tokens (line items) = items.map fun i => i.1.token := by
  induction h with
  | nil => rfl
  | @cons w gap more hw hg hne hm ih =>
    have hhead := hm.head
    have hdrop : (gap ++ line more).dropWhile isBlank = line more :=
      dropWhile_append_of_head hg fun c hc => (hhead c hc).1
    have hends : endsHere (gap ++ line more) = true := by
      cases gap with
      | nil =>
        cases more with
        | nil => rfl
        | cons => exact (hne (List.cons_ne_nil _ _) rfl).elim
      | cons c gap => exact hg c List.mem_cons_self
    have hsign : ∀ c ∈ ((gap ++ line more).dropWhile isBlank).head?, c ≠ '=' := by
      rw [hdrop]
      exact fun c hc => (hhead c hc).2
    rw [tokens] at ih ⊢
    rw [line, lexemes_print_append hw hends hsign, lexemes_append_of_blank hg, List.map_cons, ih]
    rfl

/-! Writing spaces for hard spaces. -/

namespace Written

/-- The token with spaces for the hard spaces around its equals sign. -/
def soften : Written → Written
  | named name before after marks value =>
    named name (softenSpaces before) (softenSpaces after) marks value
  | w => w

theorem token_soften (w : Written) : w.soften.token = w.token := by cases w <;> rfl

theorem Proper.soften (hw : w.Proper isSpacing) : w.soften.Proper isBlank := by
  cases w with
  | named name before after marks value =>
    obtain ⟨hn, hb, ha, hv⟩ := hw
    exact ⟨hn, isBlank_of_mem_softenSpaces hb, isBlank_of_mem_softenSpaces ha, hv⟩
  | quoted value => exact hw
  | bare value => exact hw

/-- No hard space stands in the value of a token. -/
def Plain (w : Written) : Prop := ∀ c ∈ w.value, isHardSpace c = false

instance (w : Written) : Decidable w.Plain :=
  inferInstanceAs (Decidable (∀ c ∈ w.value, isHardSpace c = false))

end Written

theorem isHardSpace_eq_false_of_isWord {c : Char} (h : isWord c = true) :
    isHardSpace c = false := by
  rw [← Bool.not_eq_true]
  intro hs
  rw [isWord_eq_false_of_isHardSpace hs] at h
  cases h

theorem Marks.notHard_around {value : Text} (hv : ∀ c ∈ value, isHardSpace c = false)
    (marks : Marks) : ∀ c ∈ marks.around value, isHardSpace c = false := by
  have hmark : ∀ mark, isHardSpace mark = false →
      ∀ c ∈ mark :: value ++ [mark], isHardSpace c = false := by
    intro mark hm c hc
    simp only [List.cons_append, List.mem_cons, List.mem_append, List.not_mem_nil, or_false] at hc
    rcases hc with rfl | hc | rfl
    · exact hm
    · exact hv c hc
    · exact hm
  cases marks with
  | double => exact hmark doubleQuote (by decide)
  | single => exact hmark singleQuote (by decide)
  | none => exact hv

theorem Marks.Fit.around_ne_nil {marks : Marks} {value : Text} (h : marks.Fit value) :
    marks.around value ≠ [] := by
  cases marks with
  | double => exact List.cons_ne_nil _ _
  | single => exact List.cons_ne_nil _ _
  | none => exact h.1

theorem softenSpaces_print_append (hw : w.Proper isSpacing) (hp : w.Plain) (rest : Text) :
    softenSpaces (w.print ++ rest) = w.soften.print ++ softenSpaces rest := by
  cases w with
  | named name before after marks value =>
    obtain ⟨⟨-, hn⟩, -, -, hv⟩ := hw
    have hname : ∀ c ∈ name, isHardSpace c = false := fun c hc =>
      isHardSpace_eq_false_of_isWord (hn c hc)
    have hmarked : ∀ c ∈ marks.around value, isHardSpace c = false :=
      Marks.notHard_around hp marks
    have hbefore : ∀ c ∈ ('=' :: (after ++ (marks.around value ++ rest))).head?,
        isHardSpace c = false := by
      intro c hc
      obtain rfl := Option.some.inj hc
      decide
    have hafter : ∀ c ∈ (marks.around value ++ rest).head?, isHardSpace c = false := fun c hc =>
      hmarked c (mem_of_mem_head?_append hv.around_ne_nil c hc)
    have hsign : softenSpaces ('=' :: (after ++ (marks.around value ++ rest))) =
        '=' :: softenSpaces (after ++ (marks.around value ++ rest)) := rfl
    simp only [Written.print, Written.soften, List.append_assoc, List.cons_append]
    rw [softenSpaces_append_of_notHard hname, softenSpaces_append_of_head hbefore, hsign,
      softenSpaces_append_of_head hafter, softenSpaces_append_of_notHard hmarked]
  | quoted value => exact softenSpaces_append_of_notHard (Marks.notHard_around hp .double) rest
  | bare value => exact softenSpaces_append_of_notHard hp rest

theorem Written.Proper.head_notHard (hw : w.Proper p) (hp : w.Plain) :
    ∀ c ∈ w.print.head?, isHardSpace c = false := by
  cases w with
  | named name before after marks value =>
    intro c hc
    exact isHardSpace_eq_false_of_isWord (hw.1.2 c (mem_of_mem_head?_append hw.1.1 c hc))
  | quoted value =>
    intro c hc
    obtain rfl := Option.some.inj hc
    decide
  | bare value => exact fun c hc => hp c (List.mem_of_mem_head? hc)

theorem WellSpaced.head_notHard (h : WellSpaced p items) (hp : ∀ i ∈ items, i.1.Plain) :
    ∀ c ∈ (line items).head?, isHardSpace c = false := by
  cases h with
  | nil => simp [line]
  | @cons w gap more hw =>
    obtain ⟨c, t, ht, -⟩ := hw.head
    have hh := hw.head_notHard (hp (w, gap) List.mem_cons_self)
    rw [line, ht]
    rw [ht] at hh
    exact hh

/-- Each token and the spacing behind it with spaces for their hard spaces. -/
def softened (items : List (Written × Text)) : List (Written × Text) :=
  items.map fun i => (i.1.soften, softenSpaces i.2)

theorem softenSpaces_line (h : WellSpaced isSpacing items) (hp : ∀ i ∈ items, i.1.Plain) :
    softenSpaces (line items) = line (softened items) := by
  induction h with
  | nil => rfl
  | @cons w gap more hw hg hne hm ih =>
    have hmore : ∀ i ∈ more, i.1.Plain := fun i hi => hp i (List.mem_cons_of_mem _ hi)
    rw [line, softenSpaces_print_append hw (hp (w, gap) List.mem_cons_self),
      softenSpaces_append_of_head (hm.head_notHard hmore), ih hmore]
    rfl

theorem WellSpaced.softened (h : WellSpaced isSpacing items) :
    WellSpaced isBlank (softened items) := by
  induction h with
  | nil => exact WellSpaced.nil
  | @cons w gap more hw hg hne hm ih =>
    refine WellSpaced.cons hw.soften (isBlank_of_mem_softenSpaces hg) ?_ ih
    intro hmore
    apply softenSpaces_ne_nil
    apply hne
    rintro rfl
    exact hmore rfl

theorem tokens_softenSpaces (hl : ∀ c ∈ lead, isSpacing c = true)
    (h : WellSpaced isSpacing items) (hp : ∀ i ∈ items, i.1.Plain) :
    tokens (softenSpaces (lead ++ line items)) = items.map fun i => i.1.token := by
  have hlead := lexemes_append_of_blank (isBlank_of_mem_softenSpaces hl) (line (softened items))
  have hline := tokens_line h.softened
  rw [tokens] at hline ⊢
  rw [softenSpaces_append_of_head (h.head_notHard hp), softenSpaces_line h hp, hlead, hline,
    Attributes.softened, List.map_map]
  exact List.map_congr_left fun i _ => i.1.token_soften

/-! What is entered for a token. -/

/-- Gives a key a value: where the key stands already, or at the end. -/
def put (k : Key) (v : Text) : List (Key × Text) → List (Key × Text)
  | [] => [(k, v)]
  | (k', v') :: more => if k' = k then (k, v) :: more else (k', v') :: put k v more

/-- Enters a token, given the next free position and what has been entered so far. -/
def Written.enter (decode : Text → Text) (w : Written) :
    Nat × List (Key × Text) → Nat × List (Key × Text)
  | (next, entries) =>
    match w with
    | named name _ _ _ value => (next, put (.name (lower name)) (decode value) entries)
    | quoted value =>
      if value = [] then (next, entries)
      else (next + 1, put (.position next) (decode value) entries)
    | bare value => (next + 1, put (.position next) (decode value) entries)

theorem put_of_notMem {k : Key} (v : Text) {entries : List (Key × Text)}
    (h : k ∉ entries.map Prod.fst) : put k v entries = entries ++ [(k, v)] := by
  induction entries with
  | nil => rfl
  | cons e entries ih =>
    obtain ⟨hne, hmem⟩ := not_or.mp (fun hx => h (List.mem_cons.mpr hx))
    rw [put, if_neg fun he => hne he.symm, ih hmem]
    rfl

/-- A key that occurs once is given the value where it stands. -/
theorem put_of_mem {k : Key} (v : Text) {entries : List (Key × Text)}
    (hd : (entries.map Prod.fst).Nodup) (h : k ∈ entries.map Prod.fst) :
    put k v entries = entries.map fun e => (e.1, if e.1 = k then v else e.2) := by
  induction entries with
  | nil => cases h
  | cons e entries ih =>
    obtain ⟨k', v'⟩ := e
    obtain ⟨hnotMem, hd⟩ := List.nodup_cons.mp hd
    by_cases hk : k' = k
    · subst hk
      have hrest : entries.map (fun e => (e.1, if e.1 = k' then v else e.2)) = entries.map id := by
        apply List.map_congr_left
        intro e he
        have hne : e.1 ≠ k' := by
          rintro rfl
          exact hnotMem (List.mem_map.mpr ⟨e, he, rfl⟩)
        rw [if_neg hne]
        rfl
      rw [List.map_id] at hrest
      simp [put, hrest]
    · have hmem := (List.mem_cons.mp h).resolve_left fun he => hk he.symm
      simp [put, hk, ih hd hmem]

theorem entries_insert (m : OrderedMap Key Text) (k : Key) (v : Text) :
    (m.insert k v).entries = put k v m.entries := by
  by_cases h : k ∈ m.keys
  · rw [put_of_mem v m.nodup h, OrderedMap.insert, dif_pos h]
    rfl
  · rw [put_of_notMem v h, OrderedMap.insert, dif_neg h]

theorem entries_enter (decode : Text → Text) (items : List (Written × Text)) (next : Nat)
    (m : OrderedMap Key Text) :
    (enter decode next m (items.map fun i => i.1.token)).entries =
      (items.foldl (fun acc i => i.1.enter decode acc) (next, m.entries)).2 := by
  induction items generalizing next m with
  | nil => rfl
  | cons i items ih =>
    obtain ⟨w, gap⟩ := i
    rw [List.map_cons, List.foldl_cons]
    cases w with
    | named name before after marks value =>
      have hi := ih next (m.insert (.name (lower name)) (decode value))
      rw [entries_insert] at hi
      exact hi
    | quoted value =>
      cases value with
      | nil => exact ih next m
      | cons c value =>
        have hi := ih (next + 1) (m.insert (.position next) (decode (c :: value)))
        rw [entries_insert] at hi
        exact hi
    | bare value =>
      have hi := ih (next + 1) (m.insert (.position next) (decode value))
      rw [entries_insert] at hi
      exact hi

/-- Reading undoes printing: a line of tokens is read as the table in which they are entered one after
another, with values decoded if escapes are to be resolved. -/
theorem parse_line (config : Config) (hl : ∀ c ∈ lead, isSpacing c = true) (hne : items ≠ [])
    (hw : WellSpaced isSpacing items) (hp : ∀ i ∈ items, i.1.Plain) :
    ∃ m, parse config (lead ++ line items) = .table m ∧
      m.entries = (items.foldl (fun acc i =>
        i.1.enter (if config.unescapes then unescape else id) acc) (0, [])).2 := by
  obtain ⟨i, more, rfl⟩ := List.exists_cons_of_ne_nil hne
  have ht := tokens_softenSpaces hl hw hp
  refine ⟨enter (decoder config) 0 .empty ((i :: more).map fun i => i.1.token), ?_,
    entries_enter (decoder config) (i :: more) 0 .empty⟩
  rw [parse, read, ht]
  rfl

/-- A name with an escape in its value, a quoted value that is empty, a bare one, and the same name in
a capital letter. -/
def mixed : List (Written × Text) :=
  [(.named ['a'] [' '] ['\u00a0'] .double ['=', ' ', '\\', 't'], ['\u200b', ' ']),
    (.quoted [], [' ']), (.bare ['c'], ['\n']), (.named ['A'] [] [] .none ['x', '='], [])]

/-- The repeated name stands first with its last value, and the bare value has the first position. -/
theorem parse_line_mixed : ∃ m,
    parse .default ([' '] ++ line mixed) = .table m ∧
      m.entries = [(.name ['a'], ['x', '=']), (.position 0, ['c'])] := by
  have hl : ∀ c ∈ [' '], isSpacing c = true := by decide
  have hw : WellSpaced isSpacing mixed := by decide
  have hp : ∀ i ∈ mixed, i.1.Plain := by decide
  obtain ⟨m, hm, he⟩ := parse_line .default hl (List.cons_ne_nil _ _) hw hp
  exact ⟨m, hm, he.trans (by decide +kernel)⟩

end Shortcode.Attributes
