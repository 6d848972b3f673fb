import Shortcode.Pattern.Source
import Shortcode.Proofs.Pattern.Preferred

/-! Names stand for themselves in the written pattern of a tag: they can be read back from it, and they
bring no syntax of their own into it. -/
namespace Shortcode.Pattern
variable {names : List Text} {t u rest : Text} {us : List Text} {c : Char} {p : Pattern}

theorem ne_of_not_special {d : Char} (hc : isSpecial c = false) (hd : isSpecial d = true) :
    c ≠ d := by
  rintro rfl
  simp [hc] at hd

theorem escape_cons (c : Char) (t : Text) :
    escape (c :: t) = (if isSpecial c then ['\\', c] else [c]) ++ escape t := rfl

/-! Reading an alternation. -/

theorem readAlternation_escaped (c : Char) (rest : Text) :
    readAlternation ('\\' :: c :: rest) = (readAlternation rest).map (consHead c) := by
  rw [readAlternation]

theorem readAlternation_bar (rest : Text) :
    readAlternation ('|' :: rest) = (readAlternation rest).map ([] :: ·) := by
  simp [readAlternation]

theorem readAlternation_plain (hc : isSpecial c = false) (rest : Text) :
    readAlternation (c :: rest) = (readAlternation rest).map (consHead c) := by
  have hb : c ≠ '|' := ne_of_not_special hc (by decide)
  have hs : c ≠ '\\' := ne_of_not_special hc (by decide)
  simp [readAlternation, hb, hs, hc]

/-- An escaped text is read as the front of the first text. -/
theorem readAlternation_escape_append (h : readAlternation rest = some (u :: us)) (t : Text) :
    readAlternation (escape t ++ rest) = some ((t ++ u) :: us) := by
  induction t with
  | nil => exact h
  | cons c t ih =>
    cases hc : isSpecial c with
    | true => simp [escape_cons, hc, readAlternation_escaped, ih, consHead]
    | false => simp [escape_cons, hc, readAlternation_plain hc, ih, consHead]

theorem readAlternation_alternation (hn : names ≠ []) :
    readAlternation (alternation names) = some names := by
  induction names with
  | nil => exact (hn rfl).elim
  | cons t names ih =>
    cases names with
    | nil =>
      have h : readAlternation (escape t ++ []) = some [t ++ []] :=
        readAlternation_escape_append rfl t
      simpa [alternation] using h
    | cons u names =>
      have hbar : readAlternation ('|' :: alternation (u :: names)) = some ([] :: u :: names) := by
        simp [readAlternation_bar, ih]
      have h := readAlternation_escape_append hbar t
      simpa [alternation] using h

theorem alternation_inj {names' : List Text} (hn : names ≠ []) (hn' : names' ≠ [])
    (h : alternation names = alternation names') : names = names' := by
  have hr := readAlternation_alternation hn
  rw [h, readAlternation_alternation hn'] at hr
  exact (Option.some.inj hr).symm

/-- The characters that have a meaning of their own in a written pattern. -/
def syntaxCharacters : Text :=
  ['.', '^', '$', '*', '+', '?', '\x7b', '\x7d', '[', ']', '\\', '|', '(', ')']

/-- A character with a meaning of its own is refused where it stands alone, but for the bar. -/
theorem readAlternation_syntax (hc : c ∈ syntaxCharacters) (hb : c ≠ '|') (hs : c ≠ '\\')
    (rest : Text) : readAlternation (c :: rest) = none := by
  have h : ∀ c ∈ syntaxCharacters, isSpecial c = true := by decide
  simp [readAlternation, hb, hs, h c hc]

/-! What stands behind a backslash. -/

/-- The characters that a backslash makes literal. -/
def escaped : Text → List Char
  | [] => []
  | '\\' :: c :: rest => c :: escaped rest
  | _ :: rest => escaped rest

theorem escaped_cons (hs : c ≠ '\\') (rest : Text) : escaped (c :: rest) = escaped rest := by
  simp [escaped, hs]

theorem escaped_escape_append (t rest : Text) :
    escaped (escape t ++ rest) = t.filter isSpecial ++ escaped rest := by
  induction t with
  | nil => rfl
  | cons c t ih =>
    cases hc : isSpecial c with
    | true => simp [escape_cons, hc, escaped, ih]
    | false =>
      have hs : c ≠ '\\' := ne_of_not_special hc (by decide)
      simp [escape_cons, hc, escaped_cons hs, ih]

theorem escaped_alternation (names : List Text) :
    escaped (alternation names) = names.flatten.filter isSpecial := by
  induction names with
  | nil => rfl
  | cons t names ih =>
    cases names with
    | nil =>
      have h := escaped_escape_append t []
      simpa [alternation, escaped] using h
    | cons u names =>
      have hbar : escaped ('|' :: alternation (u :: names)) = escaped (alternation (u :: names)) :=
        escaped_cons (by decide) _
      rw [alternation, escaped_escape_append, hbar, ih]
      simp

/-- A special character is no letter and no digit, so a backslash gives it no new meaning. -/
theorem not_word_of_special (hc : isSpecial c = true) : Text.isWord c = false := by
  simp only [isSpecial, List.contains_iff_mem] at hc
  revert c
  decide

theorem not_word_of_escaped (hc : c ∈ escaped (alternation names)) : Text.isWord c = false := by
  rw [escaped_alternation] at hc
  exact not_word_of_special (List.of_mem_filter hc)

/-! Counting the groups of a written pattern. -/

/-- How many groups a written pattern opens: one with each parenthesis that stands alone and has no
question mark behind it. -/
def groupsOpened : Text → Nat
  | [] => 0
  | '\\' :: _ :: rest => groupsOpened rest
  | c :: rest => (if c = '(' ∧ rest.head? ≠ some '?' then 1 else 0) + groupsOpened rest

theorem groupsOpened_escaped (c : Char) (rest : Text) :
    groupsOpened ('\\' :: c :: rest) = groupsOpened rest := by
  rw [groupsOpened]

theorem groupsOpened_cons (hs : c ≠ '\\') (hp : c ≠ '(') (rest : Text) :
    groupsOpened (c :: rest) = groupsOpened rest := by
  simp [groupsOpened, hs, hp]

theorem groupsOpened_escape_append (t rest : Text) :
    groupsOpened (escape t ++ rest) = groupsOpened rest := by
  induction t with
  | nil => rfl
  | cons c t ih =>
    cases hc : isSpecial c with
    | true => simp [escape_cons, hc, groupsOpened_escaped, ih]
    | false =>
      have hs : c ≠ '\\' := ne_of_not_special hc (by decide)
      have hp : c ≠ '(' := ne_of_not_special hc (by decide)
      simp [escape_cons, hc, groupsOpened_cons hs hp, ih]

theorem groupsOpened_alternation_append (names : List Text) (rest : Text) :
    groupsOpened (alternation names ++ rest) = groupsOpened rest := by
  induction names with
  | nil => rfl
  | cons t names ih =>
    cases names with
    | nil => exact groupsOpened_escape_append t rest
    | cons u names =>
      have hbar : groupsOpened ('|' :: (alternation (u :: names) ++ rest)) = groupsOpened rest :=
        (groupsOpened_cons (by decide) (by decide) _).trans ih
      simpa [alternation, groupsOpened_escape_append] using hbar

theorem groupsOpened_append_of_digits (ht : ∀ c ∈ t, c.isDigit = true) (rest : Text) :
    groupsOpened (t ++ rest) = groupsOpened rest := by
  induction t with
  | nil => rfl
  | cons c t ih =>
    have hc := ht c List.mem_cons_self
    have hs : c ≠ '\\' := by rintro rfl; simp at hc
    have hp : c ≠ '(' := by rintro rfl; simp at hc
    rw [List.cons_append, groupsOpened_cons hs hp]
    exact ih fun d hd => ht d (List.mem_cons_of_mem c hd)

theorem groupsOpened_again_append (index : Nat) (rest : Text) :
    groupsOpened ((again index).source ++ rest) = groupsOpened rest := by
  have hd : ∀ c ∈ Nat.toDigits 10 index, c.isDigit = true := fun c hc =>
    Nat.isDigit_of_mem_toDigits (by decide) (by decide) hc
  obtain ⟨c, t, ht⟩ := List.exists_cons_of_ne_nil (Nat.toDigits_ne_nil (n := index) (b := 10))
  have hs : (again index).source = '\\' :: c :: t := congrArg ('\\' :: ·) ht
  rw [hs, List.cons_append, List.cons_append, groupsOpened_escaped]
  apply groupsOpened_append_of_digits
  intro d hm
  exact hd d (by simp [ht, hm])

theorem source_optional (hp : p ≠ any) :
    (optional p).source = ['(', '?', ':'] ++ p.source ++ [')', '?'] := by
  rw [source]
  exact hp

/-! No written pattern begins with a question mark, so an opening parenthesis in front of one opens a
group. -/

theorem head?_escape_append_ne (hr : rest.head? ≠ some '?') (t : Text) :
    (escape t ++ rest).head? ≠ some '?' := by
  cases t with
  | nil => exact hr
  | cons c t =>
    cases hc : isSpecial c with
    | true => simp [escape_cons, hc]
    | false =>
      have hq : c ≠ '?' := ne_of_not_special hc (by decide)
      simpa [escape_cons, hc] using hq

theorem head?_alternation_append_ne (hr : rest.head? ≠ some '?') (names : List Text) :
    (alternation names ++ rest).head? ≠ some '?' := by
  cases names with
  | nil => exact hr
  | cons t names =>
    cases names with
    | nil => exact head?_escape_append_ne hr t
    | cons u names =>
      rw [alternation, List.append_assoc]
      exact head?_escape_append_ne (by simp) t

theorem head?_source_append_ne (p : Pattern) (hr : rest.head? ≠ some '?') :
    (p.source ++ rest).head? ≠ some '?' := by
  induction p generalizing rest with
  | literal t => exact head?_escape_append_ne hr t
  | any => simp [source]
  | boundary => simp [source]
  | again index => simp [source]
  | stretch nonempty => simp [source]
  | oneOf texts => exact head?_alternation_append_ne hr texts
  | optional p ih =>
    by_cases hp : p = any
    · simp [hp, source]
    · simp [source_optional hp]
  | group index p ih => simp [source]
  | seq p q ihp ihq =>
    rw [source, List.append_assoc]
    exact ihp (ihq hr)

theorem groupsOpened_parenthesis (hr : rest.head? ≠ some '?') :
    groupsOpened ('(' :: rest) = groupsOpened rest + 1 := by
  simp [groupsOpened, hr, Nat.add_comm]

/-- By induction on the pattern: a text in it opens no group, whatever its characters are. -/
theorem groupsOpened_source_append (p : Pattern) (rest : Text) :
    groupsOpened (p.source ++ rest) = p.groupCount + groupsOpened rest := by
  induction p generalizing rest with
  | literal t => simp [source, groupCount, groupsOpened_escape_append]
  | any => simp [source, groupCount, groupsOpened]
  | boundary => simp [source, groupCount, groupsOpened]
  | again index => simp [groupCount, groupsOpened_again_append]
  | stretch nonempty => cases nonempty <;> simp [source, groupCount, groupsOpened]
  | oneOf texts => simp [source, groupCount, groupsOpened_alternation_append]
  | optional p ih =>
    by_cases hp : p = any
    · simp [hp, source, groupCount, groupsOpened]
    · simp [source_optional hp, groupCount, groupsOpened, ih]
  | group index p ih =>
    have hq : (p.source ++ ')' :: rest).head? ≠ some '?' := head?_source_append_ne p (by simp)
    have hc : groupsOpened (')' :: rest) = groupsOpened rest :=
      groupsOpened_cons (by decide) (by decide) rest
    have hg := groupsOpened_parenthesis hq
    rw [ih, hc] at hg
    simp only [source, groupCount, List.cons_append, List.append_assoc, List.nil_append, hg]
    omega
  | seq p q ihp ihq => simp [source, groupCount, ihp, ihq, Nat.add_assoc]

/-! What a group of texts takes. -/

/-- The groups of a pattern in the order in which they open, each with its number. -/
def groups : Pattern → List (Nat × Pattern)
  | group index p => (index, p) :: p.groups
  | optional p => p.groups
  | seq p q => p.groups ++ q.groups
  | _ => []

/-- A group of texts is tried with each of them that stands there, in their order, and takes just that
text. -/
theorem group_oneOf_ends (index : Nat) (texts : List Text) (c : Cursor) :
    (group index (oneOf texts)).ends c = texts.filterMap fun t => (t.isPrefixOf? c.rest).map
      fun rest => Cursor.capture { c with before := t.getLast? <|> c.before, rest := rest } index t := by
  rw [ends_group]
  induction texts with
  | nil => rfl
  | cons t texts ih =>
    have hsplit : (oneOf (t :: texts)).ends c = c.advance t ++ (oneOf texts).ends c := rfl
    rw [hsplit, List.map_append, ih, List.filterMap_cons, Cursor.advance]
    cases hp : t.isPrefixOf? c.rest with
    | none => rfl
    | some rest =>
      have hr := List.isPrefixOf?_eq_some_iff_append_eq.mp hp
      have ht : c.textTo { c with before := t.getLast? <|> c.before, rest := rest } = t :=
        textTo_of_append hr.symm
      rw [List.map_singleton, ht]
      rfl

/-! The pattern of a tag. -/

/-- The written pattern of a tag in front of the names, up to the opening of the group around them. -/
def sourceFront : Text := "(.?)\\[(".toList

/-- The written pattern of a tag behind the names. -/
def sourceBack : Text := ")\\b(.*?)(?:(/))?\\](?:(.+?)\\[/\\2\\])?(.?)".toList

theorem source_append (p q : Pattern) : (p ++ q).source = p.source ++ q.source := rfl

theorem source_tag (names : List Text) :
    (tag names).source = sourceFront ++ alternation names ++ sourceBack := by
  simp only [tag, opening, enclosed, source_append, source, List.append_assoc]
  rfl

theorem groupsOpened_source_tag (names : List Text) : groupsOpened (tag names).source = 6 := by
  have h := groupsOpened_source_append (tag names) []
  simpa [groupCount_tag, groupsOpened] using h

/-- The names can be read back from the written pattern of a tag: each special character in them stands
behind a backslash, where it is literal, and none stands alone but the bars between the names. So the
names settle the pattern and are settled by it, it has six groups whatever they are, and the second
group takes just the names that stand at a place, tried in their order. -/
theorem tag_source_reads_names (hn : names ≠ []) :
    (tag names).source = sourceFront ++ alternation names ++ sourceBack ∧
      readAlternation (alternation names) = some names ∧
      (∀ c ∈ escaped (alternation names), Text.isWord c = false) ∧
      (∀ c ∈ syntaxCharacters, c ≠ '|' → c ≠ '\\' → ∀ rest, readAlternation (c :: rest) = none) ∧
      (∀ names', names' ≠ [] → (tag names').source = (tag names).source → names' = names) ∧
      groupsOpened (tag names).source = 6 ∧
      (tag names).groups = [(1, optional any), (2, oneOf names), (3, stretch false),
        (4, literal ['/']), (5, stretch true), (6, optional any)] ∧
      ∀ c : Cursor, (group 2 (oneOf names)).ends c =
        names.filterMap fun name => (name.isPrefixOf? c.rest).map fun rest =>
          Cursor.capture { c with before := name.getLast? <|> c.before, rest := rest } 2 name := by
  refine ⟨source_tag names, readAlternation_alternation hn, fun c => not_word_of_escaped,
    fun c => readAlternation_syntax, ?_, groupsOpened_source_tag names, rfl,
    group_oneOf_ends 2 names⟩
  intro names' hn' h
  rw [source_tag, source_tag, List.append_left_inj, List.append_right_inj] at h
  exact alternation_inj hn' hn h

/-- A backslash, a bar and a parenthesis in a name, and empty names at either end. -/
theorem tag_source_reads_names_hostile :
    readAlternation "|a\\|\\)\\\\|".toList = some [[], ['a', '|', ')', '\\'], []] ∧
      groupsOpened (tag [[], ['a', '|', ')', '\\'], []]).source = 6 := by
  obtain ⟨-, hr, -, -, -, hg, -, -⟩ :=
    @tag_source_reads_names [[], ['a', '|', ')', '\\'], []] (List.cons_ne_nil _ _)
  exact ⟨hr, hg⟩

end Shortcode.Pattern
