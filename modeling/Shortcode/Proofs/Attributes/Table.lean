import Shortcode.Proofs.Attributes.Tiling

/-! What a table of attributes holds, told from the tokens that were entered in it. Positions count the
values without a name, and a name keeps the place of its first token and the value of its last. -/
namespace Shortcode
open Text

namespace Key

def position? : Key → Option Int
  | name _ => none
  | position n => some n

def name? : Key → Option Text
  | name t => some t
  | position _ => none

end Key

namespace Attributes
variable {decode : Text → Text} {done : List Token} {token : Token} {m : OrderedMap Key Text}
  {value n : Text}

/-- The value of a token without a name. A quoted value that is empty is none. -/
def Token.positional? : Token → Option Text
  | named _ _ => none
  | quoted value => if value = [] then none else some value
  | bare value => some value

/-- The name of a named token in lower case, and its value. -/
def Token.assignment? : Token → Option (Text × Text)
  | named name value => some (lower name, value)
  | quoted _ => none
  | bare _ => none

def positionals (tokens : List Token) : List Text := tokens.filterMap Token.positional?

def assignments (tokens : List Token) : List (Text × Text) := tokens.filterMap Token.assignment?

/-- A table holds tokens if its positions are counted from zero, each with the value of the token at
that place among those without a name, and its names are in the order of their first tokens, each with
the value of its last. -/
structure Holds (decode : Text → Text) (tokens : List Token) (m : OrderedMap Key Text) : Prop where
  positions : m.keys.filterMap Key.position? =
    (List.range (positionals tokens).length).map fun i : Nat => (i : Int)
  value_position : ∀ i : Nat, m.get? (.position i) = (positionals tokens)[i]?.map decode
  names : m.keys.filterMap Key.name? = ((assignments tokens).map Prod.fst).eraseDups
  value_name : ∀ n, m.get? (.name n) =
    ((assignments tokens).filter (·.1 = n)).getLast?.map fun a => decode a.2

theorem eraseDups_concat (names : List Text) (n : Text) : (names ++ [n]).eraseDups =
    if n ∈ names then names.eraseDups else names.eraseDups ++ [n] := by
  rw [List.eraseDups_append]
  by_cases h : n ∈ names
  · simp [h, List.removeAll]
  · simp [h, List.removeAll, List.eraseDups_cons]

theorem positionals_concat (tokens : List Token) (token : Token) :
    positionals (tokens ++ [token]) = positionals tokens ++ token.positional?.toList := by
  cases h : token.positional? <;> simp [positionals, h]

theorem assignments_concat (tokens : List Token) (token : Token) :
    assignments (tokens ++ [token]) = assignments tokens ++ token.assignment?.toList := by
  cases h : token.assignment? <;> simp [assignments, h]

/-! One more token. -/

theorem Holds.name_mem_iff (h : Holds decode done m) (n : Text) :
    .name n ∈ m.keys ↔ n ∈ (assignments done).map Prod.fst := by
  have hkeys : .name n ∈ m.keys ↔ n ∈ m.keys.filterMap Key.name? := by
    rw [List.mem_filterMap]
    constructor
    · exact fun hm => ⟨_, hm, rfl⟩
    · rintro ⟨k, hm, hk⟩
      cases k with
      | name t =>
        obtain rfl := Option.some.inj hk
        exact hm
      | position i => cases hk
  rw [hkeys, h.names, List.mem_eraseDups]

theorem Holds.next_notMem (h : Holds decode done m) :
    .position (positionals done).length ∉ m.keys := by
  intro hm
  have hnext : ((positionals done).length : Int) ∈ m.keys.filterMap Key.position? :=
    List.mem_filterMap.mpr ⟨_, hm, rfl⟩
  rw [h.positions] at hnext
  obtain ⟨i, hi, he⟩ := List.mem_map.mp hnext
  have hlt := List.mem_range.mp hi
  omega

/-- A named token gives its name a value, at the end if the name is new. -/
theorem Holds.named (h : Holds decode done m) (name value : Text) :
    Holds decode (done ++ [.named name value]) (m.insert (.name (lower name)) (decode value)) := by
  have hpositionals : positionals (done ++ [.named name value]) = positionals done := by
    simp [positionals_concat, Token.positional?]
  have hassignments : assignments (done ++ [.named name value]) =
      assignments done ++ [(lower name, value)] := by
    simp [assignments_concat, Token.assignment?]
  refine ⟨?_, ?_, ?_, ?_⟩
  · rw [hpositionals, ← h.positions, OrderedMap.keys_insert]
    split <;> simp [Key.position?]
  · intro i
    rw [hpositionals, ← h.value_position, OrderedMap.get?_insert, if_neg (by simp)]
  · rw [hassignments, List.map_append, List.map_singleton, eraseDups_concat, ← h.names,
      OrderedMap.keys_insert]
    simp only [h.name_mem_iff]
    split <;> simp [Key.name?]
  · intro n
    rw [hassignments, OrderedMap.get?_insert, List.filter_append]
    by_cases hn : n = lower name
    · simp [hn]
    · simp [hn, Ne.symm hn, h.value_name]

/-- A token without a name gives the next position a value. -/
theorem Holds.positional (h : Holds decode done m) (hvalue : token.positional? = some value)
    (hname : token.assignment? = none) : Holds decode (done ++ [token])
      (m.insert (.position (positionals done).length) (decode value)) := by
  have hpositionals : positionals (done ++ [token]) = positionals done ++ [value] := by
    simp [positionals_concat, hvalue]
  have hassignments : assignments (done ++ [token]) = assignments done := by
    simp [assignments_concat, hname]
  have hkeys : (m.insert (.position (positionals done).length) (decode value)).keys =
      m.keys ++ [.position (positionals done).length] := by
    rw [OrderedMap.keys_insert, if_neg h.next_notMem]
  refine ⟨?_, ?_, ?_, ?_⟩
  · simp [hkeys, hpositionals, h.positions, List.range_succ, Key.position?]
  · intro i
    rw [hpositionals, OrderedMap.get?_insert]
    by_cases hi : i = (positionals done).length
    · simp [hi]
    · have hkey : Key.position i ≠ .position (positionals done).length := by
        intro he
        have hint := Key.position.inj he
        omega
      have hother : (positionals done ++ [value])[i]? = (positionals done)[i]? := by
        rcases Nat.lt_or_gt_of_ne hi with hlt | hlt
        · rw [List.getElem?_append_left hlt]
        · have hout : (positionals done ++ [value]).length ≤ i := by simp; omega
          rw [List.getElem?_eq_none hout, List.getElem?_eq_none (Nat.le_of_lt hlt)]
      rw [if_neg hkey, hother, h.value_position]
  · simp [hkeys, hassignments, h.names, Key.name?]
  · intro n
    rw [hassignments, ← h.value_name, OrderedMap.get?_insert, if_neg (by simp)]

/-- A quoted token that is empty changes nothing. -/
theorem Holds.dropped (h : Holds decode done m) : Holds decode (done ++ [.quoted []]) m := by
  have hpositionals : positionals (done ++ [.quoted []]) = positionals done := by
    simp [positionals_concat, Token.positional?]
  have hassignments : assignments (done ++ [.quoted []]) = assignments done := by
    simp [assignments_concat, Token.assignment?]
  refine ⟨?_, ?_, ?_, ?_⟩
  · simpa only [hpositionals] using h.positions
  · simpa only [hpositionals] using h.value_position
  · simpa only [hassignments] using h.names
  · simpa only [hassignments] using h.value_name

/-! All tokens of a text. -/

theorem Search.tokens_eq {t : Text} {ps : List Placed} (h : Search t 0 ps) :
    tokens t = ps.map fun a => a.written.token := by
  have hlexemes := h.lexemes_eq
  rw [List.drop_zero] at hlexemes
  rw [tokens, hlexemes, List.map_map]
  rfl

theorem holds_empty (decode : Text → Text) : Holds decode [] .empty :=
  ⟨rfl, fun _ => rfl, rfl, fun _ => rfl⟩

/-- By induction on the tokens that are left: the next free position is the number of values without
a name so far. -/
theorem holds_enter (h : Holds decode done m) (rest : List Token) :
    Holds decode (done ++ rest) (enter decode (positionals done).length m rest) := by
  induction rest generalizing done m with
  | nil => simpa [enter] using h
  | cons token rest ih =>
    cases token with
    | named name value =>
      have hrest := ih (h.named name value)
      simpa [enter, positionals_concat, Token.positional?] using hrest
    | quoted value =>
      cases value with
      | nil =>
        have hrest := ih h.dropped
        simpa [enter, positionals_concat, Token.positional?] using hrest
      | cons c value =>
        have hvalue : (Token.quoted (c :: value)).positional? = some (c :: value) := rfl
        have hrest := ih (h.positional hvalue rfl)
        simpa [enter, positionals_concat, Token.positional?] using hrest
    | bare value =>
      have hvalue : (Token.bare value).positional? = some value := rfl
      have hrest := ih (h.positional hvalue rfl)
      simpa [enter, positionals_concat, Token.positional?] using hrest

/-- If attribute text is read as a table, the table holds the tokens that the search for tokens gives,
values decoded as the configuration says. -/
theorem table_holds_tokens {config : Config} {text : Text} {m : OrderedMap Key Text}
    (h : parse config text = .table m) :
    ∃ ps, (∀ ps', Search (softenSpaces text) 0 ps' ↔ ps' = ps) ∧
      Holds (decoder config) (ps.map fun a => a.written.token) m := by
  obtain ⟨ps, hs⟩ := exists_search (softenSpaces text) 0
  obtain ⟨-, rfl⟩ := parse_eq_table_iff.mp h
  refine ⟨ps, ?_, ?_⟩
  · intro ps'
    constructor
    · exact fun h' => h'.unique hs
    · rintro rfl
      exact hs
  · rw [← hs.tokens_eq]
    exact holds_enter (holds_empty _) _

/-- A name in a capital letter and again in a small one, a quoted value that is empty, two values
without a name and an escape: `A=1 "" x b="\x41" a=2 "y z"`. -/
def repeated : Text :=
  ['A', '=', '1', ' ', '"', '"', ' ', 'x', ' ', 'b', '=', '"', '\\', 'x', '4', '1', '"', ' ', 'a', '=',
    '2', ' ', '"', 'y', ' ', 'z', '"']

/-- The quoted value that is empty takes no position, and the repeated name stands first with its last
value. -/
theorem table_holds_tokens_repeated : ∃ m, parse .default repeated = .table m ∧
    m.keys.filterMap Key.position? = [0, 1] ∧ m.get? (.position 0) = some ['x'] ∧
    m.get? (.position 1) = some ['y', ' ', 'z'] ∧ m.keys.filterMap Key.name? = [['a'], ['b']] ∧
    m.get? (.name ['a']) = some ['2'] ∧ m.get? (.name ['b']) = some ['A'] := by
  have hne : ∃ c ∈ repeated, isSpacing c = false := ⟨'A', by decide, by decide⟩
  have hp := parse_of_not_spacing .default hne
  obtain ⟨ps, hps, hh⟩ := table_holds_tokens hp
  have htokens : (ps.map fun a => a.written.token) = [.named ['A'] ['1'], .quoted [], .bare ['x'],
      .named ['b'] ['\\', 'x', '4', '1'], .named ['a'] ['2'], .quoted ['y', ' ', 'z']] := by
    rw [← ((hps ps).mpr rfl).tokens_eq]
    decide +kernel
  rw [htokens] at hh
  refine ⟨_, hp, hh.positions, hh.value_position 0, hh.value_position 1, ?_, ?_, ?_⟩
  · exact hh.names.trans (by decide +kernel)
  · exact (hh.value_name ['a']).trans (by decide +kernel)
  · exact (hh.value_name ['b']).trans (by decide +kernel)

end Attributes
end Shortcode
