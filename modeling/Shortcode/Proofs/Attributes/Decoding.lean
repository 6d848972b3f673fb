import Shortcode.Attributes.Basic
import Shortcode.OrderedMap.Lemmas

/-! Decoding touches the values of attributes and nothing else: what the tokens are, which of them
are dropped and which keys they get is settled by the text as it stands. -/
namespace Shortcode.Attributes
open Text
variable {t : Text} {on off : Config}

/-- Attributes with all values decoded. Plain text is no value. -/
def decoded (decode : Text → Text) : Attributes → Attributes
  | table m => .table (m.mapValues fun _ => decode)
  | plain t => .plain t

/-- By induction on the tokens: to decode a value before it is entered or afterwards is the same, and
whether a quoted token is empty is not asked of what its value stands for. -/
theorem enter_mapValues (decode : Text → Text) (next : Nat) (m : OrderedMap Key Text)
    (tokens : List Token) : enter decode next (m.mapValues fun _ => decode) tokens =
      (enter id next m tokens).mapValues fun _ => decode := by
  induction tokens generalizing next m with
  | nil => rfl
  | cons token tokens ih =>
    cases token with
    | named name value =>
      have hm := OrderedMap.mapValues_insert decode m (.name (lower name)) value
      simp only [enter, id_eq, ← hm, ih]
    | quoted value =>
      cases value with
      | nil => exact ih next m
      | cons c value =>
        have hm := OrderedMap.mapValues_insert decode m (.position next) (c :: value)
        simp only [enter, id_eq, ← hm, ih]
    | bare value =>
      have hm := OrderedMap.mapValues_insert decode m (.position next) value
      simp only [enter, id_eq, ← hm, ih]

theorem read_eq_decoded (decode : Text → Text) (t : Text) :
    read decode t = (read id t).decoded decode := by
  have hempty : (OrderedMap.empty : OrderedMap Key Text).mapValues (fun _ => decode) = .empty := rfl
  simp only [read]
  split
  · rfl
  · simp only [decoded, ← enter_mapValues, hempty]

theorem parse_of_unescapes (h : on.unescapes = true) (t : Text) : parse on t = read unescape t := by
  simp [parse, decoder, h]

theorem parse_of_not_unescapes (h : off.unescapes = false) (t : Text) : parse off t = read id t := by
  simp [parse, decoder, h]

/-- With escapes resolved and without, a text is plain both times and the same, or a table both times
with the same keys in the same order, and then each value is the other one with its escapes resolved. -/
theorem parse_unescapes_values_only (hon : on.unescapes = true) (hoff : off.unescapes = false)
    (t : Text) : (∃ u, parse on t = .plain u ∧ parse off t = .plain u) ∨
      ∃ m m', parse off t = .table m ∧ parse on t = .table m' ∧ m'.keys = m.keys ∧
        m'.entries = m.entries.map fun e => (e.1, unescape e.2) := by
  have hdecoded := read_eq_decoded unescape t
  rw [← parse_of_unescapes hon, ← parse_of_not_unescapes hoff] at hdecoded
  cases hp : parse off t with
  | plain u =>
    rw [hp] at hdecoded
    exact Or.inl ⟨u, hdecoded, rfl⟩
  | table m =>
    rw [hp] at hdecoded
    exact Or.inr ⟨m, m.mapValues fun _ => unescape, rfl, hdecoded, m.keys_mapValues _, rfl⟩

/-- The entries of a table. Plain text has none. -/
def entries : Attributes → List (Key × Text)
  | table m => m.entries
  | plain _ => []

/-- A named value that reads like another token once its escape is resolved, a quoted value that is
empty, the same name in a capital letter, and a bare value: `a="\x62=1" "" A=\x3d \101`. -/
def encoded : Text :=
  ['a', '=', '"', '\\', 'x', '6', '2', '=', '1', '"', ' ', '"', '"', ' ', 'A', '=', '\\', 'x', '3',
    'd', ' ', '\\', '1', '0', '1']

/-- Both times the repeated name stands first with its last value, and the bare value has the first
position. -/
theorem parse_unescapes_values_only_encoded : ∃ m m',
    parse { unescapeValues := .bool false } encoded = .table m ∧ parse .default encoded = .table m' ∧
      m'.keys = m.keys ∧
      m.entries = [(.name ['a'], ['\\', 'x', '3', 'd']), (.position 0, ['\\', '1', '0', '1'])] ∧
      m'.entries = [(.name ['a'], ['=']), (.position 0, ['A'])] := by
  have hentries : (parse { unescapeValues := .bool false } encoded).entries =
      [(.name ['a'], ['\\', 'x', '3', 'd']), (.position 0, ['\\', '1', '0', '1'])] := by
    decide +kernel
  have hon : Config.default.unescapes = true := rfl
  have hoff : ({ unescapeValues := .bool false } : Config).unescapes = false := rfl
  obtain ⟨u, -, hu⟩ | ⟨m, m', hm, hm', hk, he⟩ := parse_unescapes_values_only hon hoff encoded
  · rw [hu] at hentries
    cases hentries
  · rw [hm] at hentries
    have hvalues : m.entries.map (fun e => (e.1, unescape e.2)) =
        [(.name ['a'], ['=']), (.position 0, ['A'])] := by
      rw [show m.entries = _ from hentries]
      decide +kernel
    exact ⟨m, m', hm, hm', hk, hentries, he.trans hvalues⟩

end Shortcode.Attributes
