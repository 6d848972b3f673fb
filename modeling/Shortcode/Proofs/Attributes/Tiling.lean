import Mathlib.Data.Nat.Find
import Mathlib.Order.Bounds.Basic
import Shortcode.Proofs.Attributes.Line
import Shortcode.Proofs.Attributes.Reading
import Shortcode.Proofs.Text.Offsets

/-! The tokens of a text lie one behind another and leave nothing but white space between them. So the
search for tokens, which looks for the first place where any token stands, passes over no character
that is not white space, and finds nothing in white space alone. -/
namespace Shortcode.Attributes
open Text
variable {t rest : Text} {pos i : Nat} {c : Char}

/-- A token with the place where it begins. -/
structure Placed where
  start : Nat
  written : Written

namespace Placed

def stop (a : Placed) : Nat := a.start + a.written.print.length

def lexeme (a : Placed) : Lexeme := ⟨a.written.print, a.written.token⟩

end Placed

variable {a : Placed} {ps ps' : List Placed}

/-- Some token stands at a place. -/
def Begins (t : Text) (p : Nat) : Prop := ∃ (w : Written) (rest : Text), w.Stands (t.drop p) rest

/-- What a search for tokens finds from `pos` on: at the first place where any token stands the first
one there, and then what it finds behind the character that ends this one. -/
inductive Search (t : Text) : (pos : Nat) → List Placed → Prop
  | done {pos : Nat} (h : ∀ p, pos ≤ p → ¬ Begins t p) : Search t pos []
  | found {pos : Nat} {a : Placed} {rest : Text} {ps : List Placed}
      (hs : IsLeast {p | pos ≤ p ∧ Begins t p} a.start)
      (hf : a.written.First (t.drop a.start) rest) (h : Search t (a.stop + 1) ps) :
      Search t pos (a :: ps)

/-- A token begins at the first character from `pos` on that is no white space, and ends just before
white space or at the end of the text. -/
structure Piece (t : Text) (pos : Nat) (a : Placed) : Prop where
  pos_le : pos ≤ a.start
  blank : ∀ i c, pos ≤ i → i < a.start → t[i]? = some c → isBlank c = true
  head : ∃ c, t[a.start]? = some c ∧ isBlank c = false
  start_lt : a.start < a.stop
  text : t.extract a.start a.stop = a.written.print
  ends : ∀ c, t[a.stop]? = some c → isBlank c = true

/-- Tokens one behind another from `pos` on, with white space between and behind them. -/
def Tiles (t : Text) : (pos : Nat) → List Placed → Prop
  | pos, [] => ∀ i c, pos ≤ i → t[i]? = some c → isBlank c = true
  | pos, a :: ps => Piece t pos a ∧ Tiles t a.stop ps

/-! One step of the search. -/

theorem exists_first (hp : t[pos]? = some c) (hc : isBlank c = false) :
    ∃ (w : Written) (rest : Text), w.First (t.drop pos) rest := by
  obtain ⟨w, rest, hf, -⟩ := tokenAt_first hc (t.drop (pos + 1))
  rw [← drop_cons_of_getElem? hp] at hf
  exact ⟨w, rest, hf⟩

/-- A token stands wherever no white space is. -/
theorem begins_iff : Begins t pos ↔ ∃ c, t[pos]? = some c ∧ isBlank c = false := by
  constructor
  · rintro ⟨w, rest, h⟩
    obtain ⟨c, u, hu, hc⟩ := h.head
    refine ⟨c, ?_, hc⟩
    rw [← List.head?_drop, hu, List.head?_cons]
  · rintro ⟨c, hp, hc⟩
    obtain ⟨w, rest, hf⟩ := exists_first hp hc
    exact ⟨w, rest, hf.stands⟩

theorem isBlank_of_not_begins (h : ¬ Begins t pos) (hc : t[pos]? = some c) : isBlank c = true := by
  by_contra hb
  exact h (begins_iff.mpr ⟨c, hc, by simpa using hb⟩)

theorem Placed.drop_stop (h : a.written.Stands (t.drop a.start) rest) : t.drop a.stop = rest :=
  drop_of_drop h.eq_append

theorem Placed.isBlank_stop (h : a.written.Stands (t.drop a.start) rest)
    (hc : t[a.stop]? = some c) : isBlank c = true := by
  have hrest := Placed.drop_stop h
  apply isBlank_of_endsHere h.ends
  rw [← hrest, List.head?_drop]
  exact hc

theorem piece_of_first (hs : IsLeast {p | pos ≤ p ∧ Begins t p} a.start)
    (hf : a.written.First (t.drop a.start) rest) : Piece t pos a where
  pos_le := hs.1.1
  blank := by
    intro i c hi hlt hc
    apply isBlank_of_not_begins _ hc
    intro hb
    have hle := hs.2 ⟨hi, hb⟩
    omega
  head := begins_iff.mp hs.1.2
  start_lt := by
    have hpos := hf.stands.formed.length_print_pos
    rw [Placed.stop]
    omega
  text := extract_of_drop hf.stands.eq_append
  ends := fun c hc => Placed.isBlank_stop hf.stands hc

theorem tiles_of_succ (hb : ∀ c, t[pos]? = some c → isBlank c = true) (h : Tiles t (pos + 1) ps) :
    Tiles t pos ps := by
  cases ps with
  | nil =>
    intro i c hi hc
    rcases Nat.eq_or_lt_of_le hi with rfl | hlt
    · exact hb c hc
    · exact h i c hlt hc
  | cons a ps =>
    obtain ⟨⟨hle, hbetween, hhead, hstop, htext, hends⟩, hps⟩ := h
    refine ⟨⟨Nat.le_of_succ_le hle, ?_, hhead, hstop, htext, hends⟩, hps⟩
    intro i c hi hia hc
    rcases Nat.eq_or_lt_of_le hi with rfl | hlt
    · exact hb c hc
    · exact hbetween i c hlt hia hc

theorem lexemes_of_first {w : Written} (h : w.First t rest) :
    lexemes t = ⟨w.print, w.token⟩ :: lexemes rest := by
  obtain ⟨c, u, hu, hc⟩ := h.stands.head
  obtain ⟨w', rest', hf, htoken⟩ := tokenAt_first hc u
  rw [← hu] at hf htoken
  obtain ⟨rfl, rfl⟩ := h.unique hf
  obtain ⟨d, source, hsource⟩ : ∃ d source, w.print = d :: source :=
    List.exists_cons_of_length_pos h.stands.formed.length_print_pos
  have ht := h.stands.eq_append
  rw [hsource] at ht ⊢
  rw [ht] at hu htoken ⊢
  obtain ⟨rfl, -⟩ := List.cons.inj hu
  exact lexemes_of_tokenAt hc htoken

/-! A whole search. -/

theorem Search.tiles (h : Search t pos ps) : Tiles t pos ps := by
  induction h with
  | done hn =>
    intro i c hi hc
    exact isBlank_of_not_begins (hn i hi) hc
  | @found pos a rest ps hs hf _ ih =>
    refine ⟨piece_of_first hs hf, tiles_of_succ ?_ ih⟩
    intro c hc
    exact Placed.isBlank_stop hf.stands hc

/-- Nothing is read of white space in front of a place. -/
theorem lexemes_drop_of_blank (hle : pos ≤ i)
    (hb : ∀ k c, pos ≤ k → k < i → t[k]? = some c → isBlank c = true) :
    lexemes (t.drop pos) = lexemes (t.drop i) := by
  induction i, hle using Nat.le_induction with
  | base => rfl
  | succ i hle ih =>
    rw [ih fun k c hk hlt => hb k c hk (Nat.lt_succ_of_lt hlt)]
    cases hc : t[i]? with
    | none =>
      have hend := List.getElem?_eq_none_iff.mp hc
      rw [List.drop_eq_nil_of_le hend, List.drop_eq_nil_of_le (Nat.le_succ_of_le hend)]
    | some c =>
      rw [drop_cons_of_getElem? hc, lexemes_cons_blank (hb i c hle (Nat.lt_succ_self i) hc)]

theorem Search.lexemes_eq (h : Search t pos ps) : lexemes (t.drop pos) = ps.map Placed.lexeme := by
  induction h with
  | @done pos hn =>
    have hb : ∀ k c, pos ≤ k → k < pos + t.length → t[k]? = some c → isBlank c = true :=
      fun k c hk _ hc => isBlank_of_not_begins (hn k hk) hc
    rw [lexemes_drop_of_blank (Nat.le_add_right _ _) hb, List.drop_eq_nil_of_le (Nat.le_add_left _ _)]
    rfl
  | @found pos a rest ps hs hf _ ih =>
    have hpiece := piece_of_first hs hf
    -- the search goes on behind the white space that ends the token, the reader in front of it
    have hstop : lexemes (t.drop a.stop) = lexemes (t.drop (a.stop + 1)) := by
      apply lexemes_drop_of_blank (Nat.le_succ _)
      intro k c hk hlt hc
      obtain rfl : k = a.stop := by omega
      exact hpiece.ends c hc
    rw [lexemes_drop_of_blank hpiece.pos_le hpiece.blank, lexemes_of_first hf,
      ← Placed.drop_stop hf.stands, hstop, ih]
    rfl

theorem Search.unique (h : Search t pos ps) (h' : Search t pos ps') : ps = ps' := by
  induction h generalizing ps' with
  | done hn =>
    cases h' with
    | done => rfl
    | found hs => exact (hn _ hs.1.1 hs.1.2).elim
  | @found pos a rest ps hs hf _ ih =>
    cases h' with
    | done hn => exact (hn _ hs.1.1 hs.1.2).elim
    | @found _ a' rest' ps' hs' hf' h' =>
      obtain ⟨start, w⟩ := a
      obtain ⟨start', w'⟩ := a'
      obtain rfl : start = start' := hs.unique hs'
      obtain ⟨rfl, -⟩ := hf.unique hf'
      rw [ih h']

/-- A search gives all tokens, by induction on how much of the text is left. -/
theorem exists_search (t : Text) (pos : Nat) : ∃ ps, Search t pos ps := by
  classical
  induction hn : t.length - pos using Nat.strongRecOn generalizing pos with
  | ind n ih =>
    by_cases hex : ∃ p, pos ≤ p ∧ Begins t p
    · have hs : IsLeast {p | pos ≤ p ∧ Begins t p} (Nat.find hex) :=
        ⟨Nat.find_spec hex, fun p hp => Nat.find_min' hex hp⟩
      obtain ⟨c, hc, hblank⟩ := begins_iff.mp hs.1.2
      obtain ⟨w, rest, hf⟩ := exists_first hc hblank
      obtain ⟨hlt, -⟩ := List.getElem?_eq_some_iff.mp hc
      have hle := hs.1.1
      have hstop : Nat.find hex ≤ (Placed.mk (Nat.find hex) w).stop := Nat.le_add_right _ _
      obtain ⟨ps, hps⟩ := ih _ (by omega) ((Placed.mk (Nat.find hex) w).stop + 1) rfl
      exact ⟨⟨Nat.find hex, w⟩ :: ps, .found hs hf hps⟩
    · exact ⟨[], .done fun p hp hb => hex ⟨p, hp, hb⟩⟩

/-! What the tokens cover. -/

theorem Tiles.le_start (h : Tiles t pos ps) : ∀ a ∈ ps, pos ≤ a.start := by
  induction ps generalizing pos with
  | nil => simp
  | cons b ps ih =>
    obtain ⟨hb, hps⟩ := h
    have hle := hb.pos_le
    have hlt := hb.start_lt
    intro a ha
    rcases List.mem_cons.mp ha with rfl | ha
    · exact hle
    · have hstart := ih hps a ha
      omega

/-- A character that is no white space lies in exactly one token. -/
theorem Tiles.exists_unique (h : Tiles t pos ps) (hi : pos ≤ i) (hc : t[i]? = some c)
    (hb : isBlank c = false) : ∃! a, a ∈ ps ∧ a.start ≤ i ∧ i < a.stop := by
  induction ps generalizing pos with
  | nil =>
    rw [h i c hi hc] at hb
    cases hb
  | cons a ps ih =>
    obtain ⟨ha, hps⟩ := h
    have hstart : a.start ≤ i := by
      by_contra hlt
      rw [ha.blank i c hi (by omega) hc] at hb
      cases hb
    by_cases hstop : i < a.stop
    · refine ⟨a, ⟨List.mem_cons_self, hstart, hstop⟩, ?_⟩
      rintro b ⟨hm, hle, -⟩
      rcases List.mem_cons.mp hm with rfl | hm
      · rfl
      · have hbehind := hps.le_start b hm
        omega
    · obtain ⟨b, ⟨hm, hin⟩, hunique⟩ := ih hps (by omega)
      refine ⟨b, ⟨List.mem_cons_of_mem a hm, hin⟩, ?_⟩
      rintro d ⟨hd, hin'⟩
      rcases List.mem_cons.mp hd with rfl | hd
      · exact (hstop hin'.2).elim
      · exact hunique d ⟨hd, hin'⟩

theorem lexemes_eq_nil_iff : lexemes t = [] ↔ ∀ c ∈ t, isBlank c = true := by
  constructor
  · intro h
    obtain ⟨ps, hs⟩ := exists_search t 0
    have hps := hs.lexemes_eq
    rw [List.drop_zero, h] at hps
    obtain rfl : ps = [] := List.map_eq_nil_iff.mp hps.symm
    intro c hc
    obtain ⟨i, hi⟩ := List.mem_iff_getElem?.mp hc
    exact hs.tiles i c (Nat.zero_le i) hi
  · intro h
    have hnil := lexemes_append_of_blank h []
    rwa [List.append_nil] at hnil

/-- White space and hard spaces are all that can be left as white space. -/
theorem forall_isBlank_softenSpaces_iff {text : Text} :
    (∀ c ∈ softenSpaces text, isBlank c = true) ↔ ∀ c ∈ text, isSpacing c = true := by
  constructor
  · intro h c hc
    by_cases hs : isHardSpace c = true
    · simp [isSpacing, hs]
    · have hm : c ∈ softenSpaces text := mem_softenSpaces hc (by simpa using hs)
      simp [isSpacing, h c hm]
  · exact isBlank_of_mem_softenSpaces

theorem tokens_eq_nil_iff {text : Text} :
    tokens (softenSpaces text) = [] ↔ ∀ c ∈ text, isSpacing c = true := by
  rw [tokens, List.map_eq_nil_iff, lexemes_eq_nil_iff, forall_isBlank_softenSpaces_iff]

/-- Without tokens there is nothing left of a text but white space, and that is trimmed. -/
theorem parse_of_spacing (config : Config) {text : Text} (h : ∀ c ∈ text, isSpacing c = true) :
    parse config text = .plain [] := by
  have hblank : trimLeft (softenSpaces text) = [] :=
    List.dropWhile_eq_nil_iff.mpr (forall_isBlank_softenSpaces_iff.mpr h)
  rw [parse, read, tokens_eq_nil_iff.mpr h, hblank]

theorem parse_of_not_spacing (config : Config) {text : Text}
    (h : ∃ c ∈ text, isSpacing c = false) : parse config text =
      .table (enter (decoder config) 0 .empty (tokens (softenSpaces text))) := by
  rw [parse, read]
  cases ht : tokens (softenSpaces text) with
  | nil =>
    obtain ⟨c, hc, hs⟩ := h
    rw [tokens_eq_nil_iff.mp ht c hc] at hs
    cases hs
  | cons => rfl

theorem spacing_or_not (text : Text) :
    (∀ c ∈ text, isSpacing c = true) ∨ ∃ c ∈ text, isSpacing c = false := by
  by_cases h : ∀ c ∈ text, isSpacing c = true
  · exact Or.inl h
  · exact Or.inr (by simpa using h)

theorem parse_eq_plain_iff {config : Config} {text u : Text} :
    parse config text = .plain u ↔ (∀ c ∈ text, isSpacing c = true) ∧ u = [] := by
  constructor
  · intro h
    rcases spacing_or_not text with hs | hs
    · rw [parse_of_spacing config hs] at h
      exact ⟨hs, (Attributes.plain.inj h).symm⟩
    · rw [parse_of_not_spacing config hs] at h
      cases h
  · rintro ⟨hs, rfl⟩
    exact parse_of_spacing config hs

theorem parse_eq_table_iff {config : Config} {text : Text} {m : OrderedMap Key Text} :
    parse config text = .table m ↔ (∃ c ∈ text, isSpacing c = false) ∧
      m = enter (decoder config) 0 .empty (tokens (softenSpaces text)) := by
  constructor
  · intro h
    rcases spacing_or_not text with hs | hs
    · rw [parse_of_spacing config hs] at h
      cases h
    · rw [parse_of_not_spacing config hs] at h
      exact ⟨hs, (Attributes.table.inj h).symm⟩
  · rintro ⟨hs, rfl⟩
    exact parse_of_not_spacing config hs

/-- The search for tokens gives tokens one behind another with white space alone between and behind
them, so that each character that is no white space lies in exactly one of them. Attributes are plain
text if the text is spacing and nothing else, and then they are empty; else they are the table in which
these tokens are entered. -/
theorem tokens_tile (config : Config) (text : Text) : ∃ ps,
    (∀ ps', Search (softenSpaces text) 0 ps' ↔ ps' = ps) ∧
    lexemes (softenSpaces text) = ps.map Placed.lexeme ∧
    Tiles (softenSpaces text) 0 ps ∧
    (∀ i c, (softenSpaces text)[i]? = some c → isBlank c = false →
      ∃! a, a ∈ ps ∧ a.start ≤ i ∧ i < a.stop) ∧
    (∀ u, parse config text = .plain u ↔ (∀ c ∈ text, isSpacing c = true) ∧ u = []) ∧
    ∀ m, parse config text = .table m ↔ (∃ c ∈ text, isSpacing c = false) ∧
      m = enter (decoder config) 0 .empty (ps.map fun a => a.written.token) := by
  obtain ⟨ps, hs⟩ := exists_search (softenSpaces text) 0
  have htiles := hs.tiles
  have hlexemes := hs.lexemes_eq
  rw [List.drop_zero] at hlexemes
  have htokens : tokens (softenSpaces text) = ps.map fun a => a.written.token := by
    rw [tokens, hlexemes, List.map_map]
    rfl
  refine ⟨ps, ?_, hlexemes, htiles, ?_, fun u => parse_eq_plain_iff, ?_⟩
  · intro ps'
    constructor
    · exact fun h => h.unique hs
    · rintro rfl
      exact hs
  · exact fun i c hc hb => htiles.exists_unique (Nat.zero_le i) hc hb
  · intro m
    rw [← htokens]
    exact parse_eq_table_iff

end Shortcode.Attributes
