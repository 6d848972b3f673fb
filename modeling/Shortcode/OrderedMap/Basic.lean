/-! Finite maps that remember the order in which their keys were first written. -/
namespace Shortcode

/-- The entries of a map, oldest key first; no key occurs twice. -/
structure OrderedMap (κ α : Type) where
  entries : List (κ × α)
  nodup : (entries.map Prod.fst).Nodup

namespace OrderedMap
variable {κ α β : Type} [DecidableEq κ]

def empty : OrderedMap κ α := ⟨[], by simp⟩

instance : Inhabited (OrderedMap κ α) := ⟨empty⟩

def keys (m : OrderedMap κ α) : List κ := m.entries.map Prod.fst

def size (m : OrderedMap κ α) : Nat := m.entries.length

def get? (m : OrderedMap κ α) (k : κ) : Option α := m.entries.lookup k

def contains (m : OrderedMap κ α) (k : κ) : Bool := (m.get? k).isSome

/-- Gives every entry a new value; the keys stay as they are. -/
def mapValues (f : κ → α → β) (m : OrderedMap κ α) : OrderedMap κ β where
  entries := m.entries.map fun (k, a) => (k, f k a)
  nodup := by simpa [Function.comp_def] using m.nodup

/-- Replaces the value of a key where the key stands, or writes a new key at the end. -/
def insert (m : OrderedMap κ α) (k : κ) (a : α) : OrderedMap κ α :=
  if h : k ∈ m.keys then m.mapValues fun k' a' => if k' = k then a else a'
  else
    { entries := m.entries ++ [(k, a)]
      nodup := by
        have hd : ∀ x ∈ m.entries.map Prod.fst, x ≠ k := fun x hx he => h (he ▸ hx)
        simpa [List.nodup_append, m.nodup] using hd }

def erase (m : OrderedMap κ α) (k : κ) : OrderedMap κ α where
  entries := m.entries.filter fun e => e.1 ≠ k
  nodup := m.nodup.sublist (List.filter_sublist.map Prod.fst)

/-- Writes the pairs in order, so a repeated key keeps its first place and its last value. -/
def ofList (pairs : List (κ × α)) : OrderedMap κ α :=
  pairs.foldl (fun m e => m.insert e.1 e.2) empty

end OrderedMap
end Shortcode
