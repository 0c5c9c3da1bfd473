import MessageCatalog.Bytes

/-! The hash of a key, and the slots of a hash table in the order in which a search visits them. -/
namespace MessageCatalog.Catalog

/-- One more byte: the top four bits of the sum are folded back into it. -/
def hashStep (value : UInt32) (b : UInt8) : UInt32 :=
  let sum := (value <<< 4) + b.toUInt32
  let high := sum &&& 0xf0000000
  if high = 0 then sum else sum ^^^ (high >>> 24) ^^^ high

def hashKey (key : Bytes) : UInt32 := key.foldl hashStep 0

/-- A place in a hash table, and the distance to the next one visited. -/
structure Probe where
  index : UInt32
  step : UInt32
  size : UInt32
deriving DecidableEq, Repr

namespace Probe

def start (hash size : UInt32) : Probe := ⟨hash % size, 1 + hash % (size - 2), size⟩

/-- The next place; past the end of the table the search goes on from its start. -/
def next (p : Probe) : Probe :=
  if p.size - p.step ≤ p.index then { p with index := p.index - (p.size - p.step) }
  else { p with index := p.index + p.step }

def places : Nat → Probe → List UInt32
  | 0, _ => []
  | k + 1, p => p.index :: places k p.next

/-- The first answer that a visit gives on the next `k` places. -/
def search {α : Type} (visit : UInt32 → Option α) : Nat → Probe → Option α
  | 0, _ => none
  | k + 1, p =>
      match visit p.index with
      | some answer => some answer
      | none => search visit k p.next

theorem search_eq_findSome? {α : Type} (visit : UInt32 → Option α) (k : Nat) (p : Probe) :
    search visit k p = (p.places k).findSome? visit := by
  induction k generalizing p with
  | zero => rfl
  | succ k ih =>
    simp only [search, places, List.findSome?_cons, ih]
    cases visit p.index <;> rfl

end Probe

/-- How many places a search visits at most: each slot once, and none of a table that is too
small to count. -/
def visits (size : UInt32) : Nat := if size ≤ 2 then 0 else size.toNat

def slotSequence (hash size : UInt32) (limit : Nat) : List UInt32 :=
  (Probe.start hash size).places (min limit (visits size))

end MessageCatalog.Catalog
