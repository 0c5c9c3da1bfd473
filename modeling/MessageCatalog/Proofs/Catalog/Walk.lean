import MessageCatalog.Proofs.Catalog.HashTable

/-!
A search of a hash table in checked arithmetic, a place at a time until none remains. No sum needs
more than 32 bits and no difference is below zero, for tables of any size, so that the places are
those of the search in wrapping arithmetic.
-/
namespace MessageCatalog.Catalog

namespace Checked

def add? (a b : UInt32) : Option UInt32 :=
  if a.toNat + b.toNat < UInt32.size then some (a + b) else none

def sub? (a b : UInt32) : Option UInt32 :=
  if b.toNat ≤ a.toNat then some (a - b) else none

def mod? (a b : UInt32) : Option UInt32 :=
  if b.toNat = 0 then none else some (a % b)

theorem add?_eq_some {a b : UInt32} (h : a.toNat + b.toNat < UInt32.size) :
    add? a b = some (a + b) := if_pos h

theorem sub?_eq_some {a b : UInt32} (h : b ≤ a) : sub? a b = some (a - b) :=
  if_pos (UInt32.le_iff_toNat_le.mp h)

theorem mod?_eq_some {a b : UInt32} (h : b.toNat ≠ 0) : mod? a b = some (a % b) := if_neg h

end Checked

/-- A search that counts the places it still has to visit. -/
structure Walk where
  probe : Probe
  remaining : UInt32
deriving DecidableEq, Repr

namespace Walk

open Checked

/-- The walk of a hash over a table, unless a number on the way is out of range. A table that is too
small to count is not visited. -/
def start? (hash size : UInt32) : Option Walk :=
  if size ≤ 2 then some ⟨⟨0, 1, size⟩, 0⟩
  else do
    let index ← mod? hash size
    let offset ← mod? hash (← sub? size 2)
    let step ← add? 1 offset
    return ⟨⟨index, step, size⟩, size⟩

/-- The place visited and the walk after it, unless a number on the way is out of range. -/
def visit? (w : Walk) : Option (UInt32 × Walk) := do
  let remaining ← sub? w.remaining 1
  let gap ← sub? w.probe.size w.probe.step
  let index ←
    if gap ≤ w.probe.index then sub? w.probe.index gap else add? w.probe.index w.probe.step
  return (w.probe.index, ⟨{ w.probe with index }, remaining⟩)

/-- A walk visits places in an order, and then none remains. -/
inductive Yields : Walk → List UInt32 → Prop
  | done {w : Walk} : w.remaining = 0 → Yields w []
  | visit {w rest : Walk} {place : UInt32} {places : List UInt32} : w.remaining ≠ 0 →
      w.visit? = some (place, rest) → Yields rest places → Yields w (place :: places)

theorem Yields.unique {w : Walk} {places others : List UInt32} (h : w.Yields places)
    (h' : w.Yields others) : places = others := by
  induction h generalizing others with
  | done h0 =>
    cases h' with
    | done => rfl
    | visit hne => exact absurd h0 hne
  | visit hne hv _ ih =>
    cases h' with
    | done h0 => exact absurd h0 hne
    | visit _ hv' hrest =>
      rw [hv] at hv'
      obtain ⟨rfl, rfl⟩ := Prod.mk.inj (Option.some.inj hv')
      rw [ih hrest]

theorem start?_eq_some {hash size : UInt32} (h : 2 < size) :
    start? hash size = some ⟨Probe.start hash size, size⟩ := by
  have h2 : 2 < size.toNat := UInt32.lt_iff_toNat_lt.mp h
  have hsub := Probe.toNat_sub_two h2
  have hadd : add? 1 (hash % (size - 2)) = some (1 + hash % (size - 2)) := by
    have hm : hash.toNat % (size.toNat - 2) < size.toNat - 2 := Nat.mod_lt _ (by omega)
    have hlt := size.toNat_lt_size
    refine add?_eq_some ?_
    rw [UInt32.toNat_mod, hsub, UInt32.toNat_one]
    omega
  rw [start?, if_neg (UInt32.not_le.mpr h), mod?_eq_some (by omega),
    sub?_eq_some (UInt32.le_of_lt h)]
  simp only [bind, Option.bind, mod?_eq_some (a := hash) (b := size - 2) (by omega), hadd]
  rfl

/-- A visit is a step of the search, and in neither direction is its index out of range. -/
theorem visit?_eq_some {p : Probe} (hp : p.Valid) {remaining : UInt32} (hr : remaining ≠ 0) :
    visit? ⟨p, remaining⟩ = some (p.index, ⟨p.next, remaining - 1⟩) := by
  have hpos : 1 ≤ remaining :=
    UInt32.le_iff_toNat_le.mpr (Nat.pos_of_ne_zero fun h0 => hr (UInt32.toNat_inj.mp h0))
  rw [visit?, sub?_eq_some hpos, sub?_eq_some hp.step_le]
  by_cases h : p.size - p.step ≤ p.index
  · simp only [bind, Option.bind, if_pos h, sub?_eq_some h, Probe.next]
    rfl
  · -- Before the end of the table the sum is below the size, which fits.
    have hadd : add? p.index p.step = some (p.index + p.step) := by
      rw [UInt32.le_iff_toNat_le, hp.toNat_gap] at h
      have hlt := p.size.toNat_lt_size
      exact add?_eq_some (by omega)
    simp only [bind, Option.bind, if_neg h, hadd, Probe.next]
    rfl

theorem yields_places {p : Probe} (hp : p.Valid) (remaining : UInt32) :
    Yields ⟨p, remaining⟩ (p.places remaining.toNat) := by
  generalize hk : remaining.toNat = k
  induction k generalizing p remaining with
  | zero => exact .done (UInt32.toNat_inj.mp hk)
  | succ k ih =>
    have hne : remaining ≠ 0 := by
      rintro rfl
      cases hk
    have hpos : 1 ≤ remaining := UInt32.le_iff_toNat_le.mpr (hk ▸ Nat.succ_pos k)
    refine .visit hne (visit?_eq_some hp hne) (ih (Probe.next_valid hp) _ ?_)
    rw [UInt32.toNat_sub_of_le _ _ hpos, hk]
    rfl

/-- A walk over a table of more than two slots has as many places as the table, which are the
multiples of its step counted from its start round the table, and no number on the way is out of
range. A step that shares no factor with the size leads to every slot once, and if the size is prime
every step does. -/
theorem start?_yields (hash size : UInt32) (h : 2 < size) :
    ∃ w items, start? hash size = some w ∧ (∀ places, w.Yields places ↔ places = items) ∧
      (∀ limit, slotSequence hash size limit = items.take limit) ∧ items.length = size.toNat ∧
      (∀ k < size.toNat, items[k]?.map UInt32.toNat =
        some ((hash.toNat % size.toNat + k * (1 + hash.toNat % (size.toNat - 2))) % size.toNat)) ∧
      ((1 + hash.toNat % (size.toNat - 2)).Coprime size.toNat →
        (items.map UInt32.toNat).Perm (List.range size.toNat)) ∧
      (size.toNat.Prime → (1 + hash.toNat % (size.toNat - 2)).Coprime size.toNat) := by
  have h2 : 2 < size.toNat := UInt32.lt_iff_toNat_lt.mp h
  have hp := Probe.start_valid hash size h2
  have hstep := Probe.start_step hash size h2
  have hyields := yields_places hp size
  refine ⟨⟨Probe.start hash size, size⟩, (Probe.start hash size).places size.toNat,
    start?_eq_some h, ?_, ?_, Probe.length_places _ _, ?_, ?_, ?_⟩
  · exact fun places => ⟨fun h' => h'.unique hyields, fun he => he ▸ hyields⟩
  · intro limit
    rw [Probe.take_places, slotSequence, visits_of_two_lt h2]
  · intro k hk
    rw [Probe.getElem?_places hp hk, Probe.start_index, hstep]
    rfl
  · exact fun hc => Probe.places_perm hp (hstep ▸ hc)
  · exact fun hprime => hstep ▸ Probe.step_coprime hprime h2

theorem start?_yields_seven :
    2 < (7 : UInt32) ∧ Nat.Prime 7 ∧ Nat.Coprime (1 + 9 % (7 - 2)) 7 ∧
      ∃ w items, start? 9 7 = some w ∧ (∀ places, w.Yields places ↔ places = items) ∧
        (∀ limit, slotSequence 9 7 limit = items.take limit) ∧ items.length = 7 ∧
        (∀ k < 7, items[k]?.map UInt32.toNat = some ((9 % 7 + k * (1 + 9 % (7 - 2))) % 7)) ∧
        (items.map UInt32.toNat).Perm (List.range 7) := by
  have hprime : Nat.Prime 7 := by decide
  obtain ⟨w, items, hw, hyields, hlimit, hlength, hitem, hperm, hcoprime⟩ :=
    start?_yields 9 7 (by decide)
  exact ⟨by decide, hprime, hcoprime hprime, w, items, hw, hyields, hlimit, hlength, hitem,
    hperm (hcoprime hprime)⟩

example : slotSequence 9 7 7 = [2, 0, 5, 3, 1, 6, 4] := by decide

end Walk

end MessageCatalog.Catalog
