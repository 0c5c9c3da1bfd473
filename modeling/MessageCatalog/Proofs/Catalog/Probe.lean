import Mathlib.Data.List.NodupEquivFin
import Mathlib.Data.Nat.ModEq
import Mathlib.Data.Nat.Prime.Basic
import MessageCatalog.Catalog.Hash

/-! The places of a search as multiples of its step, and why a prime table is searched whole. -/
namespace MessageCatalog.Catalog.Probe

/-- A place inside the table, and a step that is shorter than the table. -/
structure Valid (p : Probe) : Prop where
  index_lt : p.index.toNat < p.size.toNat
  step_pos : 0 < p.step.toNat
  step_lt : p.step.toNat < p.size.toNat

theorem Valid.step_le {p : Probe} (hp : p.Valid) : p.step ≤ p.size :=
  UInt32.le_iff_toNat_le.mpr hp.step_lt.le

theorem Valid.toNat_gap {p : Probe} (hp : p.Valid) :
    (p.size - p.step).toNat = p.size.toNat - p.step.toNat :=
  UInt32.toNat_sub_of_le _ _ hp.step_le

theorem toNat_sub_two {size : UInt32} (h : 2 < size.toNat) : (size - 2).toNat = size.toNat - 2 :=
  UInt32.toNat_sub_of_le _ _ (UInt32.le_iff_toNat_le.mpr h.le)

@[simp] theorem next_step (p : Probe) : p.next.step = p.step := by
  unfold next
  split <;> rfl

@[simp] theorem next_size (p : Probe) : p.next.size = p.size := by
  unfold next
  split <;> rfl

theorem start_index (hash size : UInt32) :
    (start hash size).index.toNat = hash.toNat % size.toNat := by
  simp [start]

theorem start_step (hash size : UInt32) (h : 2 < size.toNat) :
    (start hash size).step.toNat = 1 + hash.toNat % (size.toNat - 2) := by
  have hm : hash.toNat % (size.toNat - 2) < size.toNat - 2 := Nat.mod_lt _ (by omega)
  have hb := size.toNat_lt
  simp only [start, UInt32.toNat_add, UInt32.toNat_mod, toNat_sub_two h, UInt32.toNat_one]
  exact Nat.mod_eq_of_lt (by omega)

theorem start_valid (hash size : UInt32) (h : 2 < size.toNat) : (start hash size).Valid := by
  have hm : hash.toNat % (size.toNat - 2) < size.toNat - 2 := Nat.mod_lt _ (by omega)
  have hs := start_step hash size h
  refine ⟨?_, ?_, ?_⟩
  · rw [start_index]
    exact Nat.mod_lt _ (by omega)
  · omega
  · rw [hs]
    change _ < size.toNat
    omega

/-- Neither branch leaves the 32 bits of a place. -/
theorem next_index {p : Probe} (hp : p.Valid) :
    p.next.index.toNat = (p.index.toNat + p.step.toNat) % p.size.toNat := by
  have hd := hp.toNat_gap
  obtain ⟨hi, h0, hs⟩ := hp
  have hb := p.size.toNat_lt
  unfold next
  split_ifs with h
  · rw [UInt32.le_iff_toNat_le, hd] at h
    have hn : (p.index - (p.size - p.step)).toNat =
        p.index.toNat - (p.size.toNat - p.step.toNat) := by
      rw [UInt32.toNat_sub_of_le _ _ (UInt32.le_iff_toNat_le.mpr (by omega)), hd]
    rw [Nat.mod_eq_sub_mod (by omega), Nat.mod_eq_of_lt (by omega)]
    change (p.index - (p.size - p.step)).toNat = _
    omega
  · rw [UInt32.le_iff_toNat_le, hd] at h
    rw [Nat.mod_eq_of_lt (by omega)]
    change (p.index + p.step).toNat = _
    rw [UInt32.toNat_add]
    exact Nat.mod_eq_of_lt (by omega)

theorem next_valid {p : Probe} (hp : p.Valid) : p.next.Valid := by
  obtain ⟨hi, h0, hs⟩ := hp
  refine ⟨?_, by simpa using h0, by simpa using hs⟩
  rw [next_index ⟨hi, h0, hs⟩, next_size]
  exact Nat.mod_lt _ (by omega)

@[simp] theorem length_places (k : ℕ) (p : Probe) : (p.places k).length = k := by
  induction k generalizing p with
  | zero => rfl
  | succ k ih => rw [places, List.length_cons, ih]

/-- The places of a search are the multiples of its step, counted round the table. -/
theorem places_toNat {p : Probe} (hp : p.Valid) (k : ℕ) :
    (p.places k).map UInt32.toNat =
      (List.range k).map fun i => (p.index.toNat + i * p.step.toNat) % p.size.toNat := by
  induction k generalizing p with
  | zero => rfl
  | succ k ih =>
    rw [places, List.map_cons, ih (next_valid hp), List.range_succ_eq_map, List.map_cons,
      List.map_map, next_step, next_size, next_index hp]
    congr 1
    · simp [Nat.mod_eq_of_lt hp.index_lt]
    · apply List.map_congr_left
      intro i _
      rw [Function.comp_apply, Nat.mod_add_mod, Nat.succ_mul]
      congr 1
      omega

theorem getElem?_places {p : Probe} (hp : p.Valid) {i k : ℕ} (h : i < k) :
    (p.places k)[i]?.map UInt32.toNat =
      some ((p.index.toNat + i * p.step.toNat) % p.size.toNat) := by
  rw [← List.getElem?_map, places_toNat hp, List.getElem?_map, List.getElem?_range h]
  rfl

theorem take_places (p : Probe) (k limit : ℕ) :
    (p.places k).take limit = p.places (min limit k) := by
  induction k generalizing p limit with
  | zero => simp [places]
  | succ k ih =>
    cases limit with
    | zero => simp [places]
    | succ limit => rw [Nat.succ_min_succ, places, places, List.take_succ_cons, ih]

theorem places_lt {p : Probe} (hp : p.Valid) {k : ℕ} {place : UInt32} (h : place ∈ p.places k) :
    place.toNat < p.size.toNat := by
  have hm : place.toNat ∈ (p.places k).map UInt32.toNat := List.mem_map_of_mem h
  rw [places_toNat hp] at hm
  obtain ⟨i, -, hi⟩ := List.mem_map.mp hm
  rw [← hi]
  exact Nat.mod_lt _ (Nat.zero_lt_of_lt hp.index_lt)

theorem places_nodup {p : Probe} (hp : p.Valid) (hc : p.step.toNat.Coprime p.size.toNat) :
    ((p.places p.size.toNat).map UInt32.toNat).Nodup := by
  rw [places_toNat hp]
  refine List.Nodup.map_on ?_ List.nodup_range
  intro i hi j hj h
  have hmul : i * p.step.toNat ≡ j * p.step.toNat [MOD p.size.toNat] :=
    Nat.ModEq.add_left_cancel' _ h
  have hij : i ≡ j [MOD p.size.toNat] :=
    Nat.ModEq.cancel_right_of_coprime (by rw [Nat.gcd_comm]; exact hc) hmul
  exact hij.eq_of_lt_of_lt (List.mem_range.mp hi) (List.mem_range.mp hj)

/-- A step that shares no factor with the size leads to every place once. -/
theorem places_perm {p : Probe} (hp : p.Valid) (hc : p.step.toNat.Coprime p.size.toNat) :
    ((p.places p.size.toNat).map UInt32.toNat).Perm (List.range p.size.toNat) := by
  have hsub : (p.places p.size.toNat).map UInt32.toNat ⊆ List.range p.size.toNat := by
    intro i hi
    obtain ⟨place, hm, rfl⟩ := List.mem_map.mp hi
    exact List.mem_range.mpr (places_lt hp hm)
  refine (List.subperm_of_subset (places_nodup hp hc) hsub).perm_of_length_le ?_
  rw [places_toNat hp]
  simp

theorem step_coprime {hash size : UInt32} (hp : size.toNat.Prime) (h : 2 < size.toNat) :
    (start hash size).step.toNat.Coprime size.toNat := by
  obtain ⟨-, h0, hs⟩ := start_valid hash size h
  exact ((Nat.Prime.coprime_iff_not_dvd hp).mpr (Nat.not_dvd_of_pos_of_lt h0 hs)).symm

theorem exists_mem_places {hash size : UInt32} (hp : size.toNat.Prime) (h : 2 < size.toNat)
    {i : ℕ} (hi : i < size.toNat) :
    ∃ place ∈ (start hash size).places size.toNat, place.toNat = i := by
  have hm := (places_perm (start_valid hash size h) (step_coprime hp h)).mem_iff.mpr
    (List.mem_range.mpr hi)
  exact List.mem_map.mp hm

end MessageCatalog.Catalog.Probe
