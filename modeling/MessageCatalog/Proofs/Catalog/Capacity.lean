import Mathlib.NumberTheory.LucasPrimality
import MessageCatalog.Proofs.Catalog.Occupancy

/-!
The hash table of an image. Its size is the least prime that leaves room. A search counts places in
32 bits, so it sees a longer table as one of the size modulo `2 ^ 32`, and that many slots are never
enough: all strings are held exactly if the size fits into 32 bits.
-/
namespace MessageCatalog.Catalog

section Prime

theorem iterate_square (p k a : ℕ) : (fun x => x * x % p)^[k] (a % p) = a ^ 2 ^ k % p := by
  induction k with
  | zero => simp
  | succ k ih => rw [Function.iterate_succ_apply', ih, ← Nat.mul_mod, pow_succ, pow_mul, sq]

theorem zmod_pow_eq_one_iff (p a m k : ℕ) :
    (a : ZMod p) ^ (m * 2 ^ k) = 1 ↔ (fun x => x * x % p)^[k] (a ^ m % p) = 1 % p := by
  rw [iterate_square, ← pow_mul, ← ZMod.natCast_eq_natCast_iff', Nat.cast_pow, Nat.cast_one]

/-- A prime between one and two times `2 ^ 32`, by Lucas's test. -/
theorem prime_above_word : (3 * 29 * 2 ^ 26 + 1).Prime := by
  refine lucas_primality _ (7 : ℕ) ((zmod_pow_eq_one_iff _ 7 87 26).mpr (by decide)) ?_
  intro q hq hd
  have hfactor : q = 2 ∨ q = 3 ∨ q = 29 := by
    rw [Nat.add_sub_cancel] at hd
    rcases hq.dvd_mul.mp hd with h | h
    · rcases hq.dvd_mul.mp h with h | h
      · exact Or.inr (Or.inl ((Nat.prime_dvd_prime_iff_eq hq Nat.prime_three).mp h))
      · exact Or.inr (Or.inr ((Nat.prime_dvd_prime_iff_eq hq (by decide)).mp h))
    · exact Or.inl ((Nat.prime_dvd_prime_iff_eq hq Nat.prime_two).mp (hq.dvd_of_dvd_pow h))
  rcases hfactor with rfl | rfl | rfl
  · exact mt (zmod_pow_eq_one_iff _ 7 87 25).mp (by decide)
  · exact mt (zmod_pow_eq_one_iff _ 7 29 26).mp (by decide)
  · exact mt (zmod_pow_eq_one_iff _ 7 3 26).mp (by decide)

end Prime

/-- The low 32 bits of a size that needs more are less than the number of strings. -/
theorem tableSize_mod_lt {count : ℕ} (h : UInt32.size ≤ tableSize count) :
    tableSize count % UInt32.size < count := by
  rw [show UInt32.size = 4294967296 from rfl] at h ⊢
  rcases Nat.lt_or_ge count 4294967296 with hc | hc
  · -- The size is at most twice what it has to reach, so the count is large, and it is at most the
    -- prime above, so it exceeds `2 ^ 32` by less than the count.
    obtain ⟨p, hp, hlo, hhi⟩ :=
      Nat.exists_prime_lt_and_le_two_mul (max (count * 4 / 3) 3) (by omega)
    have hdouble : tableSize count ≤ p := tableSize_le hp hlo.le
    have habove : tableSize count ≤ 3 * 29 * 2 ^ 26 + 1 := tableSize_le prime_above_word (by omega)
    omega
  · exact (Nat.mod_lt _ (by decide)).trans_le hc

theorem insertSlot_getElem?_of_le {slots : Array UInt32} (id : Bytes) (i : ℕ) {j : ℕ}
    (h : slots.size % UInt32.size ≤ j) : (insertSlot slots id i)[j]? = slots[j]? := by
  unfold insertSlot
  dsimp only
  split
  next place hsome =>
    rw [Probe.search_eq_findSome?] at hsome
    obtain ⟨visited, hvisited, hplace⟩ := List.exists_of_findSome?_eq_some hsome
    have hprobe : visited ∈ probes slots (cString id) := hvisited
    have hlt := probes_lt_word hprobe
    have hne : place.toNat ≠ j := by
      split_ifs at hplace
      obtain rfl := Option.some.inj hplace
      omega
    exact Array.getElem?_setIfInBounds_ne hne
  next => rfl

theorem fillSlots_getElem?_of_le {size : ℕ} (ids : List Bytes) {j : ℕ}
    (h : size % UInt32.size ≤ j) {value : UInt32} (hv : (fillSlots size ids)[j]? = some value) :
    value = 0 := by
  induction ids using List.reverseRecOn with
  | nil => exact Array.eq_of_mem_replicate (Array.mem_of_getElem? hv)
  | append_singleton ids id ih =>
    rw [fillSlots_concat, insertSlot_getElem?_of_le _ _ (by rwa [size_fillSlots])] at hv
    exact ih hv

theorem length_le_of_numbers {size n : ℕ} {ids : List Bytes}
    (h : ∀ i < n, ∃ value ∈ fillSlots size ids, value.toNat = i + 1) : n ≤ size % UInt32.size := by
  have hsub : List.range' 1 n ⊆
      ((fillSlots size ids).toList.take (size % UInt32.size)).map UInt32.toNat := by
    intro s hs
    obtain ⟨hpos, hlt⟩ := List.mem_range'_1.mp hs
    obtain ⟨value, hmem, hvalue⟩ := h (s - 1) (by omega)
    obtain ⟨j, hj⟩ := Array.mem_iff_getElem?.mp hmem
    have hin : j < size % UInt32.size := by
      by_contra hout
      rw [fillSlots_getElem?_of_le ids (Nat.not_lt.mp hout) hj] at hvalue
      cases hvalue
    refine List.mem_map.mpr ⟨value, List.mem_of_getElem? (i := j) ?_, by omega⟩
    rw [List.getElem?_take_of_lt hin, Array.getElem?_toList, hj]
  have hle := (List.subperm_of_subset List.nodup_range' hsub).length_le
  rw [List.length_range', List.length_map] at hle
  exact hle.trans (List.length_take_le _ _)

/-- Every string gets its slot exactly if the size of the table fits into 32 bits. -/
theorem numbers_iff_tableSize_lt (ids : List Bytes) :
    (∀ i < ids.length, ∃ value ∈ buildSlots ids, value.toNat = i + 1) ↔
      tableSize ids.length < UInt32.size := by
  constructor
  · intro h
    by_contra hlarge
    have hle : ids.length ≤ tableSize ids.length % UInt32.size := length_le_of_numbers h
    have hlt := tableSize_mod_lt (Nat.not_lt.mp hlarge)
    omega
  · intro hs
    exact ((buildSlots_filled hs).holds (count_lt_tableSize ids.length)).number_mem

/-- A string that enters a table takes no slot from the strings before it. -/
theorem numbers_of_enters {size : ℕ} {ids : List Bytes} (hcount : ids.length < UInt32.size)
    (h : ∀ i hi, Enters size ids i hi) :
    ∀ i < ids.length, ∃ value ∈ fillSlots size ids, value.toNat = i + 1 := by
  suffices hprefix : ∀ count ≤ ids.length, ∀ i < count,
      ∃ value ∈ fillSlots size (ids.take count), value.toNat = i + 1 by
    simpa only [List.take_length] using hprefix ids.length le_rfl
  intro count hle i hi
  -- By induction on the strings put in so far: the slot of a new one was empty, so none had it.
  induction count with
  | zero => exact absurd hi (Nat.not_lt_zero i)
  | succ count ih =>
    obtain ⟨place, -, hempty, hset⟩ := h count hle
    rw [hset]
    rcases Nat.lt_succ_iff_lt_or_eq.mp hi with hlt | rfl
    · obtain ⟨value, hmem, hvalue⟩ := ih (by omega) hlt
      obtain ⟨j, hj⟩ := Array.mem_iff_getElem?.mp hmem
      have hne : place.toNat ≠ j := by
        rintro rfl
        obtain rfl := Option.some.inj (hempty.symm.trans hj)
        cases hvalue
      exact ⟨value, Array.mem_of_getElem? ((Array.getElem?_setIfInBounds_ne hne).trans hj), hvalue⟩
    · obtain ⟨hin, -⟩ := Array.getElem?_eq_some_iff.mp hempty
      refine ⟨_, Array.mem_of_getElem? (Array.getElem?_setIfInBounds_self_of_lt hin), ?_⟩
      exact UInt32.toNat_ofNat_of_lt' (by omega)

namespace Image

section Slots

variable (entries : List (Bytes × Bytes))

theorem length_sort_map_fst : ((sort entries).map (·.1)).length = entries.length := by
  rw [List.length_map, (sort_stablySorted entries).perm.length_eq]

theorem size_slots_sort : (slots (sort entries) true).size = tableSize entries.length := by
  rw [size_slots, if_pos rfl, (sort_stablySorted entries).perm.length_eq]

theorem slots_eq_fillSlots : slots (sort entries) true =
    fillSlots (slots (sort entries) true).size ((sort entries).map (·.1)) := by
  rw [size_slots_sort, ← length_sort_map_fst]
  rfl

theorem numbers_iff_size_slots_lt :
    (∀ i < entries.length, ∃ value ∈ slots (sort entries) true, value.toNat = i + 1) ↔
      (slots (sort entries) true).size < UInt32.size := by
  have hiff := numbers_iff_tableSize_lt ((sort entries).map (·.1))
  rw [length_sort_map_fst] at hiff
  rw [size_slots_sort]
  exact hiff

end Slots

/-- The hash table of an image. Its size is what an unlimited search for a prime ends at. Every
string has its number in the table exactly if the size fits into its 32 bits; and then every string
enters the table and is held by it. -/
theorem slots_spec (entries : List (Bytes × Bytes)) :
    let ids := (sort entries).map (·.1)
    let table := slots (sort entries) true
    let least := max (4 * entries.length / 3) 3
    EndsAt (least / 2 * 2 + 1) table.size ∧ IsLeast {p | p.Prime ∧ least ≤ p} table.size ∧
      entries.length < table.size ∧
      ((∀ i < entries.length, ∃ value ∈ table, value.toNat = i + 1) ↔ table.size < UInt32.size) ∧
      (table.size < UInt32.size →
        table = fillSlots table.size ids ∧ (∀ i h, Enters table.size ids i h) ∧
          Holds table ids) := by
  intro ids table least
  have hlength : ids.length = entries.length := length_sort_map_fst entries
  have hnumbers := numbers_iff_size_slots_lt entries
  have hsize : table.size = tableSize entries.length := size_slots_sort entries
  have hleast : least = max (entries.length * 4 / 3) 3 := by rw [Nat.mul_comm]
  have htable : table = fillSlots table.size ids := slots_eq_fillSlots entries
  have hp := tableSize_prime entries.length
  have h2 := two_lt_tableSize entries.length
  have hroom := count_lt_tableSize entries.length
  rw [hsize] at htable hnumbers ⊢
  refine ⟨?_, ?_, hroom, hnumbers, fun hs => ⟨htable, fun i h => ?_, ?_⟩⟩
  · rw [tableSize, ← hleast]
    exact endsAt_nextPrime (le_max_right _ _)
  · rw [tableSize, ← hleast]
    exact isLeast_nextPrime (le_max_right _ _)
  · exact fillSlots_enters hp h2 hs (by omega) h
  · rw [htable]
    exact (fillSlots_filled hp h2 hs (by omega)).holds (by omega)

/-- Three strings of one key, so that all three start at one place. -/
def sameKey : List (Bytes × Bytes) := [([97, 0, 98], [120]), ([97], []), ([97], [121])]

theorem slots_spec_sameKey :
    let table := slots (sort sameKey) true
    table.size < UInt32.size ∧ sameKey.length < table.size ∧
      (∀ i h, Enters table.size ((sort sameKey).map (·.1)) i h) ∧
      Holds table ((sort sameKey).map (·.1)) := by
  intro table
  have hs : table.size < UInt32.size := by
    have htable : tableSize 3 ≤ 5 := tableSize_le Nat.prime_five (by decide)
    have hsize : table.size = tableSize 3 := size_slots_sort sameKey
    rw [hsize]
    exact htable.trans_lt (by decide)
  obtain ⟨-, -, hroom, -, hfits⟩ := slots_spec sameKey
  exact ⟨hs, hroom, (hfits hs).2⟩

example : fillSlots 5 [[97], [97], [97, 0, 98]] = #[0, 3, 1, 0, 2] := by decide

/-- With `3 * 2 ^ 30` entries the least size is `2 ^ 32`: not every string enters the table, and there
are numbers that no slot has. -/
theorem slots_beyond_word :
    let entries : List (Bytes × Bytes) := List.replicate 3221225472 ([], [])
    let ids := (sort entries).map (·.1)
    let table := slots (sort entries) true
    (¬ ∀ i h, Enters table.size ids i h) ∧
      (∃ i < entries.length, ∀ value ∈ table, value.toNat ≠ i + 1) ∧ ¬ Holds table ids := by
  intro entries ids table
  have hentries : entries.length = 3221225472 := List.length_replicate
  have hids : ids.length = entries.length := length_sort_map_fst entries
  have hlarge : ¬ table.size < UInt32.size := by
    have hle := le_tableSize 3221225472
    rw [size_slots_sort, hentries, show UInt32.size = 4294967296 from rfl]
    omega
  have hmissing := mt (numbers_iff_size_slots_lt entries).mp hlarge
  refine ⟨fun henters => hmissing ?_, ?_, fun hholds => hmissing ?_⟩
  · have htable : table = fillSlots table.size ids := slots_eq_fillSlots entries
    have hnumbers := numbers_of_enters (by rw [hids, hentries]; decide) henters
    rwa [hids, ← htable] at hnumbers
  · push Not at hmissing
    exact hmissing
  · rw [← hids]
    exact hholds.number_mem

end Image

end MessageCatalog.Catalog
