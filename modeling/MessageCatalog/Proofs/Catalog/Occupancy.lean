import MessageCatalog.Proofs.Catalog.Build
import MessageCatalog.Proofs.Catalog.Order

/-!
What a hash table holds that has room: each string finds an empty slot on its way, and at the end
each has its number in one slot, which a search comes to past slots in use.
-/
namespace MessageCatalog.Catalog

/-- In the table of the strings before it, a string finds an empty slot on the way of a search for
it, and its number goes there. -/
def Enters (size : ℕ) (ids : List Bytes) (i : ℕ) (h : i < ids.length) : Prop :=
  ∃ place ∈ probes (fillSlots size (ids.take i)) (cString ids[i]),
    (fillSlots size (ids.take i))[place.toNat]? = some 0 ∧
    fillSlots size (ids.take (i + 1)) =
      (fillSlots size (ids.take i)).setIfInBounds place.toNat (UInt32.ofNat (i + 1))

/-- A table that holds strings: the slots in use have the numbers of the strings, each once, there is
an empty slot, and a search for the key of a string comes to its number past slots in use. -/
structure Holds (slots : Array UInt32) (ids : List Bytes) : Prop where
  numbers : ((slots.toList.filter (· ≠ 0)).map UInt32.toNat).Perm (List.range' 1 ids.length)
  room : 0 ∈ slots
  leads : ∀ i, (h : i < ids.length) → Leads (· ≠ 0) slots (cString ids[i]) i

theorem Holds.number_mem {slots : Array UInt32} {ids : List Bytes} (h : Holds slots ids) :
    ∀ i < ids.length, ∃ value ∈ slots, value.toNat = i + 1 := by
  intro i hi
  have hrange : i + 1 ∈ List.range' 1 ids.length := List.mem_range'_1.mpr (by omega)
  obtain ⟨value, hmem, hvalue⟩ := List.mem_map.mp (h.numbers.mem_iff.mpr hrange)
  exact ⟨value, Array.mem_toList_iff.mp (List.mem_filter.mp hmem).1, hvalue⟩

section Filled

variable {size : ℕ} {ids : List Bytes} {slots : Array UInt32}

theorem Filled.empty_mem (hf : Filled size ids slots) (hroom : ids.length < size) :
    0 ∈ slots := by
  have hempty := hf.count_empty
  exact Array.count_pos_iff.mp (by omega)

theorem Filled.length_used (hf : Filled size ids slots) :
    (slots.toList.filter (· ≠ 0)).length = ids.length := by
  have hempty := hf.count_empty
  have hsplit := List.length_eq_countP_add_countP (· == 0) (l := slots.toList)
  rw [Array.length_toList, hf.size_eq] at hsplit
  rw [← Array.count_toList, List.count] at hempty
  simp only [beq_iff_eq] at hsplit
  rw [← List.countP_eq_length_filter]
  change List.countP (fun s => decide ¬s = 0) slots.toList = _
  omega

theorem Filled.number_mem (hf : Filled size ids slots) {i : ℕ} (h : i < ids.length) :
    i + 1 ∈ (slots.toList.filter (· ≠ 0)).map UInt32.toNat := by
  obtain ⟨-, place, -, -, hslot, -⟩ := hf.leads i h
  obtain ⟨value, hget, hvalue⟩ := Option.map_eq_some_iff.mp hslot
  have hne : value ≠ 0 := by
    rintro rfl
    cases hvalue
  have hmem := Array.mem_toList_iff.mpr (Array.mem_of_getElem? hget)
  exact List.mem_map.mpr ⟨value, List.mem_filter.mpr ⟨hmem, by simpa using hne⟩, hvalue⟩

/-- Every number is in a slot, and there are no more slots in use than numbers. -/
theorem Filled.holds (hf : Filled size ids slots) (hroom : ids.length < size) :
    Holds slots ids where
  numbers := by
    have hsub : List.range' 1 ids.length ⊆ (slots.toList.filter (· ≠ 0)).map UInt32.toNat := by
      intro s hs
      obtain ⟨hpos, hlt⟩ := List.mem_range'_1.mp hs
      have hmem := hf.number_mem (i := s - 1) (by omega)
      rwa [Nat.sub_add_cancel hpos] at hmem
    refine ((List.subperm_of_subset List.nodup_range' hsub).perm_of_length_le ?_).symm
    rw [List.length_map, hf.length_used, List.length_range']
  room := hf.empty_mem hroom
  leads i h := by
    obtain ⟨before, place, after, hsplit, hslot, hbefore⟩ := hf.leads i h
    exact ⟨before, place, after, hsplit, hslot, fun p hm s hs => (hbefore p hm s hs).1.ne'⟩

theorem fillSlots_enters (hp : size.Prime) (h2 : 2 < size) (hs : size < UInt32.size)
    (hroom : ids.length < size) {i : ℕ} (h : i < ids.length) : Enters size ids i h := by
  have hlength : (ids.take i).length = i := List.length_take_of_le h.le
  have hf : Filled size (ids.take i) (fillSlots size (ids.take i)) :=
    fillSlots_filled hp h2 hs (by omega)
  have h0 := hf.empty_mem (by omega)
  rw [← hf.size_eq] at hp h2 hs
  obtain ⟨before, place, after, hsplit, hempty, -, hinsert⟩ :=
    insertSlot_spec hp hs h2 h0 ids[i] i
  refine ⟨place, ?_, hempty, ?_⟩
  · rw [hsplit]
    exact List.mem_append_right _ List.mem_cons_self
  · rw [List.take_succ_eq_append_getElem h, fillSlots_concat, hlength, hinsert]

end Filled

end MessageCatalog.Catalog
