import Mathlib.Tactic.Common
import MessageCatalog.Proofs.Catalog.Prime
import MessageCatalog.Proofs.Catalog.Probe

/-!
Filling a hash table. Every string gets a slot, and a search for its key comes to that slot past
slots of earlier strings only.
-/
namespace MessageCatalog.Catalog

def probes (slots : Array UInt32) (key : Bytes) : List UInt32 :=
  (Probe.start (hashKey key) slots.size.toUInt32).places (visits slots.size.toUInt32)

/-- The number in a slot: zero in an empty one, else one more than the index of a string. -/
def slotAt? (slots : Array UInt32) (place : UInt32) : Option ℕ :=
  slots[place.toNat]?.map UInt32.toNat

/-- A search for a key comes to the slot of an index, past slots with a given property only. -/
def Leads (passed : ℕ → Prop) (slots : Array UInt32) (key : Bytes) (i : ℕ) : Prop :=
  ∃ before place after, probes slots key = before ++ place :: after ∧
    slotAt? slots place = some (i + 1) ∧
    ∀ p ∈ before, ∀ s, slotAt? slots p = some s → passed s

variable {slots : Array UInt32}

theorem toNat_size (hs : slots.size < UInt32.size) : slots.size.toUInt32.toNat = slots.size :=
  Nat.mod_eq_of_lt hs

theorem visits_of_two_lt {size : UInt32} (h : 2 < size.toNat) : visits size = size.toNat := by
  have hn : ¬size ≤ 2 := by
    rw [UInt32.le_iff_toNat_le]
    exact Nat.not_le.mpr h
  rw [visits, if_neg hn]

/-- A search sees a table by the low 32 bits of its size. -/
theorem probes_lt_word {key : Bytes} {place : UInt32} (h : place ∈ probes slots key) :
    place.toNat < slots.size % UInt32.size := by
  change _ < slots.size.toUInt32.toNat
  by_cases h2 : 2 < slots.size.toUInt32.toNat
  · exact Probe.places_lt (Probe.start_valid _ _ h2) h
  · have hle : slots.size.toUInt32 ≤ 2 := UInt32.le_iff_toNat_le.mpr (Nat.not_lt.mp h2)
    rw [probes, visits, if_pos hle] at h
    exact absurd h List.not_mem_nil

theorem probes_lt (hs : slots.size < UInt32.size) {key : Bytes} {place : UInt32}
    (h : place ∈ probes slots key) : place.toNat < slots.size :=
  Nat.mod_eq_of_lt hs ▸ probes_lt_word h

theorem slotAt?_isSome (hs : slots.size < UInt32.size) {key : Bytes} {place : UInt32}
    (h : place ∈ probes slots key) : ∃ s, slotAt? slots place = some s := by
  have hlt := probes_lt hs h
  exact ⟨_, by rw [slotAt?, Array.getElem?_eq_getElem hlt]; rfl⟩

theorem mem_probes (hp : slots.size.Prime) (hs : slots.size < UInt32.size) (h2 : 2 < slots.size)
    (key : Bytes) {i : ℕ} (hi : i < slots.size) :
    ∃ place ∈ probes slots key, place.toNat = i := by
  have hsize := toNat_size hs
  rw [probes, visits_of_two_lt (by omega)]
  exact Probe.exists_mem_places (by rwa [hsize]) (by omega) (by omega)

theorem insertSlot_spec (hp : slots.size.Prime) (hs : slots.size < UInt32.size)
    (h2 : 2 < slots.size) (h0 : 0 ∈ slots) (id : Bytes) (i : ℕ) :
    ∃ before place after, probes slots (cString id) = before ++ place :: after ∧
      slots[place.toNat]? = some 0 ∧ (∀ p ∈ before, slots[p.toNat]? ≠ some 0) ∧
      insertSlot slots id i = slots.setIfInBounds place.toNat (UInt32.ofNat (i + 1)) := by
  let empty (place : UInt32) : Option UInt32 :=
    if slots[place.toNat]? = some 0 then some place else none
  have hfind : ∃ place, (probes slots (cString id)).findSome? empty = some place := by
    obtain ⟨j, hj⟩ := Array.mem_iff_getElem?.mp h0
    obtain ⟨hlt, -⟩ := Array.getElem?_eq_some_iff.mp hj
    obtain ⟨place, hmem, rfl⟩ := mem_probes hp hs h2 (cString id) hlt
    refine Option.isSome_iff_exists.mp ?_
    rw [List.isSome_findSome?, List.any_eq_true]
    exact ⟨place, hmem, by simp [empty, hj]⟩
  obtain ⟨place, hplace⟩ := hfind
  have hinsert : insertSlot slots id i =
      slots.setIfInBounds place.toNat (UInt32.ofNat (i + 1)) := by
    have hsearch := (Probe.search_eq_findSome? empty _ _).trans hplace
    unfold insertSlot
    dsimp only
    rw [hsearch]
  obtain ⟨before, a, after, hsplit, ha, hbefore⟩ := List.findSome?_eq_some_iff.mp hplace
  have hempty : slots[a.toNat]? = some 0 ∧ a = place := by simpa [empty] using ha
  refine ⟨before, a, after, hsplit, hempty.1, ?_, ?_⟩
  · intro p hm he
    simpa [empty, he] using hbefore p hm
  · rw [hinsert, hempty.2]

def Earlier (i s : ℕ) : Prop := 0 < s ∧ s ≤ i

structure Filled (size : ℕ) (ids : List Bytes) (slots : Array UInt32) : Prop where
  size_eq : slots.size = size
  count_empty : ids.length + slots.count 0 = size
  slot_le : ∀ s ∈ slots, s.toNat ≤ ids.length
  leads : ∀ i, (h : i < ids.length) → Leads (Earlier i) slots (cString ids[i]) i

theorem filled_replicate (size : ℕ) : Filled size [] (Array.replicate size 0) where
  size_eq := Array.size_replicate
  count_empty := by simp
  slot_le s hs := by simp_all
  leads i h := absurd h (Nat.not_lt_zero i)

theorem slotAt?_set_of_ne {place p : UInt32} (hne : place.toNat ≠ p.toNat) (value : UInt32) :
    slotAt? (slots.setIfInBounds place.toNat value) p = slotAt? slots p := by
  rw [slotAt?, slotAt?, Array.getElem?_setIfInBounds, if_neg hne]

/-- What a search already finds is found as before: only an empty slot changes. -/
theorem Leads.set {key : Bytes} {i : ℕ} {place : UInt32} (hl : Leads (Earlier i) slots key i)
    (h0 : slots[place.toNat]? = some 0) (value : UInt32) :
    Leads (Earlier i) (slots.setIfInBounds place.toNat value) key i := by
  obtain ⟨before, own, after, hsplit, hown, hbefore⟩ := hl
  have hempty : ∀ p : UInt32, place.toNat = p.toNat → slotAt? slots p = some 0 := by
    intro p he
    rw [slotAt?, ← he, h0]
    rfl
  have hne : ∀ p ∈ before, place.toNat ≠ p.toNat := by
    intro p hm he
    exact absurd (hbefore p hm 0 (hempty p he)).1 (Nat.lt_irrefl 0)
  have hne' : place.toNat ≠ own.toNat := by
    intro he
    rw [hempty own he] at hown
    cases hown
  refine ⟨before, own, after, ?_, ?_, ?_⟩
  · rwa [probes, Array.size_setIfInBounds]
  · rwa [slotAt?_set_of_ne hne']
  · intro p hm
    rw [slotAt?_set_of_ne (hne p hm)]
    exact hbefore p hm

theorem count_empty_set {place : ℕ} {value : UInt32} (h0 : slots[place]? = some 0)
    (hv : value ≠ 0) : (slots.setIfInBounds place value).count 0 + 1 = slots.count 0 := by
  obtain ⟨hlt, hzero⟩ := Array.getElem?_eq_some_iff.mp h0
  have hpos : 0 < slots.count 0 := Array.count_pos_iff.mpr (Array.mem_of_getElem? h0)
  rw [Array.setIfInBounds_def, dif_pos hlt, Array.count_set hlt]
  simp only [hzero, beq_self_eq_true, if_true, beq_iff_eq, hv, if_false]
  omega

theorem toNat_number {n : ℕ} (hn : n + 1 < UInt32.size) : (UInt32.ofNat (n + 1)).toNat = n + 1 :=
  UInt32.toNat_ofNat_of_lt' hn

theorem number_ne_zero {n : ℕ} (hn : n + 1 < UInt32.size) : UInt32.ofNat (n + 1) ≠ 0 := by
  intro he
  have hzero := congrArg UInt32.toNat he
  rw [toNat_number hn] at hzero
  exact absurd hzero (Nat.succ_ne_zero _)

/-- A search finds the string that has just been put into the first empty slot on its way. -/
theorem leads_set {key : Bytes} {before after : List UInt32} {place : UInt32} {n : ℕ}
    (hsplit : probes slots key = before ++ place :: after) (h0 : slots[place.toNat]? = some 0)
    (hbefore : ∀ p ∈ before, slots[p.toNat]? ≠ some 0) (hle : ∀ s ∈ slots, s.toNat ≤ n)
    (hn : n + 1 < UInt32.size) :
    Leads (Earlier n) (slots.setIfInBounds place.toNat (UInt32.ofNat (n + 1))) key n := by
  obtain ⟨hlt, -⟩ := Array.getElem?_eq_some_iff.mp h0
  refine ⟨before, place, after, ?_, ?_, ?_⟩
  · rwa [probes, Array.size_setIfInBounds]
  · rw [slotAt?, Array.getElem?_setIfInBounds, if_pos rfl, if_pos hlt, Option.map_some,
      toNat_number hn]
  · intro p hm s hs
    have hne : place.toNat ≠ p.toNat := by
      intro he
      exact hbefore p hm (he ▸ h0)
    rw [slotAt?_set_of_ne hne] at hs
    obtain ⟨value, hget, rfl⟩ := Option.map_eq_some_iff.mp hs
    constructor
    · apply Nat.pos_of_ne_zero
      intro he
      obtain rfl : value = 0 := UInt32.toNat_inj.mp he
      exact hbefore p hm hget
    · exact hle value (Array.mem_of_getElem? hget)

theorem Filled.insert {size : ℕ} {ids : List Bytes} (hf : Filled size ids slots)
    (hp : size.Prime) (h2 : 2 < size) (hs : size < UInt32.size) (hroom : ids.length < size)
    (id : Bytes) : Filled size (ids ++ [id]) (insertSlot slots id ids.length) := by
  obtain ⟨rfl, hcount, hle, hleads⟩ := hf
  have h0 : (0 : UInt32) ∈ slots := Array.count_pos_iff.mp (by omega)
  have hn : ids.length + 1 < UInt32.size := by omega
  obtain ⟨before, place, after, hsplit, hplace, hbefore, hinsert⟩ :=
    insertSlot_spec hp hs h2 h0 id ids.length
  have hlength : (ids ++ [id]).length = ids.length + 1 := by simp
  rw [hinsert]
  constructor
  · exact Array.size_setIfInBounds
  · have hempty := count_empty_set hplace (number_ne_zero hn)
    rw [hlength]
    omega
  · intro s hm
    rw [hlength]
    rcases Array.mem_or_eq_of_mem_setIfInBounds hm with hm | rfl
    · exact (hle s hm).trans (Nat.le_succ _)
    · exact (toNat_number hn).le
  · intro i hi
    rw [hlength] at hi
    rcases Nat.lt_succ_iff_lt_or_eq.mp hi with hi | rfl
    · rw [List.getElem_append_left hi]
      exact (hleads i hi).set hplace _
    · rw [List.getElem_append_right le_rfl]
      simp only [Nat.sub_self, List.getElem_cons_zero]
      exact leads_set hsplit hplace hbefore hle hn

def fillSlots (size : ℕ) (ids : List Bytes) : Array UInt32 :=
  ids.zipIdx.foldl (fun slots (id, i) => insertSlot slots id i) (Array.replicate size 0)

theorem fillSlots_concat (size : ℕ) (ids : List Bytes) (id : Bytes) :
    fillSlots size (ids ++ [id]) = insertSlot (fillSlots size ids) id ids.length := by
  simp [fillSlots, List.zipIdx_append]

theorem fillSlots_filled {size : ℕ} (hp : size.Prime) (h2 : 2 < size) (hs : size < UInt32.size)
    {ids : List Bytes} (hroom : ids.length < size) : Filled size ids (fillSlots size ids) := by
  induction ids using List.reverseRecOn with
  | nil => exact filled_replicate size
  | append_singleton ids id ih =>
    rw [List.length_append, List.length_singleton] at hroom
    rw [fillSlots_concat]
    exact (ih (by omega)).insert hp h2 hs (by omega) id

theorem buildSlots_filled {ids : List Bytes} (hs : tableSize ids.length < UInt32.size) :
    Filled (tableSize ids.length) ids (buildSlots ids) :=
  fillSlots_filled (tableSize_prime _) (two_lt_tableSize _) hs (count_lt_tableSize _)

theorem size_insertSlot (id : Bytes) (i : ℕ) : (insertSlot slots id i).size = slots.size := by
  unfold insertSlot
  dsimp only
  split
  · exact Array.size_setIfInBounds
  · rfl

theorem size_fillSlots (size : ℕ) (ids : List Bytes) : (fillSlots size ids).size = size := by
  induction ids using List.reverseRecOn with
  | nil => exact Array.size_replicate
  | append_singleton ids id ih => rw [fillSlots_concat, size_insertSlot, ih]

theorem size_buildSlots (ids : List Bytes) : (buildSlots ids).size = tableSize ids.length :=
  size_fillSlots _ _

end MessageCatalog.Catalog
