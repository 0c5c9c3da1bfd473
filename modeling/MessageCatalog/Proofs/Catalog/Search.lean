import MessageCatalog.Proofs.Bytes
import MessageCatalog.Proofs.Catalog.Decoding

/-!
The two ways of finding a key. Binary search is right where the keys ascend, and a hash table is
searched to the end where every key is led to; a catalog of both kinds answers alike in both ways.
-/
namespace MessageCatalog.Catalog

variable {c : Catalog} {key : Bytes} {i : ℕ}

/-- The keys in ascending order, none twice. -/
def Ascending (c : Catalog) : Prop := ∀ i j, i < j → j < c.size → c.key i < c.key j

theorem Ascending.eq_of_key_eq (h : c.Ascending) {j : ℕ} (hi : i < c.size) (hj : j < c.size)
    (he : c.key i = c.key j) : i = j := by
  rcases Nat.lt_trichotomy i j with hlt | heq | hgt
  · exact absurd (he ▸ h i j hlt hj) (List.lt_irrefl _)
  · exact heq
  · exact absurd (he ▸ h j i hgt hi) (List.lt_irrefl _)

theorem findSorted_sound (h : c.findSorted key = some i) : i < c.size ∧ c.key i = key := by
  unfold findSorted at h
  dsimp only at h
  split_ifs at h with hfound
  obtain rfl := Option.some.inj h
  exact hfound

theorem findSorted_eq_some_iff (h : c.Ascending) :
    c.findSorted key = some i ↔ i < c.size ∧ c.key i = key := by
  refine ⟨findSorted_sound, ?_⟩
  rintro ⟨hi, rfl⟩
  have hbelow : ∀ j ≤ i, decide (c.key j ≤ c.key i) = true := by
    intro j hj
    rw [decide_eq_true_eq]
    rcases Nat.lt_or_eq_of_le hj with hlt | rfl
    · exact List.le_of_lt (h j i hlt hi)
    · exact List.le_refl _
  have habove : ∀ j, i < j → j < c.size → decide (c.key j ≤ c.key i) = false := by
    intro j hj hlt
    rw [decide_eq_false_iff_not, List.not_le]
    exact h i j hj hlt
  unfold findSorted
  dsimp only
  rw [lastNotAbove_eq hi hbelow habove, if_pos ⟨hi, rfl⟩]

variable {slots : Array UInt32}

theorem findHashed_eq_findSome? (c : Catalog) (slots : Array UInt32) (key : Bytes) :
    c.findHashed slots key = ((probes slots key).findSome? (c.visit slots key)).join :=
  congrArg Option.join (Probe.search_eq_findSome? _ _ _)

theorem visit_eq_some_some {place : UInt32} (h : c.visit slots key place = some (some i)) :
    i < c.size ∧ c.key i = key := by
  unfold visit at h
  split at h
  · cases h
  · dsimp only at h
    split_ifs at h with hz hfound
    · cases h
    · obtain rfl := Option.some.inj (Option.some.inj h)
      exact hfound

theorem findHashed_sound (h : c.findHashed slots key = some i) :
    i < c.size ∧ c.key i = key := by
  rw [findHashed_eq_findSome?, Option.join_eq_some_iff] at h
  obtain ⟨before, place, after, -, hplace, -⟩ := List.findSome?_eq_some_iff.mp h
  exact visit_eq_some_some hplace

theorem visit_of_slotAt? {place : UInt32} {s : ℕ} (h : slotAt? slots place = some (s + 1)) :
    c.visit slots key place = if s < c.size ∧ c.key s = key then some (some s) else none := by
  obtain ⟨value, hget, hvalue⟩ := Option.map_eq_some_iff.mp h
  have hne : value ≠ 0 := by
    rintro rfl
    cases hvalue
  simp only [visit, hget, if_neg hne, hvalue, Nat.add_sub_cancel]

theorem findSome?_eq_some_of_forall {α β : Type} {f : α → Option β} {b : β} {l : List α}
    (h : ∀ a ∈ l, f a = none ∨ f a = some b) {a : α} (hm : a ∈ l) (ha : f a = some b) :
    l.findSome? f = some b := by
  induction l with
  | nil => cases hm
  | cons x l ih =>
    rw [List.findSome?_cons]
    rcases h x List.mem_cons_self with hx | hx
    · rw [hx]
      refine ih (fun y hy => h y (List.mem_cons_of_mem _ hy)) ?_
      rcases List.mem_cons.mp hm with rfl | hm
      · rw [hx] at ha
        cases ha
      · exact hm
    · rw [hx]

/-- A search is not misled by the slots on its way: a slot that is not empty holds another key or
the very string that the search ends at. -/
theorem findHashed_of_leads {passed : ℕ → Prop} (hs : slots.size < UInt32.size)
    (hl : Leads passed slots key i) (hi : i < c.size) (hk : c.key i = key) (h0 : ¬passed 0)
    (hpassed : ∀ j, passed (j + 1) → j < c.size → c.key j = key → j = i) :
    c.findHashed slots key = some i := by
  obtain ⟨before, place, after, hsplit, hplace, hbefore⟩ := hl
  have hfound : c.visit slots key place = some (some i) := by
    rw [visit_of_slotAt? hplace, if_pos ⟨hi, hk⟩]
  have hway : ∀ p ∈ before ++ [place],
      c.visit slots key p = none ∨ c.visit slots key p = some (some i) := by
    intro p hm
    rcases List.mem_append.mp hm with hm | hm
    · have hprobe : p ∈ probes slots key := by
        rw [hsplit]
        exact List.mem_append_left _ hm
      obtain ⟨s, hslot⟩ := slotAt?_isSome hs hprobe
      cases s with
      | zero => exact absurd (hbefore p hm 0 hslot) h0
      | succ j =>
        rw [visit_of_slotAt? hslot]
        split_ifs with hj
        · rw [hpassed j (hbefore p hm (j + 1) hslot) hj.1 hj.2]
          exact Or.inr rfl
        · exact Or.inl rfl
    · rw [List.mem_singleton.mp hm]
      exact Or.inr hfound
  have hsome := findSome?_eq_some_of_forall hway
    (List.mem_append_right _ List.mem_cons_self) hfound
  rw [findHashed_eq_findSome?, hsplit, List.append_cons, List.findSome?_append, hsome]
  rfl

theorem findHashed_eq_some_iff (hs : slots.size < UInt32.size) (h : c.Ascending)
    (hreach : ∀ i < c.size, Leads (· ≠ 0) slots (c.key i) i) :
    c.findHashed slots key = some i ↔ i < c.size ∧ c.key i = key := by
  refine ⟨findHashed_sound, ?_⟩
  rintro ⟨hi, rfl⟩
  refine findHashed_of_leads hs (hreach i hi) hi rfl (fun h0 => h0 rfl) ?_
  intro j _ hj hkey
  exact h.eq_of_key_eq hj hi hkey

theorem mem_entries {id message : Bytes} (h : (id, message) ∈ c.entries) :
    ∃ i < c.size, c.id? i = some id ∧ c.message? i = some message := by
  unfold entries at h
  obtain ⟨i, hi, hentry⟩ := List.mem_filterMap.mp h
  refine ⟨i, List.mem_range.mp hi, ?_⟩
  cases hid : c.id? i with
  | none => simp [hid] at hentry
  | some id' =>
    cases hm : c.message? i with
    | none => simp [hid, hm] at hentry
    | some message' => simp_all

/-- A table that leads to every key answers as binary search does, and an entry is found by its
key in both ways, whatever else the slots hold. -/
theorem lookupUsing_hashed_eq_sorted {image : ByteArray} (hd : decode image = .ok c)
    (hslots : c.slots = some slots) (h : ∀ i j, i < j → j < c.size → c.key i < c.key j)
    (hreach : ∀ i < c.size, Leads (· ≠ 0) slots (c.key i) i) :
    (∀ key, c.lookupUsing .hashed key = c.lookupUsing .sorted key) ∧
      ∀ entry ∈ c.entries, c.lookupUsing .hashed (cString entry.1) = some entry.2 ∧
        c.lookupUsing .sorted (cString entry.1) = some entry.2 := by
  have hs := (decode_eq_ok_iff.mp hd).size_slots_lt hslots
  have hfind : ∀ key, c.find .hashed key = c.find .sorted key := by
    intro key
    apply Option.ext
    intro i
    simp only [find, hslots, Option.bind_some]
    rw [findHashed_eq_some_iff hs h hreach, findSorted_eq_some_iff h]
  have hboth : ∀ key, c.lookupUsing .hashed key = c.lookupUsing .sorted key := by
    intro key
    rw [lookupUsing, hfind, lookupUsing]
  refine ⟨hboth, ?_⟩
  rintro ⟨id, message⟩ hentry
  obtain ⟨i, hi, hid, hmessage⟩ := mem_entries hentry
  have hkey : c.key i = cString (cString id) := by
    rw [key, hid, Option.getD_some, cString_idem]
  have hsorted : c.lookupUsing .sorted (cString id) = some message := by
    rw [lookupUsing, find, (findSorted_eq_some_iff h).mpr ⟨hi, hkey⟩]
    exact hmessage
  exact ⟨(hboth _).trans hsorted, hsorted⟩

/-- Two strings in a table of four slots: none is empty, and two of them hold no string. -/
def crowdedImage : ByteArray :=
  (([signature, 0, 2, 28, 44, 4, 60, 1, 76, 3, 78, 1, 82, 1, 84, 2, 7, 9, 1] : List UInt32).flatMap
    ByteOrder.little.bytes ++ [97, 0, 98, 0, 99, 0, 120, 0, 121, 0]).toByteArray

def crowded : Catalog where
  image := crowdedImage
  header := ⟨.little, 0, 2, 28, 44, 4, 60⟩
  ids := #[⟨1, 76⟩, ⟨3, 78⟩]
  messages := #[⟨1, 82⟩, ⟨1, 84⟩]
  slots := some #[2, 7, 9, 1]
  rule := .undeclared

theorem decode_crowdedImage : decode crowdedImage = .ok crowded := by
  refine decode_eq_ok_iff.mpr ⟨rfl, ?_, ?_, ?_, ?_, ?_⟩ <;> decide +kernel

theorem crowded_lookupUsing :
    (decode crowdedImage = .ok crowded ∧ crowded.slots = some #[2, 7, 9, 1] ∧
      (∀ i j, i < j → j < crowded.size → crowded.key i < crowded.key j) ∧
      ∀ i < crowded.size, Leads (· ≠ 0) #[2, 7, 9, 1] (crowded.key i) i) ∧
    (∀ key, crowded.lookupUsing .hashed key = crowded.lookupUsing .sorted key) ∧
      ∀ entry ∈ crowded.entries, crowded.lookupUsing .hashed (cString entry.1) = some entry.2 ∧
        crowded.lookupUsing .sorted (cString entry.1) = some entry.2 := by
  have hsize : crowded.size = 2 := rfl
  have hascending : ∀ i j, i < j → j < crowded.size → crowded.key i < crowded.key j := by
    intro i j hij hj
    obtain ⟨rfl, rfl⟩ : i = 0 ∧ j = 1 := by omega
    decide +kernel
  have hleads : ∀ i < crowded.size, Leads (· ≠ 0) #[2, 7, 9, 1] (crowded.key i) i := by
    intro i hi
    obtain rfl | rfl : i = 0 ∨ i = 1 := by omega
    · refine ⟨[1], 3, [1, 3], by decide +kernel, by decide +kernel, ?_⟩
      exact List.forall_mem_singleton.mpr (by decide +kernel)
    · refine ⟨[2, 3], 0, [1], by decide +kernel, by decide +kernel, ?_⟩
      exact List.forall_mem_cons.mpr
        ⟨by decide +kernel, List.forall_mem_singleton.mpr (by decide +kernel)⟩
  exact ⟨⟨decode_crowdedImage, rfl, hascending, hleads⟩,
    lookupUsing_hashed_eq_sorted decode_crowdedImage rfl hascending hleads⟩

end MessageCatalog.Catalog
