import MessageCatalog.Proofs.Catalog.RoundTrip

/-!
Building an image again from what its catalog says. Sorting hides the order in which entries are
given, and decoding loses none of them: the header entry, which is left out of the entries, is what
the empty key finds.
-/
namespace MessageCatalog.Catalog

variable {entries given : List (Bytes × Bytes)} {hashed : Bool} {order : ByteOrder}

namespace Image

theorem sort_eq_of_perm (h : given.Perm entries) (hn : (entries.map (·.1)).Nodup) :
    sort given = sort entries := by
  obtain ⟨hgiven, hgivenOrdered, -⟩ := sort_stablySorted given
  obtain ⟨hperm, hordered, -⟩ := sort_stablySorted entries
  refine List.Perm.eq_of_pairwise ?_ hgivenOrdered hordered (hgiven.trans (h.trans hperm.symm))
  intro a b ha hb hab hba
  have hmem : a ∈ entries := h.mem_iff.mp (hgiven.mem_iff.mp ha)
  exact List.inj_on_of_nodup_map hn hmem (hperm.mem_iff.mp hb) (List.le_antisymm hab hba)

theorem build_eq_of_perm (h : given.Perm entries) (hn : (entries.map (·.1)).Nodup) :
    build given hashed order = build entries hashed order := by
  rw [build_eq_ofOrdered, build_eq_ofOrdered, sort_eq_of_perm h hn]

end Image

theorem nodup_ids (hn : (entries.map fun e => cString e.1).Nodup) :
    (entries.map (·.1)).Nodup := by
  have hcut : (entries.map (·.1)).map cString = entries.map fun e => cString e.1 := List.map_map
  exact List.Nodup.of_map cString (hcut ▸ hn)

/-- When keys are distinct, the empty string alone has the empty key. -/
theorem exists_header_entry (hhead : ∃ e ∈ entries, e.1 = [])
    (hn : (entries.map fun e => cString e.1).Nodup) :
    ∃ message, (entries.find? fun e => cString e.1 = cString []) = some ([], message) ∧
      (([], message) :: entries.filter fun e => e.1 ≠ []).Perm entries := by
  obtain ⟨⟨id, message⟩, hmem, rfl⟩ := hhead
  obtain ⟨before, after, rfl⟩ := List.append_of_mem hmem
  rw [List.map_append, List.map_cons, List.nodup_middle, List.nodup_cons] at hn
  have hkey : ∀ e ∈ before ++ after, cString e.1 ≠ [] := by
    intro e he hempty
    exact hn.1 (List.map_append ▸ List.mem_map.mpr ⟨e, he, hempty⟩)
  have hid : ∀ e ∈ before ++ after, e.1 ≠ [] := by
    intro e he hempty
    exact hkey e he (congrArg cString hempty)
  refine ⟨message, List.find?_eq_some_iff_append.mpr ⟨rfl, before, after, rfl, ?_⟩, ?_⟩
  · intro e he
    rw [Bool.not_eq_true', decide_eq_false_iff_not]
    exact hkey e (List.mem_append_left after he)
  · have hbefore : before.filter (fun e => decide (e.1 ≠ [])) = before :=
      List.filter_eq_self.mpr fun e he => by simpa using hid e (List.mem_append_left after he)
    have hafter : after.filter (fun e => decide (e.1 ≠ [])) = after :=
      List.filter_eq_self.mpr fun e he => by simpa using hid e (List.mem_append_right before he)
    rw [List.filter_append, List.filter_cons_of_neg (by simp), hbefore, hafter]
    exact List.perm_middle.symm

/-- A decoded image finds the first of its entries with a key, by the way of search it has. -/
theorem Presents.lookup_eq_find? {c : Catalog} (hp : c.Presents entries)
    (hslots : c.slots = if hashed then some (Image.slots entries hashed) else none)
    (hsize : (Image.ofOrdered entries hashed order).size ≤ maxSize)
    (ho : entries.Pairwise fun a b => a.1 ≤ b.1)
    (hn : (entries.map fun e => cString e.1).Nodup) (key : Bytes) :
    c.lookup key = (entries.find? fun e => cString e.1 = cString key).map (·.2) := by
  rw [lookup, strategy, hslots]
  cases hashed with
  | false => exact hp.lookupUsing_sorted ho hn key
  | true => exact hp.lookupUsing_hashed hslots (tableSize_lt hsize) key

/-- An image with a header entry and distinct keys is built again, byte for byte, from what the empty
key finds in its catalog and the entries of its catalog, given in any order. -/
theorem build_entries (hhead : ∃ e ∈ entries, e.1 = [])
    (hn : (entries.map fun e => cString e.1).Nodup)
    (hsize : (Image.build entries hashed order).size ≤ maxSize) :
    ∃ c message, decode (Image.build entries hashed order) = .ok c ∧
      c.lookup [] = some message ∧
      ∀ given : List (Bytes × Bytes), given.Perm (([], message) :: c.entries) →
        Image.build given hashed c.header.order = Image.build entries hashed order := by
  obtain ⟨hperm, hordered, -⟩ := Image.sort_stablySorted entries
  have hsorted : ((Image.sort entries).map fun e => cString e.1).Nodup :=
    (hperm.map _).nodup_iff.mpr hn
  obtain ⟨e, he, hid⟩ := hhead
  obtain ⟨message, hfind, hall⟩ :=
    exists_header_entry ⟨e, hperm.mem_iff.mpr he, hid⟩ hsorted
  have hne : Image.sort entries ≠ [] := List.ne_nil_of_mem (hperm.mem_iff.mpr he)
  obtain ⟨c, hdecode, hheader, hp, hslots⟩ := decode_ofOrdered hsize hne
  refine ⟨c, message, hdecode, ?_, ?_⟩
  · rw [hp.lookup_eq_find? hslots hsize hordered hsorted, hfind]
    rfl
  · intro given hgiven
    have horder : c.header.order = order := congrArg Header.order hheader
    rw [hp.entries_eq] at hgiven
    rw [horder]
    exact Image.build_eq_of_perm (hgiven.trans (hall.trans hperm)) (nodup_ids hn)

/-- Two keys that start at one place of the table, a message without bytes, and a header entry. -/
def colliding : List (Bytes × Bytes) := [([102, 0, 99], [120, 0, 122]), ([], [104]), ([97], [])]

theorem build_entries_colliding :
    ((∃ e ∈ colliding, e.1 = []) ∧ (colliding.map fun e => cString e.1).Nodup ∧
      (Image.build colliding true .big).size ≤ maxSize) ∧
    ∃ c message, decode (Image.build colliding true .big) = .ok c ∧
      c.lookup [] = some message ∧
      ∀ given : List (Bytes × Bytes), given.Perm (([], message) :: c.entries) →
        Image.build given true c.header.order = Image.build colliding true .big := by
  have hhead : ∃ e ∈ colliding, e.1 = [] := by decide
  have hn : (colliding.map fun e => cString e.1).Nodup := by decide
  have hsize : (Image.build colliding true .big).size ≤ maxSize := by
    have htable : tableSize 3 ≤ 5 := tableSize_le Nat.prime_five (by decide)
    rw [Image.size_build]
    simp [colliding, headerSize, maxSize]
    omega
  exact ⟨⟨hhead, hn, hsize⟩, build_entries hhead hn hsize⟩

end MessageCatalog.Catalog
