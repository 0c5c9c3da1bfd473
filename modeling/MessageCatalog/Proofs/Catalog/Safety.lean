import MessageCatalog.Proofs.Catalog.Search

/-!
What holds of every image that is accepted, whatever its tables say: its strings lie inside it, a
look-up stays inside the hash table and ends, and it answers with a message of the key asked for.
-/
namespace MessageCatalog.Catalog

namespace Probe

variable {α : Type} (visit : UInt32 → Option α)

/-- The places that a search comes to, the last of them with its answer if it has one. -/
def visited : ℕ → Probe → List UInt32
  | 0, _ => []
  | k + 1, p => p.index :: if (visit p.index).isSome then [] else visited k p.next

theorem visited_isPrefix (k : ℕ) (p : Probe) : visited visit k p <+: p.places k := by
  induction k generalizing p with
  | zero => exact List.prefix_rfl
  | succ k ih =>
    unfold visited places
    rw [List.cons_prefix_cons]
    refine ⟨rfl, ?_⟩
    split
    · exact List.nil_prefix
    · exact ih p.next

theorem search_eq_visited (k : ℕ) (p : Probe) :
    search visit k p = (visited visit k p).findSome? visit := by
  induction k generalizing p with
  | zero => rfl
  | succ k ih =>
    unfold search visited
    rw [List.findSome?_cons, ih]
    cases visit p.index <;> rfl

end Probe

/-- The slots that a look-up in a hash table visits, in order. -/
def visited (c : Catalog) (slots : Array UInt32) (key : Bytes) : List UInt32 :=
  (Probe.start (hashKey key) slots.size.toUInt32).visited (c.visit slots key)
    (visits slots.size.toUInt32)

def entry? (c : Catalog) (i : ℕ) : Option (Bytes × Bytes) := do
  let id ← c.id? i
  if id.isEmpty then none else return (id, ← c.message? i)

variable {image : ByteArray} {c : Catalog} {slots : Array UInt32} {key : Bytes} {i : ℕ}

theorem visited_isPrefix_probes : c.visited slots key <+: probes slots key :=
  Probe.visited_isPrefix _ _ _

theorem length_probes_le (hs : slots.size < UInt32.size) (key : Bytes) :
    (probes slots key).length ≤ slots.size := by
  rw [probes, Probe.length_places, visits]
  split
  · exact Nat.zero_le _
  · exact (toNat_size hs).le

theorem length_slice {d : Descriptor} (h : d.stop ≤ image.size) :
    (d.slice image).length = d.length.toNat := by
  have hsize : image.data.size = image.size := rfl
  have hstop : d.stop = d.start + d.length.toNat := rfl
  rw [Descriptor.slice, ByteArray.data_extract, Array.length_toList, Array.size_extract]
  omega

theorem getElem?_slice {d : Descriptor} (h : d.stop ≤ image.size) {j : ℕ}
    (hj : j < d.length.toNat) : (d.slice image)[j]? = image.data[d.start + j]? := by
  have hsize : image.data.size = image.size := rfl
  have hstop : d.stop = d.start + d.length.toNat := rfl
  rw [Descriptor.slice, ByteArray.data_extract, Array.getElem?_toList, Array.getElem?_extract,
    if_pos (by omega)]

namespace Decoded

variable (hd : Decoded image c)
include hd

theorem stop_lt {d : Descriptor} (h : d ∈ c.ids ∨ d ∈ c.messages) : d.stop < image.size := by
  rcases h with h | h
  · exact (descriptors_eq_ok_iff.mp hd.ids).2.2 d h
  · exact (descriptors_eq_ok_iff.mp hd.messages).2.2 d h

theorem size_messages : c.messages.size = c.header.count.toNat := by
  obtain ⟨-, h, -⟩ := descriptors_eq_ok_iff.mp hd.messages
  rw [h, Array.size_ofFn]

theorem exists_strings (h : i < c.size) : ∃ d ∈ c.ids, ∃ e ∈ c.messages,
    c.ids[i]? = some d ∧ c.messages[i]? = some e ∧
      c.id? i = some (d.slice image) ∧ c.message? i = some (e.slice image) := by
  have hm : i < c.messages.size := by rwa [hd.size_messages, ← hd.size_eq]
  have hi : i < c.ids.size := h
  have hid := Array.getElem?_eq_getElem hi
  have hmessage := Array.getElem?_eq_getElem hm
  refine ⟨c.ids[i], Array.getElem_mem hi, c.messages[i], Array.getElem_mem hm, hid, hmessage,
    ?_, ?_⟩
  · rw [id?, hid, hd.image_eq]
    rfl
  · rw [message?, hmessage, hd.image_eq]
    rfl

/-- Both strings of an index exist, so an entry is missing only where the first is empty. -/
theorem isSome_entry?_iff (h : i < c.size) : (c.entry? i).isSome ↔ c.id? i ≠ some [] := by
  obtain ⟨d, -, e, -, -, -, hid, hmessage⟩ := hd.exists_strings h
  unfold entry?
  rw [hid, hmessage]
  by_cases he : d.slice image = [] <;> simp [he]

theorem length_entries : c.entries.length +
    ((List.range c.size).countP fun i => c.id? i = some []) = c.size := by
  have hcount : c.entries.length =
      (List.range c.size).countP fun i => ¬decide (c.id? i = some []) = true := by
    show ((List.range c.size).filterMap c.entry?).length = _
    rw [List.length_filterMap_eq_countP]
    apply List.countP_congr
    intro i hi
    rw [hd.isSome_entry?_iff (List.mem_range.mp hi)]
    simp
  have hsplit := List.length_eq_countP_add_countP
    (fun i => decide (c.id? i = some [])) (l := List.range c.size)
  rw [List.length_range, ← hcount] at hsplit
  omega

end Decoded

theorem lookupUsing_sound {strategy : Strategy} {message : Bytes}
    (h : c.lookupUsing strategy key = some message) :
    ∃ i < c.size, c.key i = cString key ∧ c.message? i = some message := by
  obtain ⟨i, hfind, hmessage⟩ := Option.bind_eq_some_iff.mp h
  cases strategy with
  | hashed =>
    obtain ⟨slots, -, hfound⟩ := Option.bind_eq_some_iff.mp hfind
    obtain ⟨hi, hkey⟩ := findHashed_sound hfound
    exact ⟨i, hi, hkey, hmessage⟩
  | sorted =>
    obtain ⟨hi, hkey⟩ := findSorted_sound hfind
    exact ⟨i, hi, hkey, hmessage⟩

/-- An image that is accepted, of whatever origin, has its strings inside it, is searched inside its
hash table and not for ever, and answers a key with the message of a string that has this key. -/
theorem decode_safe (h : decode image = .ok c) :
    (∀ d, d ∈ c.ids ∨ d ∈ c.messages → d.start + d.length.toNat < image.size ∧
        (d.slice image).length = d.length.toNat ∧
        ∀ j < d.length.toNat, (d.slice image)[j]? = image.data[d.start + j]?) ∧
      (c.size = c.header.count.toNat ∧ ∀ i < c.size, ∃ d ∈ c.ids, ∃ e ∈ c.messages,
        c.ids[i]? = some d ∧ c.messages[i]? = some e ∧
          c.id? i = some (d.slice image) ∧ c.message? i = some (e.slice image)) ∧
      c.entries.length + ((List.range c.size).countP fun i => c.id? i = some []) = c.size ∧
      (∀ slots key, c.slots = some slots →
        (c.visited slots (cString key)).length ≤ slots.size ∧
        (∀ place ∈ c.visited slots (cString key), place.toNat < slots.size) ∧
        c.lookupUsing .hashed key = ((c.visited slots (cString key)).findSome?
          (c.visit slots (cString key))).join.bind c.message?) ∧
      (∀ strategy key message, c.lookupUsing strategy key = some message →
        ∃ i < c.size, ∃ id, c.id? i = some id ∧ cString id = cString key ∧
          c.message? i = some message) ∧
      ∀ key n, ((c.lookupPlural key n).isSome ↔ (c.lookup key).isSome) ∧
        ∀ form, c.lookupPlural key n = some form →
          ∃ message, c.lookup key = some message ∧ form <:+: message := by
  have hd := decode_eq_ok_iff.mp h
  refine ⟨?_, ⟨hd.size_eq, fun i hi => hd.exists_strings hi⟩, hd.length_entries, ?_, ?_, ?_⟩
  · intro d hmem
    have hstop := hd.stop_lt hmem
    exact ⟨hstop, length_slice hstop.le, fun j hj => getElem?_slice hstop.le hj⟩
  · intro slots key hslots
    have hs := hd.size_slots_lt hslots
    have hvisited : c.visited slots (cString key) <+: probes slots (cString key) :=
      visited_isPrefix_probes
    refine ⟨hvisited.length_le.trans (length_probes_le hs _), ?_, ?_⟩
    · intro place hplace
      exact probes_lt hs (hvisited.mem hplace)
    · rw [lookupUsing, find, hslots, Option.bind_some, findHashed, Probe.search_eq_visited]
      rfl
  · intro strategy key message hlookup
    obtain ⟨i, hi, hkey, hmessage⟩ := lookupUsing_sound hlookup
    obtain ⟨d, -, -, -, -, -, hid, -⟩ := hd.exists_strings hi
    refine ⟨i, hi, _, hid, ?_, hmessage⟩
    rw [← hkey, Catalog.key, hid, Option.getD_some]
  · intro key n
    unfold lookupPlural
    refine ⟨by simp, ?_⟩
    intro form hform
    obtain ⟨message, hmessage, rfl⟩ := Option.map_eq_some_iff.mp hform
    exact ⟨message, hmessage, Plural.selectForm_isInfix _ _⟩

/-- Both string tables and the hash table in one place: the slots are the words of the descriptors,
and the strings are bytes of them. -/
def overlappingImage : ByteArray :=
  (([signature, 0, 2, 28, 28, 3, 28, 3, 28, 1, 36] : List UInt32).flatMap
    ByteOrder.little.bytes).toByteArray

def overlapping : Catalog where
  image := overlappingImage
  header := ⟨.little, 0, 2, 28, 28, 3, 28⟩
  ids := #[⟨3, 28⟩, ⟨1, 36⟩]
  messages := #[⟨3, 28⟩, ⟨1, 36⟩]
  slots := some #[3, 28, 1]
  rule := .undeclared

/-- No slot is empty and two of them hold no string, and still the search ends at the third. -/
theorem overlapping_safe :
    decode overlappingImage = .ok overlapping ∧
      (overlapping.visited #[3, 28, 1] [3]).length ≤ 3 ∧
      (∀ place ∈ overlapping.visited #[3, 28, 1] [3], place.toNat < 3) ∧
      overlapping.lookup [3, 0, 7] = some [3, 0, 0] ∧
      ∃ i < overlapping.size, ∃ id, overlapping.id? i = some id ∧
        cString id = cString [3, 0, 7] ∧ overlapping.message? i = some [3, 0, 0] := by
  have hdecode : decode overlappingImage = .ok overlapping := by
    refine decode_eq_ok_iff.mpr ⟨rfl, ?_, ?_, ?_, ?_, ?_⟩ <;> decide +kernel
  obtain ⟨-, -, -, hvisited, hsound, -⟩ := decode_safe hdecode
  obtain ⟨hlength, hplaces, -⟩ := hvisited #[3, 28, 1] [3] rfl
  have hlookup : overlapping.lookup [3, 0, 7] = some [3, 0, 0] := by decide +kernel
  exact ⟨hdecode, hlength, hplaces, hlookup, hsound _ _ _ hlookup⟩

end MessageCatalog.Catalog
