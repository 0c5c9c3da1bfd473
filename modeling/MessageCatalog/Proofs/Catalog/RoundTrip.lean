import MessageCatalog.Proofs.Catalog.Build
import MessageCatalog.Proofs.Catalog.Order
import MessageCatalog.Proofs.Catalog.Search

/-!
A built catalog answers as its sorted entries do: they are its entries, and a key is found as the
first of them that has it.
-/
namespace MessageCatalog.Catalog

variable {c : Catalog} {entries : List (Bytes × Bytes)}

theorem filterMap_range_getElem? {α β : Type} (f : α → Option β) (l : List α) :
    ((List.range l.length).filterMap fun i => l[i]?.bind f) = l.filterMap f := by
  induction l with
  | nil => rfl
  | cons a l ih =>
    rw [List.length_cons, List.range_succ_eq_map, List.filterMap_cons, List.filterMap_map,
      List.filterMap_cons]
    simp only [Function.comp_def, List.getElem?_cons_zero, List.getElem?_cons_succ,
      Option.bind_some, ih]

namespace Presents

variable (hp : c.Presents entries)
include hp

theorem key_eq {i : ℕ} {e : Bytes × Bytes} (h : entries[i]? = some e) :
    c.key i = cString e.1 := by
  rw [key, hp.id?_eq, h]
  rfl

theorem entries_eq : c.entries = entries.filter fun e => e.1 ≠ [] := by
  have hentry : ∀ i ∈ List.range entries.length, (do
      let id ← c.id? i
      if id.isEmpty then none else return (id, ← c.message? i)) =
        entries[i]?.bind (Option.guard fun e => decide (e.1 ≠ [])) := by
    intro i hi
    have hlt := List.mem_range.mp hi
    rw [hp.id?_eq, hp.message?_eq, List.getElem?_eq_getElem hlt]
    by_cases he : entries[i].1 = [] <;> simp [he, Option.guard]
  rw [Catalog.entries, hp.size_eq, List.filterMap_congr hentry, filterMap_range_getElem?,
    List.filterMap_eq_filter]

theorem lookupUsing_eq_find? {strategy : Strategy} {key : Bytes}
    (hsound : ∀ i, c.find strategy key = some i → i < c.size ∧ c.key i = cString key)
    (hfirst : ∀ i, i < c.size → c.key i = cString key →
      (∀ j < i, c.key j ≠ cString key) → c.find strategy key = some i) :
    c.lookupUsing strategy key =
      (entries.find? fun e => cString e.1 = cString key).map (·.2) := by
  have hget : ∀ i e, entries[i]? = some e → (c.key i = cString key ↔ cString e.1 = cString key) := by
    intro i e he
    rw [hp.key_eq he]
  cases hf : entries.find? fun e => decide (cString e.1 = cString key) with
  | none =>
    cases hc : c.find strategy key with
    | none =>
      rw [lookupUsing, hc]
      rfl
    | some i =>
      obtain ⟨hi, hk⟩ := hsound i hc
      rw [hp.size_eq] at hi
      have hmem := List.find?_eq_none.mp hf _ (List.getElem_mem hi)
      rw [hget i _ (List.getElem?_eq_getElem hi)] at hk
      simp [hk] at hmem
  | some e =>
    obtain ⟨he, i, hi, hei, hbefore⟩ := List.find?_eq_some_iff_getElem.mp hf
    have hi' : entries[i]? = some e := by rw [List.getElem?_eq_getElem hi, hei]
    have hfound : c.find strategy key = some i := by
      refine hfirst i (hp.size_eq ▸ hi) ((hget i e hi').mpr (by simpa using he)) ?_
      intro j hj hk
      have hjlt : j < entries.length := hj.trans hi
      rw [hget j _ (List.getElem?_eq_getElem hjlt)] at hk
      have := hbefore j hj
      simp [hk] at this
    rw [lookupUsing, hfound, Option.bind_some, hp.message?_eq, hi']

/-- The keys of sorted entries ascend when none occurs twice. -/
theorem ascending (ho : entries.Pairwise fun a b => a.1 ≤ b.1)
    (hn : (entries.map fun e => cString e.1).Nodup) : c.Ascending := by
  intro i j hij hj
  rw [hp.size_eq] at hj
  have hi := hij.trans hj
  rw [hp.key_eq (List.getElem?_eq_getElem hi), hp.key_eq (List.getElem?_eq_getElem hj)]
  have hle := cString_le_cString (List.pairwise_iff_getElem.mp ho i j hi hj hij)
  have hne : cString entries[i].1 ≠ cString entries[j].1 := by
    have := List.pairwise_iff_getElem.mp hn i j (by simpa using hi) (by simpa using hj) hij
    simpa using this
  exact Std.lt_of_le_of_ne hle hne

theorem lookupUsing_sorted (ho : entries.Pairwise fun a b => a.1 ≤ b.1)
    (hn : (entries.map fun e => cString e.1).Nodup) (key : Bytes) :
    c.lookupUsing .sorted key =
      (entries.find? fun e => cString e.1 = cString key).map (·.2) := by
  refine hp.lookupUsing_eq_find? (fun i h => findSorted_sound h) ?_
  intro i hi hk _
  exact (findSorted_eq_some_iff (hp.ascending ho hn)).mpr ⟨hi, hk⟩

theorem lookupUsing_hashed (hs : c.slots = some (buildSlots (entries.map (·.1))))
    (hlt : tableSize entries.length < UInt32.size) (key : Bytes) :
    c.lookupUsing .hashed key =
      (entries.find? fun e => cString e.1 = cString key).map (·.2) := by
  have hfind : ∀ i, c.find .hashed key = some i ↔
      c.findHashed (buildSlots (entries.map (·.1))) (cString key) = some i := by
    intro i
    rw [find, hs, Option.bind_some]
  have hids : tableSize (entries.map (·.1)).length < UInt32.size := by rwa [List.length_map]
  have hfilled := buildSlots_filled hids
  refine hp.lookupUsing_eq_find? (fun i h => findHashed_sound ((hfind i).mp h)) ?_
  intro i hi hk hbefore
  rw [hfind]
  have hi' : i < (entries.map (·.1)).length := by rwa [List.length_map, ← hp.size_eq]
  have hleads := hfilled.leads i hi'
  have hkey : cString (entries.map (·.1))[i] = cString key := by
    rw [← hk, hp.key_eq (List.getElem?_eq_getElem (by simpa using hi')), List.getElem_map]
  rw [hkey] at hleads
  refine findHashed_of_leads ?_ hleads hi hk (fun h => absurd h.1 (Nat.lt_irrefl 0)) ?_
  · rwa [size_buildSlots, List.length_map]
  · intro j hj _ hkj
    exact absurd hkj (hbefore j hj.2)

end Presents

theorem tableSize_lt {entries : List (Bytes × Bytes)} {order : ByteOrder}
    (hsize : (Image.ofOrdered entries true order).size ≤ maxSize) :
    tableSize entries.length < UInt32.size := by
  have hlt := stringsOffset_lt hsize
  rw [Image.stringsOffset, Image.size_slots, if_pos rfl] at hlt
  omega

/-- Decoding a built image gives back its entries in order, and looks keys up in them. -/
theorem decode_build {entries : List (Bytes × Bytes)} {hashed : Bool} {order : ByteOrder}
    (hne : entries ≠ []) (hsize : (Image.build entries hashed order).size ≤ maxSize) :
    ∃ c sorted, decode (Image.build entries hashed order) = .ok c ∧
      Image.StablySorted entries sorted ∧ c.size = entries.length ∧
      (c.strategy = .hashed ↔ hashed = true) ∧
      c.entries = sorted.filter (fun e => e.1 ≠ []) ∧
      (hashed = true → ∀ key, c.lookupUsing .hashed key =
        (sorted.find? fun e => cString e.1 = cString key).map (·.2)) ∧
      ((entries.map fun e => cString e.1).Nodup → ∀ key, c.lookupUsing .sorted key =
        (sorted.find? fun e => cString e.1 = cString key).map (·.2)) := by
  obtain hsorted := Image.sort_stablySorted entries
  have hlen : (Image.sort entries).length = entries.length := hsorted.perm.length_eq
  have hne' : Image.sort entries ≠ [] := by
    rw [← List.length_pos_iff, hlen]
    exact List.length_pos_iff.mpr hne
  obtain ⟨c, hdecode, -, hp, hslots⟩ := decode_ofOrdered hsize hne'
  refine ⟨c, Image.sort entries, hdecode, hsorted, hp.size_eq.trans hlen, ?_, hp.entries_eq,
    ?_, ?_⟩
  · rw [strategy, hslots]
    cases hashed <;> simp
  · rintro rfl key
    exact hp.lookupUsing_hashed (hslots.trans (if_pos rfl)) (tableSize_lt hsize) key
  · intro hn key
    refine hp.lookupUsing_sorted hsorted.ordered ?_ key
    exact (hsorted.perm.map _).nodup_iff.mpr hn

/-- A header entry, and one key for two strings. -/
def twoForms : List (Bytes × Bytes) := [([98, 0, 99], [120, 0, 122]), ([], [104]), ([98], [121])]

theorem decode_build_twoForms :
    (twoForms ≠ [] ∧ (Image.build twoForms true .big).size ≤ maxSize) ∧
    ∃ c sorted, decode (Image.build twoForms true .big) = .ok c ∧
      Image.StablySorted twoForms sorted ∧ c.size = twoForms.length ∧
      (c.strategy = .hashed ↔ true = true) ∧
      c.entries = sorted.filter (fun e => e.1 ≠ []) ∧
      (true = true → ∀ key, c.lookupUsing .hashed key =
        (sorted.find? fun e => cString e.1 = cString key).map (·.2)) ∧
      ((twoForms.map fun e => cString e.1).Nodup → ∀ key, c.lookupUsing .sorted key =
        (sorted.find? fun e => cString e.1 = cString key).map (·.2)) := by
  have hne : twoForms ≠ [] := List.cons_ne_nil _ _
  have hsize : (Image.build twoForms true .big).size ≤ maxSize := by
    have htable : tableSize 3 ≤ 5 := tableSize_le Nat.prime_five (by decide)
    rw [Image.size_build]
    simp [twoForms, headerSize, maxSize]
    omega
  exact ⟨⟨hne, hsize⟩, decode_build hne hsize⟩

end MessageCatalog.Catalog
