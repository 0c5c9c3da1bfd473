import MessageCatalog.Catalog.Metadata
import MessageCatalog.Proofs.Catalog.Acceptance
import MessageCatalog.Proofs.Catalog.Safety

/-!
What decoding takes from an image: the words of its header and tables, and the bytes of its strings.
Where these read the same in another image, perhaps in the other byte order, it is the same catalog.
-/
namespace MessageCatalog.Catalog

structure Region where
  start : ℕ
  words : ℕ

def Region.stop (r : Region) : ℕ := r.start + 4 * r.words

/-- The header, the two string tables, and the hash table if it counts. -/
def Header.regions (header : Header) : List Region :=
  [⟨0, 7⟩, ⟨header.idsOffset.toNat, 2 * header.count.toNat⟩,
    ⟨header.messagesOffset.toNat, 2 * header.count.toNat⟩] ++
      if noHashTable < header.hashSize then [⟨header.hashOffset.toNat, header.hashSize.toNat⟩]
      else []

section Header

variable {image : ByteArray} {header : Header}

theorem ofImage_eq_ok_iff : Header.ofImage image = .ok header ↔
    minSize ≤ image.size ∧ image.size ≤ maxSize ∧ header.order.wordAt image 0 = signature ∧
      header = .ofWords header.order image ∧ header.check = .ok () := by
  rw [ofImage_eq]
  by_cases hmin : image.size < minSize
  · rw [if_pos hmin]
    simp [Nat.not_le.mpr hmin]
  by_cases hmax : maxSize < image.size
  · rw [if_neg hmin, if_pos hmax]
    simp [Nat.not_le.mpr hmax]
  have h32 : 32 ≤ image.size := Nat.not_lt.mp hmin
  simp only [if_neg hmin, if_neg hmax, Nat.not_lt.mp hmin, Nat.not_lt.mp hmax, true_and,
    bind_eq_ok_iff]
  constructor
  · rintro ⟨order, ho, ⟨⟩, hcheck, hheader⟩
    obtain rfl := Except.ok.inj hheader
    exact ⟨(order?_eq_ok_iff (by omega) order).mp ho, rfl, hcheck⟩
  · rintro ⟨ho, hwords, hcheck⟩
    rw [hwords] at hcheck
    exact ⟨_, (order?_eq_ok_iff (by omega) _).mpr ho, (), hcheck, congrArg _ hwords.symm⟩

end Header

structure Alike (c c' : Catalog) : Prop where
  size_eq : c'.size = c.size
  id?_eq : ∀ i, c'.id? i = c.id? i
  message?_eq : ∀ i, c'.message? i = c.message? i
  slots_eq : c'.slots = c.slots

namespace Alike

variable {c c' : Catalog} (h : Alike c c')
include h

theorem key_eq (i : ℕ) : c'.key i = c.key i := by
  rw [key, h.id?_eq, key]

theorem visit_eq (slots : Array UInt32) (key : Bytes) (place : UInt32) :
    c'.visit slots key place = c.visit slots key place := by
  unfold visit
  simp only [h.size_eq, h.key_eq]

theorem find_eq (strategy : Strategy) (key : Bytes) :
    c'.find strategy key = c.find strategy key := by
  cases strategy with
  | hashed =>
    have hvisit : ∀ slots, c'.visit slots (cString key) = c.visit slots (cString key) :=
      fun slots => funext fun place => h.visit_eq slots _ place
    simp only [find, findHashed, h.slots_eq, hvisit]
  | sorted => simp only [find, findSorted, h.size_eq, h.key_eq]

theorem lookupUsing_eq (strategy : Strategy) (key : Bytes) :
    c'.lookupUsing strategy key = c.lookupUsing strategy key := by
  have hmessage : c'.message? = c.message? := funext h.message?_eq
  rw [lookupUsing, lookupUsing, h.find_eq, hmessage]

theorem lookup_eq (key : Bytes) : c'.lookup key = c.lookup key := by
  rw [lookup, lookup, strategy, strategy, h.slots_eq, h.lookupUsing_eq]

theorem metadata_eq : c'.metadata = c.metadata := by
  rw [metadata, metadata, h.lookup_eq]

theorem entries_eq : c'.entries = c.entries := by
  unfold entries
  simp only [h.size_eq, h.id?_eq, h.message?_eq]

end Alike

/-- Two catalogs that answer alike. -/
structure Agrees (c c' : Catalog) : Prop where
  entries : c'.entries = c.entries
  rule : c'.rule = c.rule
  metadata : c'.metadata = c.metadata
  lookupUsing : ∀ strategy key, c'.lookupUsing strategy key = c.lookupUsing strategy key

theorem slice_congr {d : Descriptor} {image other : ByteArray}
    (h : ∀ i, d.start ≤ i → i < d.stop → other.data[i]? = image.data[i]?) :
    d.slice other = d.slice image := by
  have hslice : ∀ image : ByteArray,
      d.slice image = (image.data.toList.drop d.start).take d.length.toNat := by
    intro image
    have hlength : d.stop - d.start = d.length.toNat := Nat.add_sub_cancel_left _ _
    rw [Descriptor.slice, ByteArray.data_extract, Array.toList_extract, List.extract_eq_take_drop,
      hlength]
  rw [hslice, hslice]
  refine take_drop_congr fun i hi hi' => ?_
  simpa using h i hi hi'

def reread (c : Catalog) (other : ByteArray) (order : ByteOrder) : Catalog :=
  { c with image := other, header := { c.header with order } }

/-- Another image, in which the words of a catalog stand in the given order at their places, and
its strings at theirs. -/
structure Rereads (c : Catalog) (image other : ByteArray) (order : ByteOrder) : Prop where
  size_le : image.size ≤ other.size
  size_le_max : other.size ≤ maxSize
  words : ∀ r ∈ c.header.regions, ∀ j < r.words,
    order.wordAt other (r.start + 4 * j) = c.header.order.wordAt image (r.start + 4 * j)
  strings : ∀ d, d ∈ c.ids ∨ d ∈ c.messages → d.slice other = d.slice image

section Rereads

variable {c : Catalog} {image other : ByteArray} {order : ByteOrder}

theorem Decoded.stop_le (hd : Decoded image c) {r : Region} (hr : r ∈ c.header.regions) :
    r.stop ≤ image.size := by
  have hids := (descriptors_eq_ok_iff.mp hd.ids).1
  have hmessages := (descriptors_eq_ok_iff.mp hd.messages).1
  have hmin : 32 ≤ image.size := (ofImage_eq_ok_iff.mp hd.header).1
  unfold Region.stop
  simp only [Header.regions, List.mem_append, List.mem_cons, List.not_mem_nil, or_false] at hr
  rcases hr with (rfl | rfl | rfl) | hr
  · dsimp only
    omega
  · dsimp only
    omega
  · dsimp only
    omega
  · split_ifs at hr with hlt
    · obtain rfl := List.mem_singleton.mp hr
      rcases hashSlots_eq_ok_iff.mp hd.slots with ⟨hle, -⟩ | ⟨-, hextent, -⟩
      · exact absurd hlt (UInt32.not_lt.mpr hle)
      · exact hextent
    · cases hr

theorem descriptors_reread {offset count : UInt32} {table : String} {ds : Array Descriptor}
    {order' : ByteOrder} (h : descriptors order image offset count table = .ok ds)
    (hsize : image.size ≤ other.size)
    (hwords : ∀ j < 2 * count.toNat, order'.wordAt other (offset.toNat + 4 * j) =
      order.wordAt image (offset.toNat + 4 * j)) :
    descriptors order' other offset count table = .ok ds := by
  obtain ⟨hextent, hds, hstop⟩ := descriptors_eq_ok_iff.mp h
  refine descriptors_eq_ok_iff.mpr ⟨hextent.trans hsize, ?_, fun d hd => ?_⟩
  · rw [hds]
    congr 1
    funext i
    have hlength := hwords (2 * i) (by omega)
    have hoffset := hwords (2 * i + 1) (by omega)
    have hplace : offset.toNat + 4 * (2 * (i : ℕ)) = offset.toNat + 8 * i := by omega
    have hplace' : offset.toNat + 4 * (2 * (i : ℕ) + 1) = offset.toNat + 8 * i + 4 := by omega
    rw [hplace] at hlength
    rw [hplace'] at hoffset
    rw [Descriptor.readAt, Descriptor.readAt, hlength, hoffset]
  · exact (hstop d hd).trans_le hsize

theorem hashSlots_reread {offset size : UInt32} {slots : Option (Array UInt32)}
    {order' : ByteOrder} (h : hashSlots order image offset size = .ok slots)
    (hsize : image.size ≤ other.size)
    (hwords : noHashTable < size → ∀ j < size.toNat, order'.wordAt other (offset.toNat + 4 * j) =
      order.wordAt image (offset.toNat + 4 * j)) :
    hashSlots order' other offset size = .ok slots := by
  rcases hashSlots_eq_ok_iff.mp h with hnone | ⟨hlt, hextent, hslots⟩
  · exact hashSlots_eq_ok_iff.mpr (Or.inl hnone)
  · refine hashSlots_eq_ok_iff.mpr (Or.inr ⟨hlt, hextent.trans hsize, ?_⟩)
    rw [hslots]
    congr 2
    funext i
    rw [hwords hlt i i.isLt]

variable (hd : Decoded image c) (hr : Rereads c image other order)
include hd hr

theorem ofImage_reread : Header.ofImage other = .ok { c.header with order } := by
  obtain ⟨hmin, -, hsignature, hwords, hcheck⟩ := ofImage_eq_ok_iff.mp hd.header
  have hword : ∀ j < 7, order.wordAt other (4 * j) = c.header.order.wordAt image (4 * j) := by
    intro j hj
    have hregion := hr.words ⟨0, 7⟩ (by simp [Header.regions]) j hj
    rwa [Nat.zero_add] at hregion
  refine ofImage_eq_ok_iff.mpr
    ⟨hmin.trans hr.size_le, hr.size_le_max, (hword 0 (by decide)).trans hsignature, ?_, hcheck⟩
  have hheader :
      Header.ofWords order other = { Header.ofWords c.header.order image with order } := by
    simp only [Header.ofWords, Header.mk.injEq, true_and]
    exact ⟨hword 1 (by decide), hword 2 (by decide), hword 3 (by decide), hword 4 (by decide),
      hword 5 (by decide), hword 6 (by decide)⟩
  rw [hheader, ← hwords]

theorem alike_reread : Alike c (c.reread other order) := by
  refine ⟨rfl, fun i => ?_, fun i => ?_, rfl⟩
  · rw [id?, id?, hd.image_eq]
    cases hi : c.ids[i]? with
    | none => simp [reread, hi]
    | some d => simp [reread, hi, hr.strings d (Or.inl (Array.mem_of_getElem? hi))]
  · rw [message?, message?, hd.image_eq]
    cases hi : c.messages[i]? with
    | none => simp [reread, hi]
    | some d => simp [reread, hi, hr.strings d (Or.inr (Array.mem_of_getElem? hi))]

theorem decode_reread : decode other = .ok (c.reread other order) := by
  refine decode_eq_ok_iff.mpr ⟨rfl, ofImage_reread hd hr, ?_, ?_, ?_, ?_⟩
  · refine descriptors_reread hd.ids hr.size_le fun j hj => ?_
    exact hr.words ⟨c.header.idsOffset.toNat, 2 * c.header.count.toNat⟩ (by simp [Header.regions])
      j hj
  · refine descriptors_reread hd.messages hr.size_le fun j hj => ?_
    exact hr.words ⟨c.header.messagesOffset.toNat, 2 * c.header.count.toNat⟩
      (by simp [Header.regions]) j hj
  · refine hashSlots_reread hd.slots hr.size_le fun hlt j hj => ?_
    have hcounts : noHashTable < c.header.hashSize := hlt
    exact hr.words ⟨c.header.hashOffset.toNat, c.header.hashSize.toNat⟩
      (by simp [Header.regions, hcounts]) j hj
  · rw [(alike_reread hd hr).lookup_eq, ← hd.rule]
    rfl

theorem agrees_reread : Agrees c (c.reread other order) := by
  have halike := alike_reread hd hr
  exact ⟨halike.entries_eq, rfl, halike.metadata_eq, halike.lookupUsing_eq⟩

end Rereads

end MessageCatalog.Catalog
