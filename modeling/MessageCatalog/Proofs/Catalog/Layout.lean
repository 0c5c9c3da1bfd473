import Mathlib.Tactic.Common
import MessageCatalog.Catalog.Image
import MessageCatalog.Proofs.ByteOrder
import MessageCatalog.Proofs.Catalog.Decoding

/-! The parts of a written image, each read back from where it was written. -/
namespace MessageCatalog.Catalog

theorem slice_append {d : Descriptor} (before s after : Bytes) (hd : d.start = before.length)
    (hl : d.length.toNat = s.length) : d.slice (before ++ s ++ after).toByteArray = s := by
  have hstop : d.stop = before.length + s.length := by
    rw [← hd, ← hl]
    rfl
  rw [Descriptor.slice, ByteArray.data_extract, List.data_toByteArray, hd, hstop]
  simp [List.extract_eq_take_drop]

@[simp] theorem pool_nil : pool [] = [] := rfl

@[simp] theorem pool_cons (s : Bytes) (strings : List Bytes) :
    pool (s :: strings) = s ++ 0 :: pool strings := by
  simp [pool]

@[simp] theorem pool_append (first rest : List Bytes) :
    pool (first ++ rest) = pool first ++ pool rest :=
  List.flatMap_append

@[simp] theorem length_describe (offset : ℕ) (strings : List Bytes) :
    (describe offset strings).length = 2 * strings.length := by
  induction strings generalizing offset with
  | nil => rfl
  | cons s strings ih =>
    rw [describe, List.length_cons, List.length_cons, ih, List.length_cons]
    omega

/-- Two words for each string: its length, and the length of what stands before it. -/
theorem describe_append_cons (offset : ℕ) (first : List Bytes) (s : Bytes) (rest : List Bytes) :
    describe offset (first ++ s :: rest) = describe offset first ++
      s.length :: (offset + (pool first).length) ::
        describe (offset + (pool first).length + s.length + 1) rest := by
  induction first generalizing offset with
  | nil => simp [describe]
  | cons t first ih =>
    rw [List.cons_append, describe, ih, describe, pool_cons]
    have hlen : offset + t.length + 1 + (pool first).length =
        offset + (t ++ 0 :: pool first).length := by
      rw [List.length_append, List.length_cons]
      omega
    rw [hlen]
    rfl

theorem slice_pool {image : ByteArray} {pre post : Bytes} {first rest : List Bytes} {s : Bytes}
    (himage : image = (pre ++ pool (first ++ s :: rest) ++ post).toByteArray)
    (hsize : image.size < UInt32.size) {d : Descriptor}
    (hd : d = ⟨UInt32.ofNat s.length, UInt32.ofNat (pre.length + (pool first).length)⟩) :
    d.slice image = s ∧ d.stop < image.size := by
  have hsplit : image = ((pre ++ pool first) ++ s ++ (0 :: pool rest ++ post)).toByteArray := by
    rw [himage, pool_append, pool_cons]
    simp
  have hbound : pre.length + (pool first).length + s.length < image.size := by
    rw [hsplit, List.size_toByteArray]
    simp
    omega
  have hlen : d.length.toNat = s.length := by
    rw [hd]
    exact UInt32.toNat_ofNat_of_lt' (by omega)
  have hstart : d.offset.toNat = pre.length + (pool first).length := by
    rw [hd]
    exact UInt32.toNat_ofNat_of_lt' (by omega)
  constructor
  · rw [hsplit]
    apply slice_append _ _ _ _ hlen
    rw [Descriptor.start, hstart, List.length_append]
  · rw [Descriptor.stop, hstart, hlen]
    exact hbound

variable (order : ByteOrder) (before : List UInt32) (strings : List Bytes) (after : List UInt32)

/-- Words, then a descriptor table for strings, then more words and bytes. -/
def tableImage (offset : ℕ) (tail : Bytes) : ByteArray :=
  ((before ++ (describe offset strings).map UInt32.ofNat ++ after).flatMap order.bytes ++
    tail).toByteArray

theorem readAt_tableImage (offset : ℕ) (tail : Bytes) {first rest : List Bytes} {s : Bytes}
    (h : strings = first ++ s :: rest) :
    Descriptor.readAt order (tableImage order before strings after offset tail)
      (4 * before.length + 8 * first.length) =
        ⟨UInt32.ofNat s.length, UInt32.ofNat (offset + (pool first).length)⟩ := by
  have hwords : before ++ (describe offset strings).map UInt32.ofNat ++ after =
      (before ++ (describe offset first).map UInt32.ofNat) ++
        UInt32.ofNat s.length :: UInt32.ofNat (offset + (pool first).length) ::
          ((describe (offset + (pool first).length + s.length + 1) rest).map UInt32.ofNat ++
            after) := by
    rw [h, describe_append_cons]
    simp
  have hplace : 4 * before.length + 8 * first.length =
      4 * (before ++ (describe offset first).map UInt32.ofNat).length := by
    rw [List.length_append, List.length_map, length_describe]
    omega
  rw [tableImage, hwords, hplace, Descriptor.readAt]
  congr 1
  · exact ByteOrder.wordAt_flatMap_bytes order tail (by simp)
  · rw [← Nat.mul_succ]
    refine ByteOrder.wordAt_flatMap_bytes order tail ?_
    rw [List.getElem?_append_right (Nat.le_succ _), Nat.succ_sub (Nat.le_refl _), Nat.sub_self]
    rfl

theorem size_tableImage (offset : ℕ) (tail : Bytes) :
    (tableImage order before strings after offset tail).size =
      4 * (before.length + 2 * strings.length + after.length) + tail.length := by
  rw [tableImage, List.size_toByteArray, List.length_append, ByteOrder.length_flatMap_bytes,
    List.length_append, List.length_append, List.length_map, length_describe]

/-- A table written for strings, with the strings where it says, is read back as their table. -/
theorem descriptors_tableImage {image : ByteArray} {offset count : UInt32}
    {start : ℕ} {tail pre post : Bytes} (table : String)
    (htable : image = tableImage order before strings after start tail)
    (hstrings : image = (pre ++ pool strings ++ post).toByteArray) (hpre : pre.length = start)
    (hsize : image.size < UInt32.size) (hoffset : offset.toNat = 4 * before.length)
    (hcount : count.toNat = strings.length) :
    ∃ ds : Array Descriptor, descriptors order image offset count table = .ok ds ∧
      ds.size = strings.length ∧ ∀ i : ℕ, ds[i]?.map (Descriptor.slice image) = strings[i]? := by
  let ds : Array Descriptor :=
    Array.ofFn (n := count.toNat) fun i => .readAt order image (offset.toNat + 8 * i)
  have hds : ds.size = strings.length := by rw [Array.size_ofFn, hcount]
  have hread : ∀ (i : ℕ) s, strings[i]? = some s →
      ∃ d : Descriptor, ds[i]? = some d ∧ d.slice image = s ∧ d.stop < image.size := by
    intro i s hi
    obtain ⟨first, rest, hsplit, rfl⟩ := eq_append_cons_of_getElem? hi
    obtain ⟨hlt, -⟩ := List.getElem?_eq_some_iff.mp hi
    have hat : Descriptor.readAt order image (offset.toNat + 8 * first.length) =
        ⟨UInt32.ofNat s.length, UInt32.ofNat (pre.length + (pool first).length)⟩ := by
      rw [hoffset, htable, hpre]
      exact readAt_tableImage order before strings after start tail hsplit
    refine ⟨_, ?_, slice_pool (hsplit ▸ hstrings) hsize hat⟩
    rw [Array.getElem?_eq_getElem (by omega), Array.getElem_ofFn]
  refine ⟨ds, descriptors_eq_ok_iff.mpr ⟨?_, rfl, ?_⟩, hds, ?_⟩
  · have hlen := size_tableImage order before strings after start tail
    rw [← htable] at hlen
    omega
  · intro d hd
    obtain ⟨i, hi⟩ := Array.mem_iff_getElem?.mp hd
    obtain ⟨hlt, -⟩ := Array.getElem?_eq_some_iff.mp hi
    obtain ⟨d', hd', -, hstop⟩ := hread i _ (List.getElem?_eq_getElem (hds ▸ hlt))
    rw [hi] at hd'
    exact Option.some.inj hd' ▸ hstop
  · intro i
    cases hs : strings[i]? with
    | none =>
      have hge : strings.length ≤ i := List.getElem?_eq_none_iff.mp hs
      rw [Array.getElem?_eq_none (hds ▸ hge)]
      rfl
    | some s =>
      obtain ⟨d, hd, hslice, -⟩ := hread i s hs
      rw [hd, Option.map_some, hslice]

theorem hashSlots_words {image : ByteArray} {offset size : UInt32} {slots : Array UInt32}
    {tail : Bytes} (himage : image = ((before ++ slots.toList).flatMap order.bytes ++
      tail).toByteArray) (hoffset : offset.toNat = 4 * before.length)
    (hsize : size.toNat = slots.size) (h2 : 2 < slots.size) :
    hashSlots order image offset size = .ok (some slots) := by
  refine hashSlots_eq_ok_iff.mpr (Or.inr ⟨?_, ?_, ?_⟩)
  · rw [UInt32.lt_iff_toNat_lt, hsize]
    exact h2
  · have hlen : image.size = 4 * (before.length + slots.size) + tail.length := by
      rw [himage, List.size_toByteArray, List.length_append, ByteOrder.length_flatMap_bytes,
        List.length_append]
      rfl
    omega
  · have hat : ∀ i, (hi : i < slots.size) →
        order.wordAt image (offset.toNat + 4 * i) = slots[i] := by
      intro i hi
      rw [hoffset, himage, ← Nat.mul_add]
      refine ByteOrder.wordAt_flatMap_bytes order tail ?_
      rw [List.getElem?_append_right (Nat.le_add_right _ _), Nat.add_sub_cancel_left,
        Array.getElem?_toList, Array.getElem?_eq_getElem hi]
    congr 1
    apply Array.ext
    · rw [Array.size_ofFn, hsize]
    · intro i hi _
      rw [Array.getElem_ofFn, hat i hi]

end MessageCatalog.Catalog
