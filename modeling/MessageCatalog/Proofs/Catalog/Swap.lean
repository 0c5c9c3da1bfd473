import Mathlib.Order.Interval.Finset.Nat
import MessageCatalog.Proofs.Catalog.Rereading

/-!
A catalog in the other byte order. Where the words and the strings of an image share no byte, the
image with the bytes of every word reversed is the same catalog, written in the opposite order.
-/
namespace MessageCatalog

namespace ByteOrder

def opposite : ByteOrder → ByteOrder
  | little => big
  | big => little

theorem word_opposite (order : ByteOrder) (a b c d : UInt8) :
    order.opposite.word a b c d = order.word d c b a := by
  cases order <;> rfl

/-- A word with its bytes reversed is read in the opposite order. -/
theorem wordAt_opposite (order : ByteOrder) {image other : ByteArray} {offset : ℕ}
    (h : offset + 4 ≤ image.size) (hsize : other.size = image.size)
    (hbytes : ∀ k < 4, other.data[offset + k]? = image.data[offset + (3 - k)]?) :
    order.opposite.wordAt other offset = order.wordAt image offset := by
  have h' : offset + 4 ≤ other.size := hsize ▸ h
  have hbyte : ∀ k (hk : k < 4), other[offset + k] = image[offset + (3 - k)] := by
    intro k hk
    have hboth := hbytes k hk
    have hk' : offset + k < other.data.size := Nat.lt_of_lt_of_le (Nat.add_lt_add_left hk _) h'
    have hr : offset + (3 - k) < image.data.size := by
      change _ < image.size
      omega
    rw [Array.getElem?_eq_getElem hk', Array.getElem?_eq_getElem hr] at hboth
    exact Option.some.inj hboth
  rw [wordAt, wordAt, word?, word?, dif_pos h, dif_pos h', Option.getD_some, Option.getD_some,
    word_opposite]
  congr 1
  · exact hbyte 3 (by decide)
  · exact hbyte 2 (by decide)
  · exact hbyte 1 (by decide)
  · exact hbyte 0 (by decide)

end ByteOrder

namespace Catalog

namespace Region

def places (r : Region) : Finset ℕ := Finset.Ico r.start r.stop

/-- Where a byte of a region goes when the bytes of each word are reversed. -/
def mirror (r : Region) (i : ℕ) : ℕ := r.start + 4 * ((i - r.start) / 4) + (3 - (i - r.start) % 4)

theorem mem_places {r : Region} {i : ℕ} : i ∈ r.places ↔ r.start ≤ i ∧ i < r.stop :=
  Finset.mem_Ico

theorem word_mem {r : Region} {j k : ℕ} (hj : j < r.words) (hk : k < 4) :
    r.start + 4 * j + k ∈ r.places := by
  rw [mem_places, stop]
  omega

theorem mirror_word (r : Region) (j : ℕ) {k : ℕ} (hk : k < 4) :
    r.mirror (r.start + 4 * j + k) = r.start + 4 * j + (3 - k) := by
  unfold mirror
  omega

end Region

def Descriptor.places (d : Descriptor) : Finset ℕ := Finset.Ico d.start d.stop

namespace Header

/-- The place that a byte comes from when the bytes of every word that is read are reversed. -/
def source (header : Header) (i : ℕ) : ℕ :=
  ((header.regions.find? (i ∈ ·.places)).map (·.mirror i)).getD i

def swap (header : Header) (image : ByteArray) : ByteArray :=
  ⟨Array.ofFn (n := image.size) fun i => image.data[header.source i]?.getD 0⟩

variable {header : Header} {image : ByteArray} {i : ℕ}

@[simp] theorem size_swap : (header.swap image).size = image.size := Array.size_ofFn

theorem getElem?_swap (h : i < image.size) (hs : header.source i < image.size) :
    (header.swap image).data[i]? = image.data[header.source i]? := by
  have hsource : header.source i < image.data.size := hs
  rw [swap, Array.getElem?_ofFn, dif_pos h, Array.getElem?_eq_getElem hsource, Option.getD_some]

theorem source_of_mem (hs : header.regions.Pairwise fun r s => Disjoint r.places s.places)
    {r : Region} (hr : r ∈ header.regions) (hi : i ∈ r.places) : header.source i = r.mirror i := by
  have hfind : header.regions.find? (i ∈ ·.places) = some r := by
    cases hf : header.regions.find? (i ∈ ·.places) with
    | none => exact absurd (decide_eq_true hi) (List.find?_eq_none.mp hf r hr)
    | some s =>
      have hmem : i ∈ s.places := by simpa using List.find?_some hf
      have hsymm : Std.Symm fun r s : Region => Disjoint r.places s.places := ⟨fun _ _ h => h.symm⟩
      by_contra hne
      have hdisjoint := hs.forall (List.mem_of_find?_eq_some hf) hr fun heq =>
        hne (congrArg some heq)
      exact Finset.disjoint_left.mp hdisjoint hmem hi
  rw [source, hfind]
  rfl

theorem source_of_notMem (hi : ∀ r ∈ header.regions, i ∉ r.places) : header.source i = i := by
  have hfind : header.regions.find? (i ∈ ·.places) = none :=
    List.find?_eq_none.mpr fun r hr => by simpa using hi r hr
  rw [source, hfind]
  rfl

end Header

/-- No byte of an image is in two of the regions that are read as words, or in one of them and in a
string. -/
structure Separate (c : Catalog) : Prop where
  regions : c.header.regions.Pairwise fun r s => Disjoint r.places s.places
  strings : ∀ r ∈ c.header.regions, ∀ d, d ∈ c.ids ∨ d ∈ c.messages → Disjoint r.places d.places

section Swap

variable {image : ByteArray} {c : Catalog}

theorem Decoded.rereads_swap (hd : Decoded image c) (hs : c.Separate) :
    Rereads c image (c.header.swap image) c.header.order.opposite where
  size_le := Header.size_swap.ge
  size_le_max := Header.size_swap.trans_le (ofImage_eq_ok_iff.mp hd.header).2.1
  words r hr j hj := by
    have hstop : r.start + 4 * r.words ≤ image.size := hd.stop_le hr
    refine ByteOrder.wordAt_opposite _ (by omega) Header.size_swap fun k hk => ?_
    have hsource : c.header.source (r.start + 4 * j + k) = r.start + 4 * j + (3 - k) := by
      rw [Header.source_of_mem hs.regions hr (Region.word_mem hj hk), Region.mirror_word _ _ hk]
    rw [Header.getElem?_swap (by omega) (by omega), hsource]
  strings d h := by
    have hstop := hd.stop_lt h
    refine slice_congr fun i hi hi' => ?_
    have hsource : c.header.source i = i := by
      refine Header.source_of_notMem fun r hr hmem => ?_
      exact Finset.disjoint_left.mp (hs.strings r hr d h) hmem (Finset.mem_Ico.mpr ⟨hi, hi'⟩)
    rw [Header.getElem?_swap (by omega) (by omega), hsource]

/-- A catalog whose words and strings share no byte is one in the opposite byte order too, with the
same answers. -/
theorem decode_swap (h : decode image = .ok c) (hs : c.Separate) :
    ∃ c', decode (c.header.swap image) = .ok c' ∧
      c'.header = { c.header with order := c.header.order.opposite } ∧ c.Agrees c' := by
  have hd := decode_eq_ok_iff.mp h
  have hr := hd.rereads_swap hs
  exact ⟨_, decode_reread hd hr, rfl, agrees_reread hd hr⟩

theorem decode_swap_crowdedImage :
    (decode crowdedImage = .ok crowded ∧ crowded.Separate) ∧
      ∃ c', decode (crowded.header.swap crowdedImage) = .ok c' ∧
        c'.header = { crowded.header with order := .big } ∧ crowded.Agrees c' := by
  have hseparate : crowded.Separate := by
    refine ⟨by decide +kernel, ?_⟩
    rintro r hr d (hd | hd) <;> revert r d <;> decide +kernel
  exact ⟨⟨decode_crowdedImage, hseparate⟩, decode_swap decode_crowdedImage hseparate⟩

example : crowded.header.swap crowdedImage =
    (([signature, 0, 2, 28, 44, 4, 60, 1, 76, 3, 78, 1, 82, 1, 84, 2, 7, 9, 1] :
      List UInt32).flatMap ByteOrder.big.bytes ++
        [97, 0, 98, 0, 99, 0, 120, 0, 121, 0]).toByteArray := by
  decide +kernel

end Swap

end Catalog

end MessageCatalog
