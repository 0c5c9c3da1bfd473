import MessageCatalog.Catalog.Basic
import MessageCatalog.Proofs.ByteOrder
import MessageCatalog.Proofs.Catalog.HashTable
import MessageCatalog.Proofs.Except

/-! What a decoded catalog is: its tables are those that the image holds. -/
namespace MessageCatalog.Catalog

variable {image : ByteArray} {order : ByteOrder} {offset count size : UInt32}

theorem descriptors_eq_ok_iff {table : String} {ds : Array Descriptor} :
    descriptors order image offset count table = .ok ds ↔
      offset.toNat + 8 * count.toNat ≤ image.size ∧
      ds = Array.ofFn (n := count.toNat)
        (fun i => Descriptor.readAt order image (offset.toNat + 8 * i)) ∧
      ∀ d ∈ ds, d.stop < image.size := by
  unfold descriptors
  dsimp only
  split_ifs with hb ha
  · simp only [Array.all_eq_true', decide_eq_true_eq] at ha
    constructor
    · intro h
      obtain rfl := Except.ok.inj h
      exact ⟨hb, rfl, ha⟩
    · intro h
      rw [h.2.1]
  · simp only [Array.all_eq_true', decide_eq_true_eq] at ha
    constructor
    · intro h
      cases h
    · intro h
      obtain ⟨-, rfl, hstop⟩ := h
      exact absurd hstop ha
  · constructor
    · intro h
      cases h
    · intro h
      exact absurd h.1 hb

theorem hashSlots_eq_ok_iff {slots : Option (Array UInt32)} :
    hashSlots order image offset size = .ok slots ↔
      (size ≤ noHashTable ∧ slots = none) ∨
      (noHashTable < size ∧ offset.toNat + 4 * size.toNat ≤ image.size ∧
        slots = some (Array.ofFn (n := size.toNat)
          fun i => order.wordAt image (offset.toNat + 4 * i))) := by
  unfold hashSlots
  split_ifs with hn hb
  · have hlt : ¬noHashTable < size := UInt32.not_lt.mpr hn
    simp only [hn, hlt, true_and, false_and, or_false, Except.ok.injEq]
    exact eq_comm
  · have hlt : noHashTable < size := UInt32.not_le.mp hn
    simp only [hn, hlt, hb, true_and, false_and, false_or, Except.ok.injEq]
    exact eq_comm
  · simp [hn, hb]

/-- No image starts with the signature in both orders. -/
theorem little_wordAt_ne_signature (h : 4 ≤ image.size)
    (hbig : ByteOrder.big.wordAt image 0 = signature) :
    ByteOrder.little.wordAt image 0 ≠ signature := by
  intro hlittle
  have hsignature : signature.toNat = 0x950412de := rfl
  have hboth := congrArg UInt32.toNat (hbig.trans hlittle.symm)
  have hvalue := congrArg UInt32.toNat hlittle
  rw [ByteOrder.wordAt, ByteOrder.wordAt, ByteOrder.word?, ByteOrder.word?, dif_pos h, dif_pos h,
    Option.getD_some, Option.getD_some, ByteOrder.word, ByteOrder.word, ByteOrder.toNat_or_bytes,
    ByteOrder.toNat_or_bytes] at hboth
  rw [ByteOrder.wordAt, ByteOrder.word?, dif_pos h, Option.getD_some, ByteOrder.word,
    ByteOrder.toNat_or_bytes, hsignature] at hvalue
  have h0 := image[0].toNat_lt
  have h1 := image[0 + 1].toNat_lt
  have h2 := image[0 + 2].toNat_lt
  have h3 := image[0 + 3].toNat_lt
  omega

theorem order?_eq_ok_iff (h : 4 ≤ image.size) (order : ByteOrder) :
    Header.order? image = .ok order ↔ order.wordAt image 0 = signature := by
  constructor
  · intro ho
    unfold Header.order? at ho
    split_ifs at ho with hlittle hbig
    · rwa [← Except.ok.inj ho]
    · rwa [← Except.ok.inj ho]
  · intro ho
    cases order with
    | little => rw [Header.order?, if_pos ho]
    | big => rw [Header.order?, if_neg (little_wordAt_ne_signature h ho), if_pos ho]

structure Decoded (image : ByteArray) (c : Catalog) : Prop where
  image_eq : c.image = image
  header : Header.ofImage image = .ok c.header
  ids : descriptors c.header.order image c.header.idsOffset c.header.count idsTable = .ok c.ids
  messages : descriptors c.header.order image c.header.messagesOffset c.header.count
    messagesTable = .ok c.messages
  slots : hashSlots c.header.order image c.header.hashOffset c.header.hashSize = .ok c.slots
  rule : c.rule = .ofHeader (c.lookup [])

theorem decode_eq_ok_iff {c : Catalog} : decode image = .ok c ↔ Decoded image c := by
  unfold decode
  simp only [bind_eq_ok_iff]
  constructor
  · intro h
    obtain ⟨header, hh, ids, hi, messages, hm, slots, hs, h⟩ := h
    obtain rfl := Except.ok.inj h
    exact ⟨rfl, hh, hi, hm, hs, rfl⟩
  · intro h
    obtain ⟨rfl, hh, hi, hm, hs, hr⟩ := h
    refine ⟨c.header, hh, c.ids, hi, c.messages, hm, c.slots, hs, ?_⟩
    obtain ⟨image, header, ids, messages, slots, rule⟩ := c
    dsimp only at hr ⊢
    rw [hr]
    rfl

namespace Decoded

variable {c : Catalog} (hd : Decoded image c)
include hd

theorem size_eq : c.size = c.header.count.toNat := by
  obtain ⟨-, h, -⟩ := descriptors_eq_ok_iff.mp hd.ids
  rw [size, h, Array.size_ofFn]

theorem size_slots {slots : Array UInt32} (h : c.slots = some slots) :
    slots.size = c.header.hashSize.toNat ∧ 2 < slots.size := by
  rcases hashSlots_eq_ok_iff.mp hd.slots with ⟨-, hn⟩ | ⟨hlt, -, hs⟩
  · rw [hn] at h
    cases h
  · rw [h] at hs
    have hsize : slots.size = c.header.hashSize.toNat := by
      rw [Option.some.inj hs, Array.size_ofFn]
    exact ⟨hsize, hsize ▸ UInt32.lt_iff_toNat_lt.mp hlt⟩

theorem size_slots_lt {slots : Array UInt32} (h : c.slots = some slots) :
    slots.size < UInt32.size := by
  rw [(hd.size_slots h).1]
  exact c.header.hashSize.toNat_lt

end Decoded

end MessageCatalog.Catalog
