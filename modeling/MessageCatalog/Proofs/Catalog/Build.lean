import MessageCatalog.Proofs.Catalog.Layout

/-! Decoding a built image gives the catalog of the entries that it was built from. -/
namespace MessageCatalog.Catalog

theorem order?_written (order : ByteOrder) (words : List UInt32) (tail : Bytes) :
    Header.order? ((signature :: words).flatMap order.bytes ++ tail).toByteArray = .ok order := by
  have hsize : 4 ≤ ((signature :: words).flatMap order.bytes ++ tail).toByteArray.size := by simp
  exact (order?_eq_ok_iff hsize order).mpr
    (ByteOrder.wordAt_flatMap_bytes order (i := 0) tail rfl)

theorem ofImage_written {image : ByteArray} (header : Header) (words : List UInt32) (tail : Bytes)
    (himage : image = ((signature :: header.revision :: header.count :: header.idsOffset ::
      header.messagesOffset :: header.hashSize :: header.hashOffset :: words).flatMap
        header.order.bytes ++ tail).toByteArray)
    (hmin : minSize ≤ image.size) (hmax : image.size ≤ maxSize) (hcheck : header.check = .ok ()) :
    Header.ofImage image = .ok header := by
  have horder : Header.order? image = .ok header.order := by
    rw [himage]
    exact order?_written _ _ _
  have hword : ∀ {i : ℕ} {w : UInt32}, (signature :: header.revision :: header.count ::
      header.idsOffset :: header.messagesOffset :: header.hashSize :: header.hashOffset ::
        words)[i]? = some w → 4 * i + 4 ≤ image.size → header.order.word? image (4 * i) = some w := by
    intro i w hw hi
    rw [ByteOrder.word?_eq_some hi, himage, ByteOrder.wordAt_flatMap_bytes _ _ hw]
  have hread : Header.read? header.order image = some header := by
    have h : 32 ≤ image.size := hmin
    rw [Header.read?, hword (i := 1) rfl (by omega), hword (i := 2) rfl (by omega),
      hword (i := 3) rfl (by omega), hword (i := 4) rfl (by omega), hword (i := 5) rfl (by omega),
      hword (i := 6) rfl (by omega)]
    rfl
  unfold Header.ofImage
  rw [if_neg (Nat.not_lt.mpr hmin), if_neg (Nat.not_lt.mpr hmax)]
  simp only [horder, hread, hcheck, bind, Except.bind, pure, Except.pure]

namespace Image

variable (entries : List (Bytes × Bytes)) (hashed : Bool) (order : ByteOrder)

def slots : Array UInt32 := if hashed then buildSlots (entries.map (·.1)) else #[]

def header : Header where
  order
  revision := 0
  count := UInt32.ofNat entries.length
  idsOffset := UInt32.ofNat headerSize
  messagesOffset := UInt32.ofNat (headerSize + 8 * entries.length)
  hashSize := UInt32.ofNat (slots entries hashed).size
  hashOffset := UInt32.ofNat (headerSize + 8 * entries.length + 8 * entries.length)

/-- The image of entries that are in order already. -/
def ofOrdered : ByteArray :=
  ((words entries hashed).flatMap order.bytes ++
    pool (entries.map (·.1)) ++ pool (entries.map (·.2))).toByteArray

def headerWords : List UInt32 :=
  [signature, (header entries hashed order).revision, (header entries hashed order).count,
    (header entries hashed order).idsOffset, (header entries hashed order).messagesOffset,
    (header entries hashed order).hashSize, (header entries hashed order).hashOffset]

def stringsOffset : ℕ :=
  headerSize + 8 * entries.length + 8 * entries.length + 4 * (slots entries hashed).size

def idWords : List UInt32 :=
  (describe (stringsOffset entries hashed) (entries.map (·.1))).map UInt32.ofNat

def messageWords : List UInt32 :=
  (describe (stringsOffset entries hashed + (pool (entries.map (·.1))).length)
    (entries.map (·.2))).map UInt32.ofNat

theorem words_eq : words entries hashed = headerWords entries hashed order ++
    idWords entries hashed ++ messageWords entries hashed ++ (slots entries hashed).toList :=
  rfl

theorem build_eq_ofOrdered : build entries hashed order = ofOrdered (sort entries) hashed order :=
  rfl

theorem ofOrdered_eq_tableImage : ofOrdered entries hashed order =
    tableImage order (headerWords entries hashed order ++ idWords entries hashed)
      (entries.map (·.2)) (slots entries hashed).toList
      (stringsOffset entries hashed + (pool (entries.map (·.1))).length)
      (pool (entries.map (·.1)) ++ pool (entries.map (·.2))) := by
  rw [ofOrdered, words_eq entries hashed order, tableImage, List.append_assoc]
  rfl

theorem length_idWords : (idWords entries hashed).length = 2 * entries.length := by
  rw [idWords, List.length_map, length_describe, List.length_map]

theorem length_messageWords : (messageWords entries hashed).length = 2 * entries.length := by
  rw [messageWords, List.length_map, length_describe, List.length_map]

theorem length_flatMap_words :
    ((words entries hashed).flatMap order.bytes).length = stringsOffset entries hashed := by
  rw [ByteOrder.length_flatMap_bytes, words_eq entries hashed order, List.length_append,
    List.length_append, List.length_append, length_idWords, length_messageWords,
    stringsOffset]
  change 4 * (7 + _ + _ + (slots entries hashed).size) = 28 + _ + _ + _
  omega

theorem size_ofOrdered : (ofOrdered entries hashed order).size =
    stringsOffset entries hashed + (pool (entries.map (·.1))).length +
      (pool (entries.map (·.2))).length := by
  rw [ofOrdered, List.size_toByteArray, List.length_append, List.length_append,
    length_flatMap_words]

theorem length_pool (strings : List Bytes) :
    (pool strings).length = (strings.map fun s => s.length + 1).sum := by
  rw [pool, List.length_flatMap]
  simp

theorem size_slots : (slots entries hashed).size =
    if hashed then tableSize entries.length else 0 := by
  rw [slots]
  split_ifs
  · rw [size_buildSlots, List.length_map]
  · rfl

/-- The size of an image does not depend on the order in which its entries are given. -/
theorem size_build : (build entries hashed order).size =
    headerSize + 16 * entries.length + 4 * (if hashed then tableSize entries.length else 0) +
      (entries.map fun e => e.1.length + 1).sum + (entries.map fun e => e.2.length + 1).sum := by
  have hperm : (sort entries).Perm entries := List.mergeSort_perm _ _
  rw [build_eq_ofOrdered, size_ofOrdered, length_pool, length_pool, List.map_map, List.map_map,
    (hperm.map _).sum_nat, (hperm.map _).sum_nat, stringsOffset, size_slots, hperm.length_eq]
  simp only [Function.comp_def]
  omega

end Image

/-- A catalog that holds the given entries, in the given order. -/
structure Presents (c : Catalog) (entries : List (Bytes × Bytes)) : Prop where
  size_eq : c.size = entries.length
  id?_eq : ∀ i : ℕ, c.id? i = entries[i]?.map (·.1)
  message?_eq : ∀ i : ℕ, c.message? i = entries[i]?.map (·.2)

section Decode

variable {entries : List (Bytes × Bytes)} {hashed : Bool} {order : ByteOrder}
  (hsize : (Image.ofOrdered entries hashed order).size ≤ maxSize)
include hsize

theorem stringsOffset_lt : Image.stringsOffset entries hashed < UInt32.size := by
  rw [Image.size_ofOrdered] at hsize
  have hmax : maxSize < UInt32.size := by decide
  omega

theorem toNat_header :
    (Image.header entries hashed order).count.toNat = entries.length ∧
      (Image.header entries hashed order).idsOffset.toNat = headerSize ∧
      (Image.header entries hashed order).messagesOffset.toNat =
        headerSize + 8 * entries.length ∧
      (Image.header entries hashed order).hashSize.toNat = (Image.slots entries hashed).size ∧
      (Image.header entries hashed order).hashOffset.toNat =
        headerSize + 8 * entries.length + 8 * entries.length := by
  have hlt := stringsOffset_lt hsize
  rw [Image.stringsOffset] at hlt
  refine ⟨?_, rfl, ?_, ?_, ?_⟩ <;> exact UInt32.toNat_ofNat_of_lt' (by omega)

theorem check_header (hne : entries ≠ []) :
    (Image.header entries hashed order).check = .ok () := by
  obtain ⟨hcount, hids, hmessages, -, hhash⟩ := toNat_header hsize
  have hlen := List.length_pos_iff.mpr hne
  have hpos : (Image.header entries hashed order).count ≠ 0 := by
    intro h
    rw [h] at hcount
    exact hlen.ne hcount
  rw [Header.check, if_neg hpos, hids, if_neg (Nat.lt_irrefl _), hmessages, if_neg (by omega),
    hhash, if_neg (by omega)]

theorem exists_ids : ∃ ds : Array Descriptor,
    descriptors order (Image.ofOrdered entries hashed order)
      (Image.header entries hashed order).idsOffset (Image.header entries hashed order).count
        idsTable = .ok ds ∧
      ds.size = (entries.map (·.1)).length ∧
      ∀ i : ℕ, ds[i]?.map (Descriptor.slice (Image.ofOrdered entries hashed order)) =
        (entries.map (·.1))[i]? := by
  obtain ⟨hcount, hids, -, -, -⟩ := toNat_header hsize
  have htable : Image.ofOrdered entries hashed order =
      tableImage order (Image.headerWords entries hashed order) (entries.map (·.1))
        (Image.messageWords entries hashed ++ (Image.slots entries hashed).toList)
        (Image.stringsOffset entries hashed)
        (pool (entries.map (·.1)) ++ pool (entries.map (·.2))) := by
    rw [Image.ofOrdered, Image.words_eq entries hashed order, tableImage, List.append_assoc]
    simp only [List.append_assoc, Image.idWords]
  refine descriptors_tableImage order _ _ _ _ htable rfl
    (Image.length_flatMap_words entries hashed order) ?_ hids ?_
  · exact hsize.trans_lt (by decide)
  · rw [hcount, List.length_map]

theorem toNat_messagesOffset : (Image.header entries hashed order).messagesOffset.toNat =
    4 * (Image.headerWords entries hashed order ++ Image.idWords entries hashed).length := by
  obtain ⟨-, -, hmessages, -, -⟩ := toNat_header hsize
  rw [hmessages, List.length_append, Image.length_idWords]
  change 28 + _ = 4 * (7 + _)
  omega

theorem exists_messages : ∃ ds : Array Descriptor,
    descriptors order (Image.ofOrdered entries hashed order)
      (Image.header entries hashed order).messagesOffset (Image.header entries hashed order).count
        messagesTable = .ok ds ∧
      ds.size = (entries.map (·.2)).length ∧
      ∀ i : ℕ, ds[i]?.map (Descriptor.slice (Image.ofOrdered entries hashed order)) =
        (entries.map (·.2))[i]? := by
  obtain ⟨hcount, -, -, -, -⟩ := toNat_header hsize
  have hstrings : Image.ofOrdered entries hashed order =
      (((Image.words entries hashed).flatMap order.bytes ++ pool (entries.map Prod.fst)) ++
        pool (entries.map Prod.snd) ++ []).toByteArray := by
    rw [List.append_nil]
    rfl
  refine descriptors_tableImage order _ _ _ _ (Image.ofOrdered_eq_tableImage entries hashed order)
    hstrings ?_ ?_ (toNat_messagesOffset hsize) ?_
  · rw [List.length_append, Image.length_flatMap_words]
  · exact hsize.trans_lt (by decide)
  · rw [hcount, List.length_map]

theorem hashSlots_ofOrdered :
    hashSlots order (Image.ofOrdered entries hashed order)
      (Image.header entries hashed order).hashOffset (Image.header entries hashed order).hashSize =
        .ok (if hashed then some (Image.slots entries hashed) else none) := by
  obtain ⟨-, -, -, hhashSize, hhash⟩ := toNat_header hsize
  cases hashed with
  | false => rfl
  | true =>
    have himage : Image.ofOrdered entries true order =
        (((Image.headerWords entries true order ++ Image.idWords entries true ++
          Image.messageWords entries true) ++ (Image.slots entries true).toList).flatMap
            order.bytes ++
          (pool (entries.map (·.1)) ++ pool (entries.map (·.2)))).toByteArray := by
      rw [Image.ofOrdered, Image.words_eq entries true order, List.append_assoc]
    refine hashSlots_words order _ himage ?_ hhashSize ?_
    · rw [hhash, List.length_append, List.length_append, Image.length_idWords,
        Image.length_messageWords]
      change 28 + _ + _ = 4 * (7 + _ + _)
      omega
    · change 2 < (buildSlots (entries.map (·.1))).size
      rw [size_buildSlots]
      exact two_lt_tableSize _

/-- Every part of a decoded image is what was written into it. -/
theorem decode_ofOrdered (hne : entries ≠ []) :
    ∃ c, decode (Image.ofOrdered entries hashed order) = .ok c ∧
      c.header = Image.header entries hashed order ∧ c.Presents entries ∧
      c.slots = if hashed then some (Image.slots entries hashed) else none := by
  obtain ⟨ids, hids, hidsSize, hidsGet⟩ := exists_ids hsize
  obtain ⟨messages, hmessages, -, hmessagesGet⟩ := exists_messages hsize
  have hmin : minSize ≤ (Image.ofOrdered entries hashed order).size := by
    have hlen := List.length_pos_iff.mpr hne
    rw [Image.size_ofOrdered, Image.stringsOffset]
    change 32 ≤ 28 + _ + _ + _ + _ + _
    omega
  have hhead : Header.ofImage (Image.ofOrdered entries hashed order) =
      .ok (Image.header entries hashed order) := by
    refine ofImage_written _ (Image.idWords entries hashed ++ Image.messageWords entries hashed ++
      (Image.slots entries hashed).toList) (pool (entries.map (·.1)) ++ pool (entries.map (·.2)))
      ?_ hmin hsize (check_header hsize hne)
    rw [Image.ofOrdered, List.append_assoc]
    rfl
  let c : Catalog :=
    { image := Image.ofOrdered entries hashed order
      header := Image.header entries hashed order
      ids
      messages
      slots := if hashed then some (Image.slots entries hashed) else none
      rule := .undeclared }
  refine ⟨{ c with rule := .ofHeader (c.lookup []) },
    decode_eq_ok_iff.mpr ⟨rfl, hhead, hids, hmessages, hashSlots_ofOrdered hsize, rfl⟩,
    rfl, ?_, rfl⟩
  refine ⟨hidsSize.trans (List.length_map _), fun i => ?_, fun i => ?_⟩
  · exact (hidsGet i).trans List.getElem?_map
  · exact (hmessagesGet i).trans List.getElem?_map

end Decode

end MessageCatalog.Catalog
