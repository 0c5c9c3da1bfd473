import MessageCatalog.Proofs.Catalog.Rereading
import MessageCatalog.Proofs.Catalog.RoundTrip

/-!
An image cut short and an image with more bytes after it. The last string of a built image ends
where the image does, so no cut leaves a catalog; what is added after an image is never looked at.
-/
namespace MessageCatalog.Catalog

section Append

variable {image : ByteArray} {c : Catalog} (rest : ByteArray)

theorem data_append_getElem? {i : ℕ} (h : i < image.size) :
    (image ++ rest).data[i]? = image.data[i]? := by
  rw [ByteArray.data_append, Array.getElem?_append_left h]

theorem wordAt_append_left (order : ByteOrder) {offset : ℕ} (h : offset + 4 ≤ image.size) :
    order.wordAt (image ++ rest) offset = order.wordAt image offset := by
  have hsize : offset + 4 ≤ (image ++ rest).size := by
    rw [ByteArray.size_append]
    omega
  apply UInt32.toNat_inj.mp
  rw [ByteOrder.toNat_wordAt hsize, ByteOrder.toNat_wordAt h]
  exact numberAt_congr (fun i _ hi => data_append_getElem? rest (by omega)) order

theorem Decoded.rereads_append (hd : Decoded image c) (hmax : (image ++ rest).size ≤ maxSize) :
    Rereads c image (image ++ rest) c.header.order where
  size_le := by
    rw [ByteArray.size_append]
    exact Nat.le_add_right _ _
  size_le_max := hmax
  words r hr j hj := by
    have hstop : r.start + 4 * r.words ≤ image.size := hd.stop_le hr
    exact wordAt_append_left rest _ (by omega)
  strings d h := by
    have hstop := hd.stop_lt h
    exact slice_congr fun i _ hi => data_append_getElem? rest (by omega)

theorem decode_append (h : decode image = .ok c) (hmax : (image ++ rest).size ≤ maxSize) :
    decode (image ++ rest) = .ok (c.reread (image ++ rest) c.header.order) ∧
      c.Agrees (c.reread (image ++ rest) c.header.order) := by
  have hd := decode_eq_ok_iff.mp h
  have hr := hd.rereads_append rest hmax
  exact ⟨decode_reread hd hr, agrees_reread hd hr⟩

end Append

section Built

variable {entries : List (Bytes × Bytes)} {hashed : Bool} {order : ByteOrder}

section Last

variable {first : List (Bytes × Bytes)} {e : Bytes × Bytes} (hlast : entries = first ++ [e])
include hlast

theorem messages_concat : entries.map (·.2) = first.map (·.2) ++ e.2 :: [] := by
  rw [hlast, List.map_append]
  rfl

/-- The last string that is written is the message of the last entry, and the last byte is its
NUL. -/
theorem size_ofOrdered_concat : (Image.ofOrdered entries hashed order).size =
    Image.stringsOffset entries hashed + (pool (entries.map (·.1))).length +
      (pool (first.map (·.2))).length + e.2.length + 1 := by
  rw [Image.size_ofOrdered, messages_concat hlast, pool_append, pool_cons, pool_nil,
    List.length_append, List.length_append, List.length_singleton]
  omega

theorem readAt_ofOrdered_last (hsize : (Image.ofOrdered entries hashed order).size ≤ maxSize) :
    Descriptor.readAt order (Image.ofOrdered entries hashed order)
      ((Image.header entries hashed order).messagesOffset.toNat + 8 * first.length) =
        ⟨UInt32.ofNat e.2.length, UInt32.ofNat (Image.stringsOffset entries hashed +
          (pool (entries.map (·.1))).length + (pool (first.map (·.2))).length)⟩ := by
  have hread := readAt_tableImage order
    (Image.headerWords entries hashed order ++ Image.idWords entries hashed) (entries.map (·.2))
    (Image.slots entries hashed).toList
    (Image.stringsOffset entries hashed + (pool (entries.map (·.1))).length)
    (pool (entries.map (·.1)) ++ pool (entries.map (·.2))) (messages_concat hlast)
  rwa [← Image.ofOrdered_eq_tableImage, ← toNat_messagesOffset hsize, List.length_map] at hread

end Last

variable (hne : entries ≠ []) (hsize : (Image.ofOrdered entries hashed order).size ≤ maxSize)
include hne hsize

theorem exists_last_message {c : Catalog}
    (h : decode (Image.ofOrdered entries hashed order) = .ok c) :
    ∃ d ∈ c.messages, d.stop + 1 = (Image.ofOrdered entries hashed order).size := by
  obtain ⟨c', hc', hheader, -, -⟩ := decode_ofOrdered hsize hne
  obtain rfl : c' = c := Except.ok.inj (hc'.symm.trans h)
  have horder : c'.header.order = order := congrArg Header.order hheader
  obtain ⟨-, hmessages, -⟩ := descriptors_eq_ok_iff.mp (decode_eq_ok_iff.mp h).messages
  rw [horder, hheader] at hmessages
  obtain ⟨first, e, hlast⟩ := (List.eq_nil_or_concat' entries).resolve_left hne
  have hindex : first.length < (Image.header entries hashed order).count.toNat := by
    rw [(toNat_header hsize).1, hlast, List.length_append]
    exact Nat.lt_succ_self _
  have hread := readAt_ofOrdered_last hlast hsize
  have hend : (Image.ofOrdered entries hashed order).size = _ := size_ofOrdered_concat hlast
  have hmax : maxSize < UInt32.size := by decide
  refine ⟨_, hmessages ▸ Array.mem_ofFn.mpr ⟨⟨first.length, hindex⟩, hread⟩, ?_⟩
  rw [Descriptor.stop, UInt32.toNat_ofNat_of_lt' (by omega),
    UInt32.toNat_ofNat_of_lt' (by omega)]
  omega

theorem decode_extract_ne_ok {n : ℕ} (hn : n < (Image.ofOrdered entries hashed order).size)
    (c : Catalog) : decode ((Image.ofOrdered entries hashed order).extract 0 n) ≠ .ok c := by
  intro h
  let image := Image.ofOrdered entries hashed order
  have hjoin : image.extract 0 n ++ image.extract n image.size = image := by
    rw [ByteArray.extract_append_extract, Nat.zero_min, Nat.max_eq_right hn.le,
      ByteArray.extract_zero_size]
  -- Put together again, the image would have the messages of its first part.
  obtain ⟨hwhole, -⟩ := decode_append (image.extract n image.size) h (by rwa [hjoin])
  rw [hjoin] at hwhole
  obtain ⟨d, hd, hstop⟩ := exists_last_message hne hsize hwhole
  have hlt := (decode_eq_ok_iff.mp h).stop_lt (Or.inr hd)
  rw [ByteArray.size_extract] at hlt
  omega

end Built

/-- No part of a built image that lacks its end is a catalog, and any image that is one is the same
catalog with any bytes after it. -/
theorem decode_extract_append :
    (∀ (entries : List (Bytes × Bytes)) (hashed : Bool) (order : ByteOrder), entries ≠ [] →
      (Image.build entries hashed order).size ≤ maxSize →
        ∀ n < (Image.build entries hashed order).size,
          ∃ e, decode ((Image.build entries hashed order).extract 0 n) = .error e) ∧
      ∀ (image rest : ByteArray) (c : Catalog), decode image = .ok c →
        (image ++ rest).size ≤ maxSize → ∃ c', decode (image ++ rest) = .ok c' ∧
          c'.header = c.header ∧ c.Agrees c' := by
  constructor
  · intro entries hashed order hne hsize n hn
    have hne' : Image.sort entries ≠ [] := by
      rw [← List.length_pos_iff, (Image.sort_stablySorted entries).perm.length_eq]
      exact List.length_pos_iff.mpr hne
    have hrefused := decode_extract_ne_ok hne' hsize hn
    rw [← Image.build_eq_ofOrdered] at hrefused
    cases h : decode ((Image.build entries hashed order).extract 0 n) with
    | error e => exact ⟨e, rfl⟩
    | ok c => exact absurd h (hrefused c)
  · intro image rest c h hmax
    obtain ⟨hdecode, hagrees⟩ := decode_append rest h hmax
    exact ⟨_, hdecode, rfl, hagrees⟩

/-- The last byte is missed even where it is only the NUL after an entry. -/
theorem decode_extract_append_crowded :
    (twoForms ≠ [] ∧ (Image.build twoForms false .little).size ≤ maxSize ∧
      90 < (Image.build twoForms false .little).size ∧ decode crowdedImage = .ok crowded ∧
      (crowdedImage ++ ⟨#[0, 255]⟩).size ≤ maxSize) ∧
    (∃ e, decode ((Image.build twoForms false .little).extract 0 90) = .error e) ∧
      ∃ c', decode (crowdedImage ++ ⟨#[0, 255]⟩) = .ok c' ∧ c'.header = crowded.header ∧
        crowded.Agrees c' := by
  have hne : twoForms ≠ [] := List.cons_ne_nil _ _
  have hsize : (Image.build twoForms false .little).size = 91 := Image.size_build _ _ _
  have hmax : (Image.build twoForms false .little).size ≤ maxSize := hsize ▸ by decide
  have hlast : 90 < (Image.build twoForms false .little).size := hsize ▸ by decide
  have hmore : (crowdedImage ++ ⟨#[0, 255]⟩).size ≤ maxSize := by decide +kernel
  obtain ⟨hcut, hextended⟩ := decode_extract_append
  exact ⟨⟨hne, hmax, hlast, decode_crowdedImage, hmore⟩,
    hcut twoForms false .little hne hmax 90 hlast, hextended _ _ _ decode_crowdedImage hmore⟩

end MessageCatalog.Catalog
