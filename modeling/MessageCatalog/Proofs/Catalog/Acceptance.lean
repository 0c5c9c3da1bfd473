import MessageCatalog.Proofs.ByteOrder
import MessageCatalog.Proofs.Catalog.Decoding

/-!
Which images are catalogs, and why the others are refused. Decoding checks one condition after
another, and the first that an image does not meet is the error.
-/
namespace MessageCatalog.Catalog

/-- A condition on an image, and why an image that does not meet it is refused. -/
structure Condition where
  holds : Prop
  error : Error

/-- The first condition that does not hold is the error of an outcome, and it is a success where
all hold. -/
def Settled {α : Type} (r : Except Error α) : List Condition → Prop
  | [] => ∃ a, r = .ok a
  | q :: rest => (q.holds → Settled r rest) ∧ (¬q.holds → r = .error q.error)

namespace Settled

variable {α β : Type} {r : Except Error α} {qs rest : List Condition}

theorem ok_iff (h : Settled r qs) : (∃ a, r = .ok a) ↔ ∀ q ∈ qs, q.holds := by
  induction qs with
  | nil => simpa [Settled] using h
  | cons q qs ih =>
    obtain ⟨hyes, hno⟩ := h
    rw [List.forall_mem_cons]
    by_cases hq : q.holds
    · rw [ih (hyes hq)]
      simp [hq]
    · rw [hno hq]
      simp [hq]

theorem error_eq {before after : List Condition} {q : Condition}
    (h : Settled r (before ++ q :: after)) (hbefore : ∀ p ∈ before, p.holds) (hq : ¬q.holds) :
    r = .error q.error := by
  induction before with
  | nil => exact h.2 hq
  | cons p before ih =>
    rw [List.forall_mem_cons] at hbefore
    exact ih (h.1 hbefore.1) hbefore.2

/-- The conditions on the way to an intermediate result come first. -/
theorem bind {x : Except Error β} {f : β → Except Error α} (hx : Settled x qs)
    (hf : ∀ b, x = .ok b → Settled (f b) rest) : Settled (x >>= f) (qs ++ rest) := by
  induction qs with
  | nil =>
    obtain ⟨b, rfl⟩ := hx
    exact hf b rfl
  | cons q qs ih =>
    refine ⟨fun hq => ih (hx.1 hq), fun hq => ?_⟩
    rw [hx.2 hq]
    rfl

theorem bind_ok {x : Except Error β} {f : β → Except Error α} (hx : Settled x qs)
    (hf : ∀ b, ∃ a, f b = .ok a) : Settled (x >>= f) qs := by
  have h : Settled (x >>= f) (qs ++ []) := hx.bind fun b _ => hf b
  rwa [List.append_nil] at h

theorem guard {p : Prop} [Decidable p] {q : Condition} (hp : p ↔ ¬q.holds)
    (h : q.holds → Settled r rest) : Settled (if p then .error q.error else r) (q :: rest) := by
  constructor
  · intro hq
    rw [if_neg fun hn => hp.mp hn hq]
    exact h hq
  · intro hq
    rw [if_pos (hp.mpr hq)]

/-- The same conditions refuse for the same reason. -/
theorem error_iff {r' : Except Error α} (h : Settled r qs) (h' : Settled r' qs) (e : Error) :
    r = .error e ↔ r' = .error e := by
  induction qs with
  | nil =>
    obtain ⟨a, rfl⟩ := h
    obtain ⟨a', rfl⟩ := h'
    simp
  | cons q qs ih =>
    by_cases hq : q.holds
    · exact ih (h.1 hq) (h'.1 hq)
    · rw [h.2 hq, h'.2 hq]

theorem exists_error {e : Error} (h : Settled r qs) (hr : r = .error e) :
    ∃ q ∈ qs, q.error = e := by
  induction qs with
  | nil =>
    obtain ⟨a, rfl⟩ := h
    cases hr
  | cons q qs ih =>
    by_cases hq : q.holds
    · obtain ⟨q', hq', he⟩ := ih (h.1 hq)
      exact ⟨q', List.mem_cons_of_mem _ hq', he⟩
    · rw [h.2 hq] at hr
      exact ⟨q, List.mem_cons_self, Except.error.inj hr⟩

end Settled

section Conditions

variable (order : ByteOrder) (image : ByteArray)

def sizeConditions : List Condition :=
  [⟨32 ≤ image.size, .tooSmall image.size⟩, ⟨image.size ≤ 16 * 1024 * 1024, .tooLarge image.size⟩]

def signatureCondition : Condition where
  holds := ByteOrder.little.numberAt image 0 = 0x950412de ∨
    ByteOrder.big.numberAt image 0 = 0x950412de
  error := .badSignature (UInt32.ofNat (ByteOrder.big.numberAt image 0))

/-- There are strings, and no table starts in the header. -/
def headerConditions : List Condition :=
  [⟨order.numberAt image 8 ≠ 0, .outOfBounds "empty string table"⟩,
    ⟨28 ≤ order.numberAt image 12, .outOfBounds "original string table"⟩,
    ⟨28 ≤ order.numberAt image 16, .outOfBounds "translated string table"⟩,
    ⟨2 < order.numberAt image 20 → 28 ≤ order.numberAt image 24, .outOfBounds "hash table"⟩]

/-- The table lies in the image, and so does each of its strings with one byte after it. -/
def tableConditions (offset count : ℕ) (table : String) : List Condition :=
  [⟨offset + 8 * count ≤ image.size, .outOfBounds table⟩,
    ⟨∀ i < count, order.numberAt image (offset + 8 * i + 4) +
      order.numberAt image (offset + 8 * i) < image.size, .outOfBounds table⟩]

def hashConditions : List Condition :=
  [⟨2 < order.numberAt image 20 →
      order.numberAt image 24 + 4 * order.numberAt image 20 ≤ image.size,
    .outOfBounds "hash table"⟩]

/-- The order in which the first bytes spell the signature. -/
def signedOrder : ByteOrder :=
  if ByteOrder.little.numberAt image 0 = 0x950412de then .little else .big

/-- What an image has to meet to be a catalog, in the order in which it is checked. -/
def conditions : List Condition :=
  let order := signedOrder image
  sizeConditions image ++ signatureCondition image :: headerConditions order image ++
    tableConditions order image (order.numberAt image 12) (order.numberAt image 8)
      "original string table" ++
    tableConditions order image (order.numberAt image 16) (order.numberAt image 8)
      "translated string table" ++
    hashConditions order image

end Conditions

variable {order : ByteOrder} {image : ByteArray}

def Header.ofWords (order : ByteOrder) (image : ByteArray) : Header :=
  ⟨order, order.wordAt image 4, order.wordAt image 8, order.wordAt image 12,
    order.wordAt image 16, order.wordAt image 20, order.wordAt image 24⟩

theorem read?_eq_some (h : 28 ≤ image.size) :
    Header.read? order image = some (.ofWords order image) := by
  unfold Header.read?
  rw [ByteOrder.word?_eq_some (by omega), ByteOrder.word?_eq_some (by omega),
    ByteOrder.word?_eq_some (by omega), ByteOrder.word?_eq_some (by omega),
    ByteOrder.word?_eq_some (by omega), ByteOrder.word?_eq_some (by omega)]
  rfl

theorem ofImage_eq (image : ByteArray) : Header.ofImage image =
    if image.size < minSize then .error (.tooSmall image.size)
    else if maxSize < image.size then .error (.tooLarge image.size)
    else Header.order? image >>= fun order =>
      (Header.ofWords order image).check >>= fun _ => .ok (.ofWords order image) := by
  unfold Header.ofImage
  by_cases hmin : image.size < minSize
  · rw [if_pos hmin, if_pos hmin]
    rfl
  by_cases hmax : maxSize < image.size
  · rw [if_neg hmin, if_neg hmin, if_pos hmax, if_pos hmax]
    rfl
  have hsize : 28 ≤ image.size := by
    have h32 : minSize = 32 := rfl
    omega
  rw [if_neg hmin, if_neg hmin, if_neg hmax, if_neg hmax]
  dsimp only
  congr 1
  funext order
  rw [read?_eq_some hsize]
  rfl

theorem wordAt_eq_signature_iff (order : ByteOrder) (h : 4 ≤ image.size) :
    order.wordAt image 0 = signature ↔ order.numberAt image 0 = 0x950412de := by
  rw [← UInt32.toNat_inj, ByteOrder.toNat_wordAt (by omega)]
  rfl

theorem order?_eq (h : 4 ≤ image.size) : Header.order? image =
    if ¬(ByteOrder.little.numberAt image 0 = 0x950412de ∨
      ByteOrder.big.numberAt image 0 = 0x950412de) then .error (signatureCondition image).error
    else .ok (signedOrder image) := by
  have hword : UInt32.ofNat (ByteOrder.big.numberAt image 0) = ByteOrder.big.wordAt image 0 := by
    rw [← ByteOrder.toNat_wordAt (by omega), UInt32.ofNat_toNat]
  unfold Header.order? signedOrder signatureCondition
  rw [hword]
  simp only [wordAt_eq_signature_iff _ h]
  by_cases hl : ByteOrder.little.numberAt image 0 = 0x950412de
  · simp [hl]
  · by_cases hb : ByteOrder.big.numberAt image 0 = 0x950412de <;> simp [hl, hb]

theorem settled_check (h : 28 ≤ image.size) :
    Settled (Header.ofWords order image).check (headerConditions order image) := by
  have hnumber : ∀ k, k ≤ 24 → (order.wordAt image k).toNat = order.numberAt image k :=
    fun k hk => ByteOrder.toNat_wordAt (by omega)
  have hcount : order.wordAt image 8 = 0 ↔ order.numberAt image 8 = 0 := by
    rw [← hnumber 8 (by decide), ← UInt32.toNat_inj]
    rfl
  have hhash : noHashTable < order.wordAt image 20 ↔ 2 < order.numberAt image 20 := by
    rw [← hnumber 20 (by decide), UInt32.lt_iff_toNat_lt]
    rfl
  unfold Header.check Header.ofWords headerConditions
  dsimp only
  rw [hnumber 12 (by decide), hnumber 16 (by decide), hnumber 24 (by decide)]
  apply Settled.guard (by simp [hcount])
  intro _
  apply Settled.guard (by simp [headerSize])
  intro _
  apply Settled.guard (by simp [headerSize])
  intro _
  apply Settled.guard (by simp [headerSize, hhash])
  intro _
  exact ⟨(), rfl⟩

theorem settled_ofImage (image : ByteArray) :
    Settled (Header.ofImage image)
      (sizeConditions image ++
        signatureCondition image :: headerConditions (signedOrder image) image) := by
  rw [ofImage_eq]
  apply Settled.guard (by simp [minSize])
  intro hmin
  apply Settled.guard (by simp [maxSize])
  intro _
  have h32 : 32 ≤ image.size := hmin
  have horder : Settled (Header.order? image) [signatureCondition image] := by
    rw [order?_eq (by omega)]
    exact Settled.guard Iff.rfl fun _ => ⟨_, rfl⟩
  apply horder.bind
  intro order ho
  rw [order?_eq (by omega)] at ho
  split_ifs at ho
  obtain rfl := Except.ok.inj ho
  exact (settled_check (by omega)).bind_ok fun _ => ⟨_, rfl⟩

theorem ofImage_eq_ok {header : Header} (h : Header.ofImage image = .ok header) :
    32 ≤ image.size ∧ header = .ofWords (signedOrder image) image := by
  rw [ofImage_eq] at h
  by_cases hmin : image.size < minSize
  · rw [if_pos hmin] at h
    cases h
  have h32 : 32 ≤ image.size := Nat.le_of_not_lt hmin
  by_cases hmax : maxSize < image.size
  · rw [if_neg hmin, if_pos hmax] at h
    cases h
  rw [if_neg hmin, if_neg hmax, order?_eq (by omega), bind_eq_ok_iff] at h
  obtain ⟨order, ho, h⟩ := h
  split_ifs at ho
  obtain rfl := Except.ok.inj ho
  obtain ⟨-, -, h⟩ := bind_eq_ok_iff.mp h
  exact ⟨h32, (Except.ok.inj h).symm⟩

theorem settled_descriptors (order : ByteOrder) (image : ByteArray) (offset count : UInt32)
    (table : String) :
    Settled (descriptors order image offset count table)
      (tableConditions order image offset.toNat count.toNat table) := by
  unfold descriptors tableConditions
  by_cases hb : offset.toNat + 8 * count.toNat ≤ image.size
  · have hall : (Array.ofFn (n := count.toNat) fun i =>
          Descriptor.readAt order image (offset.toNat + 8 * i)).all (·.stop < image.size) = true ↔
        ∀ i < count.toNat, order.numberAt image (offset.toNat + 8 * i + 4) +
          order.numberAt image (offset.toNat + 8 * i) < image.size := by
      rw [Array.all_eq_true]
      simp only [Array.size_ofFn, Array.getElem_ofFn, decide_eq_true_eq]
      apply forall₂_congr
      intro i hi
      rw [← ByteOrder.toNat_wordAt (by omega), ← ByteOrder.toNat_wordAt (by omega)]
      rfl
    refine ⟨fun _ => ⟨fun h => ?_, fun h => ?_⟩, fun h => absurd hb h⟩
    · rw [if_pos hb, if_pos (hall.mpr h)]
      exact ⟨_, rfl⟩
    · rw [if_pos hb, if_neg (mt hall.mp h)]
  · exact ⟨fun h => absurd h hb, fun _ => if_neg hb⟩

theorem settled_hashSlots (h : 28 ≤ image.size) :
    Settled (hashSlots order image (order.wordAt image 24) (order.wordAt image 20))
      (hashConditions order image) := by
  have hsize : (order.wordAt image 20).toNat = order.numberAt image 20 :=
    ByteOrder.toNat_wordAt (by omega)
  have hsmall : order.wordAt image 20 ≤ noHashTable ↔ ¬2 < order.numberAt image 20 := by
    rw [UInt32.le_iff_toNat_le, hsize]
    exact Nat.not_lt.symm
  unfold hashSlots hashConditions
  rw [hsize, ByteOrder.toNat_wordAt (by omega)]
  simp only [hsmall]
  constructor
  · intro hq
    by_cases h2 : 2 < order.numberAt image 20
    · rw [if_neg (not_not.mpr h2), if_pos (hq h2)]
      exact ⟨_, rfl⟩
    · rw [if_pos h2]
      exact ⟨_, rfl⟩
  · intro hq
    obtain ⟨h2, hb⟩ := Classical.not_imp.mp hq
    rw [if_neg (not_not.mpr h2), if_neg hb]
    rfl

theorem settled_decode (image : ByteArray) : Settled (decode image) (conditions image) := by
  unfold decode conditions
  dsimp only
  rw [List.append_assoc, List.append_assoc]
  apply (settled_ofImage image).bind
  intro header hheader
  obtain ⟨h32, rfl⟩ := ofImage_eq_ok hheader
  -- The tables are described by words, the conditions by the numbers that these spell.
  have hnumber : ∀ k, k ≤ 24 → ((signedOrder image).wordAt image k).toNat =
      (signedOrder image).numberAt image k := fun k hk => ByteOrder.toNat_wordAt (by omega)
  rw [← hnumber 8 (by decide), ← hnumber 12 (by decide), ← hnumber 16 (by decide)]
  apply (settled_descriptors _ image _ _ _).bind
  intro ids _
  apply (settled_descriptors _ image _ _ _).bind
  intro messages _
  exact (settled_hashSlots (by omega)).bind_ok fun _ => ⟨_, rfl⟩

/-- The places of the header and of the two string tables. -/
def Decisive (image : ByteArray) (i : ℕ) : Prop :=
  let order := signedOrder image
  i < 28 ∨ ∃ offset ∈ [order.numberAt image 12, order.numberAt image 16],
    offset ≤ i ∧ i < offset + 8 * order.numberAt image 8

theorem numberAt_congr {other : ByteArray} {k : ℕ}
    (h : ∀ i, k ≤ i → i < k + 4 → other.data[i]? = image.data[i]?) (order : ByteOrder) :
    order.numberAt other k = order.numberAt image k := by
  have hbytes : (other.data.toList.drop k).take 4 = (image.data.toList.drop k).take 4 :=
    take_drop_congr (by simpa using h)
  rw [ByteOrder.numberAt, hbytes, ByteOrder.numberAt]

theorem tableConditions_congr {other : ByteArray} {offset count : ℕ}
    (hsize : other.size = image.size)
    (h : ∀ i, offset ≤ i → i < offset + 8 * count → other.data[i]? = image.data[i]?)
    (order : ByteOrder) (table : String) :
    tableConditions order other offset count table =
      tableConditions order image offset count table := by
  have hstrings : (∀ i < count, order.numberAt other (offset + 8 * i + 4) +
        order.numberAt other (offset + 8 * i) < other.size) ↔
      ∀ i < count, order.numberAt image (offset + 8 * i + 4) +
        order.numberAt image (offset + 8 * i) < image.size := by
    apply forall₂_congr
    intro i hi
    rw [hsize, numberAt_congr fun j hj hj' => h j (by omega) (by omega),
      numberAt_congr fun j hj hj' => h j (by omega) (by omega)]
  unfold tableConditions
  rw [propext hstrings, hsize]

theorem conditions_congr {other : ByteArray} (hsize : other.size = image.size)
    (h : ∀ i, Decisive image i → other.data[i]? = image.data[i]?) :
    conditions other = conditions image := by
  have hnumber : ∀ (order : ByteOrder) (k : ℕ), k ≤ 24 →
      order.numberAt other k = order.numberAt image k := fun order k hk =>
    numberAt_congr (fun i _ hi => h i (Or.inl (by omega))) order
  have horder : signedOrder other = signedOrder image := by
    rw [signedOrder, hnumber _ 0 (by decide), signedOrder]
  have hids := tableConditions_congr hsize
    (fun i hi hi' => h i (Or.inr ⟨_, List.mem_cons_self, hi, hi'⟩)) (signedOrder image)
    "original string table"
  have hmessages := tableConditions_congr hsize
    (fun i hi hi' => h i (Or.inr ⟨_, List.mem_cons_of_mem _ List.mem_cons_self, hi, hi'⟩))
    (signedOrder image) "translated string table"
  unfold conditions sizeConditions signatureCondition headerConditions hashConditions
  dsimp only
  rw [horder, hsize, hnumber _ 0 (by decide), hnumber _ 0 (by decide), hnumber _ 8 (by decide),
    hnumber _ 12 (by decide), hnumber _ 16 (by decide), hnumber _ 20 (by decide),
    hnumber _ 24 (by decide), hids, hmessages]

/-- Where a table ends, in 64-bit arithmetic. -/
def extent (width : UInt64) (offset count : UInt32) : UInt64 :=
  offset.toUInt64 + width * count.toUInt64

theorem toNat_extent {width : UInt64} (hw : width.toNat ≤ 8) (offset count : UInt32) :
    (extent width offset count).toNat = offset.toNat + width.toNat * count.toNat := by
  have ho := offset.toNat_lt
  have hc := count.toNat_lt
  have hmul : width.toNat * count.toNat ≤ 8 * count.toNat := Nat.mul_le_mul_right _ hw
  rw [extent, UInt64.toNat_add, UInt64.toNat_mul, UInt32.toNat_toUInt64, UInt32.toNat_toUInt64,
    Nat.mod_eq_of_lt (by omega), Nat.mod_eq_of_lt (by omega)]

theorem error_ne_header {q : Condition} (h : q ∈ conditions image) :
    q.error ≠ .outOfBounds "header" := by
  have herror : q.error ∈ (conditions image).map (·.error) := List.mem_map_of_mem h
  intro he
  rw [he] at herror
  simp [conditions, sizeConditions, signatureCondition, headerConditions, tableConditions,
    hashConditions] at herror

/-- An image is a catalog when it meets all conditions, and otherwise the first that it does not
meet is the reason; no header is cut short, what the strings say never matters, and no end of a
table or of a string is lost in 64-bit arithmetic. -/
theorem decode_settled (image : ByteArray) :
    ((∃ c, decode image = .ok c) ↔ ∀ q ∈ conditions image, q.holds) ∧
      (∀ before q after, conditions image = before ++ q :: after → (∀ p ∈ before, p.holds) →
        ¬q.holds → decode image = .error q.error) ∧
      decode image ≠ .error (.outOfBounds "header") ∧
      (∀ other : ByteArray, other.size = image.size →
        (∀ i, Decisive image i → other.data[i]? = image.data[i]?) →
          ∀ e, decode other = .error e ↔ decode image = .error e) ∧
      ∀ offset count : UInt32,
        (extent 8 offset count).toNat = offset.toNat + 8 * count.toNat ∧
        (extent 4 offset count).toNat = offset.toNat + 4 * count.toNat ∧
        (extent 1 offset count).toNat = (⟨count, offset⟩ : Descriptor).stop := by
  have hs := settled_decode image
  refine ⟨hs.ok_iff, ?_, ?_, ?_, ?_⟩
  · intro before q after hsplit hbefore hq
    rw [hsplit] at hs
    exact hs.error_eq hbefore hq
  · intro he
    obtain ⟨q, hq, herror⟩ := hs.exists_error he
    exact error_ne_header hq herror
  · intro other hsize hbytes e
    have hother := settled_decode other
    rw [conditions_congr hsize hbytes] at hother
    exact hother.error_iff hs e
  · intro offset count
    refine ⟨toNat_extent (by decide) _ _, toNat_extent (by decide) _ _, ?_⟩
    rw [toNat_extent (by decide), Descriptor.stop]
    exact congrArg _ (Nat.one_mul _)

/-- An image of nothing but a header with two faults: the message table and the hash table start
inside the header. -/
def misplacedImage : ByteArray :=
  (([signature, 0, 1, 28, 20, 3, 0, 0] : List UInt32).flatMap ByteOrder.big.bytes).toByteArray

theorem decode_misplacedImage :
    (conditions misplacedImage = (conditions misplacedImage).take 5 ++
      ⟨28 ≤ ByteOrder.big.numberAt misplacedImage 16, .outOfBounds "translated string table"⟩ ::
        (conditions misplacedImage).drop 6 ∧
      (∀ p ∈ (conditions misplacedImage).take 5, p.holds) ∧
      ¬28 ≤ ByteOrder.big.numberAt misplacedImage 16) ∧
    decode misplacedImage = .error (.outOfBounds "translated string table") := by
  have horder : signedOrder misplacedImage = .big := by decide +kernel
  have hsplit : conditions misplacedImage = (conditions misplacedImage).take 5 ++
      ⟨28 ≤ ByteOrder.big.numberAt misplacedImage 16, .outOfBounds "translated string table"⟩ ::
        (conditions misplacedImage).drop 6 := by
    unfold conditions
    rw [horder]
    rfl
  have hbefore : ∀ p ∈ (conditions misplacedImage).take 5, p.holds := by
    unfold conditions
    rw [horder]
    simp [sizeConditions, signatureCondition, headerConditions]
    decide +kernel
  have hfirst : ¬28 ≤ ByteOrder.big.numberAt misplacedImage 16 := by decide +kernel
  exact ⟨⟨hsplit, hbefore, hfirst⟩,
    (decode_settled misplacedImage).2.1 _ _ _ hsplit hbefore hfirst⟩

end MessageCatalog.Catalog
