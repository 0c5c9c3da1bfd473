import Mathlib.Data.Nat.Bitwise
import MessageCatalog.Catalog.Hash

/-!
The hash of a key does not depend on the width of the words it is computed in. Bits move up only, but
for the four that are folded back, and those are the topmost of the low 32.
-/
namespace MessageCatalog.Catalog

/-- Bits 28 to 31 of a number, in place. -/
def highBits (n : ℕ) : ℕ := n &&& 0xf0000000

/-- One more byte on a number that nothing is cut from. -/
def wideStep (value : ℕ) (b : UInt8) : ℕ :=
  let sum := 16 * value + b.toNat
  if highBits sum = 0 then sum else sum ^^^ (highBits sum / 2 ^ 24) ^^^ highBits sum

def wideHash (key : Bytes) : ℕ := key.foldl wideStep 0

/-- One more byte on a word of a given width, which the sum may carry out of. -/
def wordStep (w : ℕ) (value : BitVec w) (b : UInt8) : BitVec w :=
  let sum := value <<< 4 + BitVec.ofNat w b.toNat
  let high := sum &&& BitVec.ofNat w 0xf0000000
  if high = 0#w then sum else sum ^^^ (high >>> 24) ^^^ high

def wordHash (w : ℕ) (key : Bytes) : BitVec w := key.foldl (wordStep w) 0#w

theorem mask_lt {w : ℕ} (hw : 32 ≤ w) : 0xf0000000 < 2 ^ w :=
  lt_of_lt_of_le (by decide) (Nat.pow_le_pow_right Nat.zero_lt_two hw)

section Word

variable {w : ℕ} {word : BitVec w} {value : ℕ}

theorem highBits_mod (hw : 32 ≤ w) (n : ℕ) : highBits (n % 2 ^ w) = highBits n := by
  have hmod := Nat.and_mod_two_pow (a := n) (b := 0xf0000000) (n := w)
  rw [Nat.mod_eq_of_lt (mask_lt hw)] at hmod
  rw [highBits, ← hmod]
  exact Nat.mod_eq_of_lt (lt_of_le_of_lt Nat.and_le_right (mask_lt hw))

theorem toNat_sum (h : word.toNat = value % 2 ^ w) (b : UInt8) :
    (word <<< 4 + BitVec.ofNat w b.toNat).toNat = (16 * value + b.toNat) % 2 ^ w := by
  rw [BitVec.toNat_add, BitVec.toNat_shiftLeft, BitVec.toNat_ofNat, h, Nat.shiftLeft_eq]
  simp [Nat.add_mod, Nat.mul_mod, Nat.mul_comm]

theorem toNat_highBits (hw : 32 ≤ w) (h : word.toNat = value % 2 ^ w) :
    (word &&& BitVec.ofNat w 0xf0000000).toNat = highBits value := by
  rw [BitVec.toNat_and, BitVec.toNat_ofNat, Nat.mod_eq_of_lt (mask_lt hw), h]
  exact highBits_mod hw value

theorem toNat_wordStep (hw : 32 ≤ w) (h : word.toNat = value % 2 ^ w) (b : UInt8) :
    (wordStep w word b).toNat = wideStep value b % 2 ^ w := by
  have hsum := toNat_sum h b
  have hhigh := toNat_highBits hw hsum
  have hlt : highBits (16 * value + b.toNat) < 2 ^ w := hhigh ▸ BitVec.isLt _
  have hzero : word <<< 4 + BitVec.ofNat w b.toNat &&& BitVec.ofNat w 0xf0000000 = 0#w ↔
      highBits (16 * value + b.toNat) = 0 := by
    rw [← BitVec.toNat_inj, hhigh, BitVec.toNat_zero]
  simp only [wordStep, wideStep, hzero]
  split_ifs
  · exact hsum
  · rw [BitVec.toNat_xor, BitVec.toNat_xor, BitVec.toNat_ushiftRight, hhigh, hsum,
      Nat.shiftRight_eq_div_pow, Nat.xor_mod_two_pow, Nat.xor_mod_two_pow, Nat.mod_eq_of_lt hlt,
      Nat.mod_eq_of_lt ((Nat.div_le_self _ _).trans_lt hlt)]

theorem toNat_wordHash (hw : 32 ≤ w) (key : Bytes) :
    (wordHash w key).toNat = wideHash key % 2 ^ w := by
  suffices h : ∀ (word : BitVec w) (value : ℕ), word.toNat = value % 2 ^ w →
      (key.foldl (wordStep w) word).toNat = key.foldl wideStep value % 2 ^ w from
    h 0#w 0 (by simp)
  induction key with
  | nil => exact fun _ _ h => h
  | cons b key ih => exact fun _ _ h => ih _ _ (toNat_wordStep hw h b)

end Word

theorem toBitVec_hashStep (value : UInt32) (b : UInt8) :
    (hashStep value b).toBitVec = wordStep 32 value.toBitVec b := by
  have hsum : (value <<< 4 + b.toUInt32).toBitVec =
      value.toBitVec <<< 4 + BitVec.ofNat 32 b.toNat := by
    have hb : b.toUInt32.toBitVec = BitVec.ofNat 32 b.toNat :=
      (BitVec.ofNat_toNat 32 b.toBitVec).symm
    rw [UInt32.toBitVec_add, UInt32.toBitVec_shiftLeft, BitVec.shiftLeft_eq', hb]
    rfl
  have hzero : value <<< 4 + b.toUInt32 &&& 0xf0000000 = 0 ↔
      (value <<< 4 + b.toUInt32).toBitVec &&& 0xf0000000#32 = 0#32 := by
    rw [← UInt32.toBitVec_inj]
    rfl
  simp only [hashStep, wordStep, ← hsum, hzero]
  split_ifs <;> rfl

theorem toBitVec_hashKey (key : Bytes) : (hashKey key).toBitVec = wordHash 32 key := by
  suffices h : ∀ value : UInt32, (key.foldl hashStep value).toBitVec =
      key.foldl (wordStep 32) value.toBitVec from h 0
  induction key with
  | nil => exact fun _ => rfl
  | cons b key ih =>
    intro value
    rw [List.foldl_cons, List.foldl_cons, ih, toBitVec_hashStep]

theorem testBit_highBits (n i : ℕ) :
    (highBits n).testBit i = (n.testBit i && decide (28 ≤ i ∧ i < 32)) := by
  have hmask : Nat.testBit 0xf0000000 i = decide (28 ≤ i ∧ i < 32) := by
    by_cases h : i < 32
    · have hsmall : ∀ i < 32, Nat.testBit 0xf0000000 i = decide (28 ≤ i ∧ i < 32) := by decide
      exact hsmall i h
    · simp [Nat.testBit_lt_two_pow (mask_lt (Nat.not_lt.mp h)), h]
  rw [highBits, Nat.testBit_and, hmask]

/-- A sum without high bits is folded onto itself. -/
theorem wideStep_eq_xor (value : ℕ) (b : UInt8) :
    wideStep value b = (16 * value + b.toNat) ^^^ (highBits (16 * value + b.toNat) / 2 ^ 24) ^^^
      highBits (16 * value + b.toNat) := by
  rw [wideStep]
  split_ifs with h
  · simp [h]
  · rfl

/-- Folding takes the high bits away, and where they go to is below them. -/
theorem wideStep_mod_lt (value : ℕ) (b : UInt8) : wideStep value b % 2 ^ 32 < 2 ^ 28 := by
  rw [wideStep_eq_xor]
  generalize 16 * value + b.toNat = sum
  refine Nat.lt_pow_two_of_testBit _ fun i hi => ?_
  rw [Nat.testBit_mod_two_pow, Nat.testBit_xor, Nat.testBit_xor, Nat.testBit_div_two_pow,
    testBit_highBits, testBit_highBits]
  -- A bit from 28 on meets itself, and what is moved down comes from bits 52 on, which are not set.
  by_cases h : i < 32
  · have hfar : decide (28 ≤ i + 24 ∧ i + 24 < 32) = false := decide_eq_false (by omega)
    have hnear : decide (28 ≤ i ∧ i < 32) = true := decide_eq_true ⟨hi, h⟩
    rw [hfar, hnear, Bool.and_false, Bool.and_true, Bool.xor_false, Bool.xor_self, Bool.and_false]
  · simp [h]

theorem wideHash_mod_lt (key : Bytes) : wideHash key % 2 ^ 32 < 2 ^ 28 := by
  suffices h : ∀ value, value % 2 ^ 32 < 2 ^ 28 →
      key.foldl wideStep value % 2 ^ 32 < 2 ^ 28 from h 0 (by decide)
  induction key with
  | nil => exact fun _ h => h
  | cons b key ih => exact fun _ _ => ih _ (wideStep_mod_lt _ b)

/-- The hash is the low 32 bits of a computation that cuts nothing off, and so it is in any wider
word; four of these bits are never set. -/
theorem toNat_hashKey (key : Bytes) :
    (hashKey key).toNat = wideHash key % 2 ^ 32 ∧ (hashKey key).toNat < 2 ^ 28 ∧
      ∀ w, 32 ≤ w → (wordHash w key).toNat % 2 ^ 32 = (hashKey key).toNat := by
  have hnarrow : (hashKey key).toNat = wideHash key % 2 ^ 32 := by
    rw [← toNat_wordHash le_rfl, ← toBitVec_hashKey]
    rfl
  refine ⟨hnarrow, hnarrow ▸ wideHash_mod_lt key, fun w hw => ?_⟩
  rw [toNat_wordHash hw, Nat.mod_mod_of_dvd _ (Nat.pow_dvd_pow 2 hw), hnarrow]

/-- A key whose last byte carries out of 32 bits. -/
def carrying : Bytes := [15, 15, 15, 15, 15, 15, 15, 255]

theorem toNat_hashKey_carrying :
    32 ≤ 64 ∧ 2 ^ 32 ≤ wideHash carrying ∧
      (hashKey carrying).toNat = wideHash carrying % 2 ^ 32 ∧ (hashKey carrying).toNat < 2 ^ 28 ∧
      (wordHash 64 carrying).toNat % 2 ^ 32 = (hashKey carrying).toNat := by
  obtain ⟨hnarrow, hlt, hword⟩ := toNat_hashKey carrying
  exact ⟨by decide, by decide, hnarrow, hlt, hword 64 (by decide)⟩

end MessageCatalog.Catalog
