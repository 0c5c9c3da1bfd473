import Mathlib.Algebra.Ring.Int.Defs
import Mathlib.Tactic.Common
import MessageCatalog.Text.Basic

/-! The numerals of integers: decimal digits, at least one, after a sign or none. -/
namespace MessageCatalog.Text

def IsDigits (s : List Char) : Prop := s ≠ [] ∧ ∀ c ∈ s, c.isDigit = true

inductive Numeral : List Char → ℤ → Prop
  | unsigned {digits : List Char} (h : IsDigits digits) :
      Numeral digits (Nat.ofDigitChars 10 digits 0)
  | positive {digits : List Char} (h : IsDigits digits) :
      Numeral ('+' :: digits) (Nat.ofDigitChars 10 digits 0)
  | negative {digits : List Char} (h : IsDigits digits) :
      Numeral ('-' :: digits) (-Nat.ofDigitChars 10 digits 0)

section Digits

variable {s digits : List Char} {c : Char} {v : ℤ}

theorem isDigits_iff : (digits.isEmpty || !digits.all Char.isDigit) = false ↔ IsDigits digits := by
  simp [IsDigits]

theorem foldl_digits (h : ∀ c ∈ digits, c.isDigit = true) (k : ℕ) :
    digits.foldl (fun v c => 10 * v + ((c.toNat : ℤ) - 48)) (k : ℤ) =
      Nat.ofDigitChars 10 digits k := by
  induction digits generalizing k with
  | nil => rfl
  | cons c digits ih =>
    rw [List.forall_mem_cons] at h
    have hc : 48 ≤ c.toNat := (Char.isDigit_iff_toNat.mp h.1).1
    have hstep : 10 * (k : ℤ) + ((c.toNat : ℤ) - 48) = ((10 * k + (c.toNat - 48) : ℕ) : ℤ) := by
      omega
    rw [List.foldl_cons, hstep, ih h.2, Nat.ofDigitChars_cons]
    rfl

/-- Behind its sign a text spells an integer if it is made of digits. -/
theorem read_digits_iff (f : ℤ → ℤ) :
    (if digits.isEmpty || !digits.all Char.isDigit then none
      else some (f (digits.foldl (fun v c => 10 * v + ((c.toNat : ℤ) - 48)) 0))) = some v ↔
      IsDigits digits ∧ v = f (Nat.ofDigitChars 10 digits 0) := by
  by_cases h : IsDigits digits
  · have hvalue := foldl_digits h.2 0
    rw [Nat.cast_zero] at hvalue
    rw [isDigits_iff.mpr h, if_neg Bool.false_ne_true, hvalue, Option.some_inj, and_iff_right h,
      eq_comm]
  · rw [(Bool.not_eq_false _).mp (mt isDigits_iff.mp h), if_pos rfl]
    exact iff_of_false nofun fun hnot => h hnot.1

theorem readInt?_minus : readInt? ('-' :: digits) = some v ↔
    IsDigits digits ∧ v = -Nat.ofDigitChars 10 digits 0 :=
  read_digits_iff fun value => -value

theorem readInt?_plus : readInt? ('+' :: digits) = some v ↔
    IsDigits digits ∧ v = Nat.ofDigitChars 10 digits 0 :=
  read_digits_iff id

theorem readInt?_unsigned (hminus : digits.head? ≠ some '-') (hplus : digits.head? ≠ some '+') :
    readInt? digits = some v ↔ IsDigits digits ∧ v = Nat.ofDigitChars 10 digits 0 := by
  unfold readInt?
  dsimp only
  rw [if_neg hminus]
  split
  · exact absurd rfl hminus
  · exact absurd rfl hplus
  · exact read_digits_iff id

theorem IsDigits.head?_ne (h : IsDigits digits) (hc : c.isDigit = false) :
    digits.head? ≠ some c := by
  intro hhead
  rw [h.2 c (List.mem_of_mem_head? hhead)] at hc
  cases hc

/-- An integer is read exactly from its numerals. -/
theorem readInt?_eq_some_iff : readInt? s = some v ↔ Numeral s v := by
  constructor
  · intro h
    by_cases hminus : s.head? = some '-'
    · obtain ⟨digits, rfl⟩ := List.head?_eq_some_iff.mp hminus
      obtain ⟨hdigits, rfl⟩ := readInt?_minus.mp h
      exact .negative hdigits
    · by_cases hplus : s.head? = some '+'
      · obtain ⟨digits, rfl⟩ := List.head?_eq_some_iff.mp hplus
        obtain ⟨hdigits, rfl⟩ := readInt?_plus.mp h
        exact .positive hdigits
      · obtain ⟨hdigits, rfl⟩ := (readInt?_unsigned hminus hplus).mp h
        exact .unsigned hdigits
  · intro h
    cases h with
    | unsigned hdigits =>
      exact (readInt?_unsigned (hdigits.head?_ne rfl) (hdigits.head?_ne rfl)).mpr ⟨hdigits, rfl⟩
    | positive hdigits => exact readInt?_plus.mpr ⟨hdigits, rfl⟩
    | negative hdigits => exact readInt?_minus.mpr ⟨hdigits, rfl⟩

theorem readInt64?_eq_some_iff {n : Int64} : readInt64? s = some n ↔ Numeral s n.toInt := by
  rw [readInt64?, Option.bind_eq_some_iff]
  constructor
  · rintro ⟨v, hv, hn⟩
    split_ifs at hn with hrange
    obtain rfl := Option.some.inj hn
    have hlow : Int64.minValue.toInt = -2 ^ 63 := rfl
    have hhigh : Int64.maxValue.toInt = 2 ^ 63 - 1 := rfl
    rw [Int64.toInt_ofInt_of_le (by omega) (by omega)]
    exact readInt?_eq_some_iff.mp hv
  · intro h
    refine ⟨n.toInt, readInt?_eq_some_iff.mpr h, ?_⟩
    rw [if_pos ⟨n.minValue_le_toInt, n.toInt_le⟩, Int64.ofInt_toInt]

end Digits

end MessageCatalog.Text
