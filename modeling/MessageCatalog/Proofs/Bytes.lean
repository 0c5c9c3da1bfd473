import Mathlib.Data.List.Basic
import Mathlib.Tactic.Common
import MessageCatalog.Text.Basic

/-!
Bytes one by one, those of ASCII text and of the digits in it, and the text that bytes make; and the
place that a binary search among ascending places ends at.
-/
namespace MessageCatalog

/-- What holds of the bytes from 0 to 255 holds of every byte. -/
theorem forall_byte {p : UInt8 → Prop} (h : ∀ n < 256, p (UInt8.ofNat n)) (b : UInt8) : p b := by
  have hb := h b.toNat b.toNat_lt
  rwa [UInt8.ofNat_toNat] at hb

theorem bytes_ne_of_notMem {s : Bytes} (h : 0 ∉ s) : ∀ b ∈ s, (b != 0) = true := by
  intro b hb
  rw [bne_iff_ne]
  rintro rfl
  exact h hb

theorem cString_append {s : Bytes} (h : 0 ∉ s) (t : Bytes) : cString (s ++ t) = s ++ cString t :=
  List.takeWhile_append_of_pos (bytes_ne_of_notMem h)

theorem cString_of_notMem {s : Bytes} (h : 0 ∉ s) : cString s = s := by
  have happend := cString_append h []
  rwa [cString_nil, List.append_nil] at happend

@[simp] theorem ascii_nil : ascii [] = [] := rfl

@[simp] theorem ascii_cons (c : Char) (s : List Char) : ascii (c :: s) = c.toUInt8 :: ascii s := rfl

@[simp] theorem ascii_append (s t : List Char) : ascii (s ++ t) = ascii s ++ ascii t :=
  List.map_append

theorem utf8_ofList {s : List Char} (h : ∀ c ∈ s, c.toNat < 128) :
    utf8 (String.ofList s) = ascii s := by
  have hchar : ∀ c ∈ s, String.utf8EncodeChar c = [c.toUInt8] := by
    intro c hc
    apply String.utf8EncodeChar_eq_singleton
    have hlt : c.val.toNat < 128 := h c hc
    have h127 : (127 : UInt32).toNat = 127 := rfl
    rw [Char.utf8Size_eq_one_iff, UInt32.le_iff_toNat_le]
    omega
  have hbytes : utf8 (String.ofList s) = s.flatMap String.utf8EncodeChar := by
    simp [utf8, List.utf8Encode]
  rw [hbytes, List.flatMap_congr hchar]
  exact List.flatMap_pure_eq_map Char.toUInt8 s

theorem toNat_toUInt8 {c : Char} (h : c.toNat < 128) : c.toUInt8.toNat = c.toNat := by
  show c.toNat % 256 = c.toNat
  omega

theorem toNat_lt_of_isDigit {c : Char} (h : c.isDigit) : c.toNat < 128 := by
  have hle := (Char.isDigit_iff_toNat.mp h).2
  have h57 : '9'.toNat = 57 := rfl
  omega

theorem isDigit_toUInt8 {c : Char} (h : c.isDigit) : isDigit c.toUInt8 := by
  have hc := Char.isDigit_iff_toNat.mp h
  have hbyte := toNat_toUInt8 (toNat_lt_of_isDigit h)
  have h48 : '0'.toNat = (48 : UInt8).toNat := rfl
  have h57 : '9'.toNat = (57 : UInt8).toNat := rfl
  simp only [isDigit, Bool.and_eq_true, decide_eq_true_eq, UInt8.le_iff_toNat_le]
  omega

section Search

/-- The last place that is not above the one sought, of ascending places. -/
theorem lastNotAbove_spec (notAbove : ℕ → Bool) (base size : ℕ) (h : 0 < size)
    (hanti : ∀ i j, i ≤ j → j < base + size → notAbove j = true → notAbove i = true) :
    base ≤ lastNotAbove notAbove base size ∧
      lastNotAbove notAbove base size < base + size ∧
      (lastNotAbove notAbove base size = base ∨
        notAbove (lastNotAbove notAbove base size) = true) ∧
      ∀ j, lastNotAbove notAbove base size < j → j < base + size → notAbove j = false := by
  induction size using Nat.strongRecOn generalizing base with
  | ind size ih =>
    rw [lastNotAbove]
    dsimp only
    split_ifs with hs hm
    · exact ⟨Nat.le_refl _, by omega, Or.inl rfl, fun j _ _ => by omega⟩
    · obtain ⟨hlo, hhi, hself, hrest⟩ := ih (size - size / 2) (by omega) (base + size / 2)
        (by omega) (fun i j hij hj => hanti i j hij (by omega))
      refine ⟨by omega, by omega, Or.inr ?_, fun j hj hlt => hrest j hj (by omega)⟩
      rcases hself with he | hself
      · rwa [he]
      · exact hself
    · obtain ⟨hlo, hhi, hself, hrest⟩ := ih (size - size / 2) (by omega) base (by omega)
        (fun i j hij hj => hanti i j hij (by omega))
      refine ⟨hlo, by omega, hself, ?_⟩
      intro j hj hlt
      by_cases hjh : j < base + (size - size / 2)
      · exact hrest j hj hjh
      · -- A place beyond the middle is above, since the middle is.
        by_contra ht
        exact hm (hanti (base + size / 2) j (by omega) hlt (by simpa using ht))

theorem lastNotAbove_eq {notAbove : ℕ → Bool} {size i : ℕ} (hi : i < size)
    (hbelow : ∀ j ≤ i, notAbove j = true) (habove : ∀ j, i < j → j < size → notAbove j = false) :
    lastNotAbove notAbove 0 size = i := by
  have hle : ∀ j < size, notAbove j = true → j ≤ i := by
    intro j hj htrue
    by_contra hlt
    rw [habove j (by omega) hj] at htrue
    cases htrue
  obtain ⟨-, hsize, hself, hrest⟩ := lastNotAbove_spec notAbove 0 size (by omega)
    fun j k hjk hk htrue => hbelow j (Nat.le_trans hjk (hle k (by omega) htrue))
  rcases Nat.lt_trichotomy (lastNotAbove notAbove 0 size) i with hlt | heq | hgt
  · have hfalse := hrest i hlt (by omega)
    rw [hbelow i (Nat.le_refl i)] at hfalse
    cases hfalse
  · exact heq
  · have htrue := hself.resolve_left (by omega)
    exact absurd (hle _ (by omega) htrue) (by omega)

end Search

namespace Text

def IsUtf8 (s : Bytes) : Prop := s.toByteArray.IsValidUTF8

theorem decodeChars_append (c : Char) (s : Bytes) :
    decodeChars (String.utf8EncodeChar c ++ s) = c :: decodeChars s := by
  obtain ⟨b, tail, hb⟩ := List.exists_cons_of_ne_nil (String.utf8EncodeChar_ne_nil (c := c))
  have hlen : tail.length + 1 = c.utf8Size := by
    rw [← String.length_utf8EncodeChar, hb, List.length_cons]
  have hle := c.utf8Size_le_four
  have hdrop : (tail ++ s).drop (c.utf8Size - 1) = s := by
    rw [← hlen, Nat.add_sub_cancel, List.drop_left]
  -- A character has at most three bytes more, so these are all seen.
  have htake : (b :: (tail ++ s).take 3).toByteArray =
      (String.utf8EncodeChar c).toByteArray ++ (s.take (3 - tail.length)).toByteArray := by
    rw [List.take_append, List.take_of_length_le (by omega), hb, ← List.toByteArray_append]
    rfl
  rw [hb, List.cons_append, decodeChars, htake, ByteArray.utf8DecodeChar?_utf8EncodeChar_append]
  dsimp only
  rw [hdrop]

theorem decodeChars_flatMap (s : List Char) : decodeChars (s.flatMap String.utf8EncodeChar) = s := by
  induction s with
  | nil => rw [List.flatMap_nil, decodeChars]
  | cons c s ih => rw [List.flatMap_cons, decodeChars_append, ih]

theorem utf8_eq_flatMap (s : List Char) :
    utf8 (String.ofList s) = s.flatMap String.utf8EncodeChar := by
  simp [utf8, List.utf8Encode]

/-- Bytes that are UTF-8 are those of the text that is read from them. -/
theorem utf8_decode {s : Bytes} (h : IsUtf8 s) : utf8 (decode s) = s := by
  obtain ⟨m, hm⟩ := h
  have hs : s = m.flatMap String.utf8EncodeChar := by
    have hdata := congrArg (fun a : ByteArray => a.data.toList) hm
    simpa [List.utf8Encode] using hdata
  rw [decode, utf8_eq_flatMap, hs, decodeChars_flatMap]

end Text

end MessageCatalog
