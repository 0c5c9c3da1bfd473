import Mathlib.Data.List.TakeWhile
import MessageCatalog.Plural.Forms
import MessageCatalog.Proofs.Bytes

/-!
The forms of a message are its parts between NULs. An index that no form has, or that of an empty
part at the end of several, gives the whole message.
-/
namespace MessageCatalog.Plural

/-- The part of a message with an index; an empty last part is a form only where it is the first. -/
def IsForm (message : Bytes) (i : ℕ) (form : Bytes) : Prop :=
  (message.splitOn 0)[i]? = some form ∧
    ¬(0 < i ∧ i + 1 = (message.splitOn 0).length ∧ form = [])

section Parts

variable {first s : Bytes} (rest : Bytes)

theorem splitOn_head? (s : Bytes) : (s.splitOn 0)[0]? = some (cString s) := by
  by_cases h : 0 ∈ s
  · obtain ⟨first, rest, rfl, hfirst⟩ := List.eq_append_cons_of_mem h
    rw [List.splitOn_append_cons_self_of_not_mem hfirst, cString_append hfirst]
    simp
  · rw [List.splitOn_eq_singleton h, cString_of_notMem h]
    rfl

theorem formsAfter?_of_notMem (h : 0 ∉ s) (k : ℕ) : formsAfter? (k + 1) s = none := by
  have hdrop : s.dropWhile (· != 0) = [] :=
    List.dropWhile_eq_nil_iff.mpr (bytes_ne_of_notMem h)
  rw [formsAfter?, hdrop]

theorem dropWhile_append_zero (h : 0 ∉ first) :
    (first ++ 0 :: rest).dropWhile (· != 0) = 0 :: rest := by
  rw [List.dropWhile_append_of_pos (bytes_ne_of_notMem h)]
  exact List.dropWhile_cons_of_neg (by simp)

theorem formsAfter?_append (h : 0 ∉ first) (hrest : rest ≠ []) (k : ℕ) :
    formsAfter? (k + 1) (first ++ 0 :: rest) = formsAfter? k rest := by
  obtain ⟨b, rest, rfl⟩ := List.exists_cons_of_ne_nil hrest
  rw [formsAfter?, dropWhile_append_zero _ h]

theorem formsAfter?_append_nil (h : 0 ∉ first) (k : ℕ) :
    formsAfter? (k + 1) (first ++ [0]) = none := by
  rw [formsAfter?, dropWhile_append_zero _ h]

/-- Only an empty message is one empty part. -/
theorem ne_nil_of_length_splitOn (hs : s ≠ []) (h : (s.splitOn 0).length = 1) :
    (s.splitOn 0)[0]? ≠ some [] := by
  by_cases hmem : 0 ∈ s
  · obtain ⟨first, rest, rfl, hfirst⟩ := List.eq_append_cons_of_mem hmem
    rw [List.splitOn_append_cons_self_of_not_mem hfirst] at h
    simp at h
  · rw [List.splitOn_eq_singleton hmem]
    simpa using hs

end Parts

/-- The walk over the forms comes to the start of each of them, and of nothing else. -/
theorem formsAfter?_eq_some_iff (k : ℕ) (s form : Bytes) :
    (formsAfter? k s).map cString = some form ↔ IsForm s k form := by
  induction k generalizing s with
  | zero => simp [formsAfter?, IsForm, splitOn_head?]
  | succ k ih =>
    unfold IsForm
    by_cases h : 0 ∈ s
    · obtain ⟨first, rest, rfl, hfirst⟩ := List.eq_append_cons_of_mem h
      rw [List.splitOn_append_cons_self_of_not_mem hfirst, List.getElem?_cons_succ,
        List.length_cons]
      by_cases hrest : rest = []
      · subst hrest
        rw [formsAfter?_append_nil hfirst, List.splitOn_nil]
        cases k with
        | zero => simp
        | succ k => simp
      · -- The rest is no empty last part, so its first form is not passed over either.
        have hfirstForm : (rest.splitOn 0)[k]? = some form → k + 1 = (rest.splitOn 0).length →
            form = [] → 0 < k := by
          rintro hform hlast rfl
          refine Nat.pos_of_ne_zero ?_
          rintro rfl
          exact ne_nil_of_length_splitOn hrest hlast.symm hform
        rw [formsAfter?_append rest hfirst hrest, ih, IsForm]
        grind
    · rw [formsAfter?_of_notMem h, List.splitOn_eq_singleton h]
      simp

section Selection

variable {index : Int64} {message : Bytes}

theorem selectForm_of_isForm {i : ℕ} {form : Bytes} (hi : index.toInt = i)
    (h : IsForm message i form) : selectForm index message = form := by
  have hnonneg : ¬index < 0 := by
    rw [Int64.lt_iff_toInt_lt, hi]
    simp
  have hclamp : index.toNatClampNeg = i := by
    rw [← Int64.toNat_toInt, hi, Int.toNat_natCast]
  obtain ⟨rest, hrest, rfl⟩ := Option.map_eq_some_iff.mp ((formsAfter?_eq_some_iff _ _ _).mpr h)
  rw [selectForm, if_neg hnonneg, hclamp, hrest]

theorem selectForm_of_not_isForm (h : ∀ (i : ℕ) form, index.toInt = i → ¬IsForm message i form) :
    selectForm index message = message := by
  unfold selectForm
  by_cases hneg : index < 0
  · rw [if_pos hneg]
  · have hi : index.toInt = index.toNatClampNeg := by
      rw [Int64.lt_iff_toInt_lt, Int64.toInt_zero] at hneg
      rw [← Int64.toNat_toInt]
      omega
    have hnone : formsAfter? index.toNatClampNeg message = none := by
      refine Option.eq_none_iff_forall_ne_some.mpr fun rest hrest => ?_
      refine h _ (cString rest) hi ((formsAfter?_eq_some_iff _ _ _).mp ?_)
      rw [hrest, Option.map_some]
    rw [if_neg hneg, hnone]

end Selection

end MessageCatalog.Plural
