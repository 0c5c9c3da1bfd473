import Mathlib.Tactic.Common
import MessageCatalog.Catalog.Image

/-! The order of strings: a built catalog has them sorted, and cutting them to keys keeps it. -/
namespace MessageCatalog

theorem cString_cons (b : UInt8) (s : Bytes) :
    cString (b :: s) = if b = 0 then [] else b :: cString s := by
  by_cases h : b = 0 <;> simp [cString, h]

/-- Nothing is below a NUL, so a string that is cut there stays where it is in the order. -/
theorem lt_of_cString_lt {a b : Bytes} (h : cString a < cString b) : a < b := by
  induction a generalizing b with
  | nil =>
    cases b with
    | nil => exact absurd h (List.lt_irrefl _)
    | cons y b => exact List.nil_lt_cons y b
  | cons x a ih =>
    cases b with
    | nil => exact absurd h (List.not_lt_nil _)
    | cons y b =>
      rw [cString_cons, cString_cons] at h
      rw [List.cons_lt_cons_iff]
      split_ifs at h with hx hy hy
      · exact absurd h (List.lt_irrefl _)
      · left
        rw [hx, UInt8.lt_iff_toNat_lt]
        exact Nat.pos_of_ne_zero fun h0 => hy (UInt8.toNat_inj.mp h0)
      · exact absurd h (List.not_lt_nil _)
      · rcases List.cons_lt_cons_iff.mp h with hlt | ⟨heq, hlt⟩
        · exact Or.inl hlt
        · exact Or.inr ⟨heq, ih hlt⟩

theorem cString_le_cString {a b : Bytes} (h : a ≤ b) : cString a ≤ cString b :=
  fun hlt => h (lt_of_cString_lt hlt)

namespace Catalog.Image

/-- The same entries in the order of their strings, those with equal strings in the order given. -/
structure StablySorted (entries sorted : List (Bytes × Bytes)) : Prop where
  perm : sorted.Perm entries
  ordered : sorted.Pairwise fun a b => a.1 ≤ b.1
  stable : ∀ id, sorted.filter (fun e => e.1 = id) = entries.filter fun e => e.1 = id

theorem sort_stablySorted (entries : List (Bytes × Bytes)) :
    StablySorted entries (sort entries) := by
  have htrans : ∀ a b c : Bytes × Bytes, decide (a.1 ≤ b.1) = true → decide (b.1 ≤ c.1) = true →
      decide (a.1 ≤ c.1) = true := by
    intro a b c hab hbc
    rw [decide_eq_true_eq] at hab hbc ⊢
    exact List.le_trans hab hbc
  have htotal : ∀ a b : Bytes × Bytes, (decide (a.1 ≤ b.1) || decide (b.1 ≤ a.1)) = true := by
    intro a b
    rw [Bool.or_eq_true, decide_eq_true_eq, decide_eq_true_eq]
    exact List.le_total a.1 b.1
  have hperm : (sort entries).Perm entries := List.mergeSort_perm _ _
  refine ⟨hperm, ?_, fun id => ?_⟩
  · exact (List.pairwise_mergeSort htrans htotal entries).imp decide_eq_true_eq.mp
  · -- Entries with one string are in order already, so the sort keeps them a sublist.
    have hequal : (entries.filter fun e => e.1 = id).Pairwise
        fun a b => decide (a.1 ≤ b.1) = true := by
      rw [List.pairwise_filter]
      refine List.pairwise_of_forall fun a b ha hb => ?_
      rw [decide_eq_true_eq] at ha hb ⊢
      rw [ha, hb]
      exact List.le_refl id
    have hsub : (entries.filter fun e => e.1 = id).Sublist (sort entries) :=
      List.sublist_mergeSort htrans htotal hequal List.filter_sublist
    have hsub' := hsub.filter fun e => decide (e.1 = id)
    rw [List.filter_filter] at hsub'
    simp only [Bool.and_self] at hsub'
    exact (hsub'.eq_of_length_le (Nat.le_of_eq (hperm.filter _).length_eq)).symm

end Catalog.Image

end MessageCatalog
