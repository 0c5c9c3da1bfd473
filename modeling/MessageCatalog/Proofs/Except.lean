import Mathlib.Data.List.Forall2
import Mathlib.Tactic.Common

/-! Results of steps one after another, each of which may end with an error. -/
namespace MessageCatalog

variable {α β ε ε' : Type}

theorem bind_eq_ok_iff {x : Except ε α} {f : α → Except ε β} {b : β} :
    (x >>= f) = .ok b ↔ ∃ a, x = .ok a ∧ f a = .ok b := by
  cases x with
  | error e => simp [bind, Except.bind]
  | ok a => simp [bind, Except.bind]

theorem bind_ne {x : Except ε α} {f : α → Except ε β} {error : ε} (hx : x ≠ .error error)
    (hf : ∀ a, f a ≠ .error error) : x >>= f ≠ .error error := by
  cases x with
  | ok a => exact hf a
  | error e => exact fun h => hx (congrArg _ (Except.error.inj h))

theorem mapError_eq_ok_iff {x : Except ε α} {f : ε → ε'} {a : α} :
    x.mapError f = .ok a ↔ x = .ok a := by
  cases x <;> simp [Except.mapError]

theorem mapError_ne {x : Except ε α} {f : ε → ε'} {error : ε'} (h : ∀ e, f e ≠ error) :
    x.mapError f ≠ .error error := by
  intro hx
  cases x with
  | ok a => cases hx
  | error e => exact h e (Except.error.inj hx)

section Each

variable {f : α → Except ε β} {s : List α} {t : List β}

theorem mapM_cons_eq_ok_iff {a : α} :
    (a :: s).mapM f = .ok t ↔ ∃ b rest, f a = .ok b ∧ s.mapM f = .ok rest ∧ t = b :: rest := by
  rw [List.mapM_cons]
  constructor
  · intro h
    obtain ⟨b, hb, h⟩ := bind_eq_ok_iff.mp h
    obtain ⟨rest, hrest, h⟩ := bind_eq_ok_iff.mp h
    exact ⟨b, rest, hb, hrest, (Except.ok.inj h).symm⟩
  · rintro ⟨b, rest, hb, hrest, rfl⟩
    exact bind_eq_ok_iff.mpr ⟨b, hb, bind_eq_ok_iff.mpr ⟨rest, hrest, rfl⟩⟩

/-- A step for each element ends well with the results of the steps. -/
theorem mapM_eq_ok_iff : s.mapM f = .ok t ↔ List.Forall₂ (fun a b => f a = .ok b) s t := by
  induction s generalizing t with
  | nil =>
    rw [List.forall₂_nil_left_iff, List.mapM_nil]
    exact ⟨fun h => (Except.ok.inj h).symm, fun h => h ▸ rfl⟩
  | cons a s ih =>
    rw [mapM_cons_eq_ok_iff, List.forall₂_cons_left_iff]
    simp only [ih]

theorem exists_mapM_iff : (∃ t, s.mapM f = .ok t) ↔ ∀ a ∈ s, ∃ b, f a = .ok b := by
  constructor
  · rintro ⟨t, ht⟩ a ha
    obtain ⟨i, hi, rfl⟩ := List.mem_iff_getElem.mp ha
    have hforall := mapM_eq_ok_iff.mp ht
    exact ⟨_, hforall.get hi (hforall.length_eq ▸ hi)⟩
  · intro h
    induction s with
    | nil => exact ⟨[], rfl⟩
    | cons a s ih =>
      rw [List.forall_mem_cons] at h
      obtain ⟨b, hb⟩ := h.1
      obtain ⟨t, ht⟩ := ih h.2
      exact ⟨b :: t, mapM_cons_eq_ok_iff.mpr ⟨b, t, hb, ht, rfl⟩⟩

end Each

end MessageCatalog
