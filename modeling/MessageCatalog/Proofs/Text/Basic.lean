import Mathlib.Data.List.TakeWhile
import MessageCatalog.Text.Basic

/-! Text cut at its blanks and at separators, and ASCII letters in lower case. -/
namespace MessageCatalog.Text

section Runs

variable {p : Char → Bool} {a s : List Char}

theorem takeWhile_of_head? (h : ∀ c ∈ s.head?, p c = false) : s.takeWhile p = [] := by
  cases s with
  | nil => rfl
  | cons c s => exact List.takeWhile_cons_of_neg (by simp [h c rfl])

theorem dropWhile_of_head? (h : ∀ c ∈ s.head?, p c = false) : s.dropWhile p = s := by
  cases s with
  | nil => rfl
  | cons c s => exact List.dropWhile_cons_of_neg (by simp [h c rfl])

/-- A run of characters ends before a character of another kind. -/
theorem takeWhile_run (ha : ∀ c ∈ a, p c) (hs : ∀ c ∈ s.head?, p c = false) :
    (a ++ s).takeWhile p = a := by
  rw [List.takeWhile_append_of_pos ha, takeWhile_of_head? hs, List.append_nil]

theorem dropWhile_run (ha : ∀ c ∈ a, p c) (hs : ∀ c ∈ s.head?, p c = false) :
    (a ++ s).dropWhile p = s := by
  rw [List.dropWhile_append_of_pos ha, dropWhile_of_head? hs]

end Runs

section Trim

variable {before core after : List Char}

theorem trimChars_append (hb : ∀ c ∈ before, isBlank c) (ha : ∀ c ∈ after, isBlank c)
    (hfirst : ∀ c ∈ core.head?, isBlank c = false) (hlast : ∀ c ∈ core.getLast?, isBlank c = false) :
    trimChars (before ++ core ++ after) = core := by
  unfold trimChars
  rw [List.append_assoc, List.dropWhile_append_of_pos hb]
  cases core with
  | nil =>
    rw [List.nil_append, List.dropWhile_eq_nil_iff.mpr ha]
    rfl
  | cons c core =>
    have hc : ∀ x ∈ (c :: core ++ after).head?, isBlank x = false := hfirst
    have hreverse : ∀ x ∈ after.reverse, isBlank x := fun x hx => ha x (List.mem_reverse.mp hx)
    have hend : ∀ x ∈ (c :: core).reverse.head?, isBlank x = false := by
      rwa [List.head?_reverse]
    rw [dropWhile_of_head? hc, List.reverse_append, dropWhile_run hreverse hend,
      List.reverse_reverse]

theorem exists_trim (s : List Char) : ∃ before after, (∀ c ∈ before, isBlank c) ∧
    (∀ c ∈ after, isBlank c) ∧ s = before ++ trimChars s ++ after := by
  let rest := s.dropWhile isBlank
  refine ⟨s.takeWhile isBlank, (rest.reverse.takeWhile isBlank).reverse,
    fun _ hc => List.mem_takeWhile_imp hc,
    fun _ hc => List.mem_takeWhile_imp (List.mem_reverse.mp hc), ?_⟩
  have hrest : trimChars s ++ (rest.reverse.takeWhile isBlank).reverse = rest := by
    rw [trimChars, ← List.reverse_append, List.takeWhile_append_dropWhile, List.reverse_reverse]
  rw [List.append_assoc, hrest]
  exact List.takeWhile_append_dropWhile.symm

/-- Neither the first nor the last character is a blank. -/
def Trimmed (s : List Char) : Prop :=
  (∀ c ∈ s.head?, isBlank c = false) ∧ ∀ c ∈ s.getLast?, isBlank c = false

instance (s : List Char) : Decidable (Trimmed s) :=
  @instDecidableAnd _ _ (Option.decidableForallMem _) (Option.decidableForallMem _)

theorem trimmed_trimChars (s : List Char) : Trimmed (trimChars s) := by
  let rest := s.dropWhile isBlank
  have hreverse : (trimChars s).reverse = rest.reverse.dropWhile isBlank := List.reverse_reverse _
  constructor
  · intro c hc
    -- What trimming leaves starts where the blanks at the start end.
    have hprefix : trimChars s <+: rest := by
      rw [← List.reverse_suffix, hreverse]
      exact List.dropWhile_suffix _
    have hhead : rest.head? = some c := by
      obtain ⟨after, hafter⟩ := hprefix
      rw [← hafter, List.head?_append, hc, Option.some_or]
    have hstart := List.head?_dropWhile_not isBlank s
    rw [hhead] at hstart
    simpa using hstart
  · intro c hc
    have hend := List.head?_dropWhile_not isBlank rest.reverse
    rw [← hreverse, List.head?_reverse, hc] at hend
    simpa using hend

theorem Trimmed.trimChars_eq {s : List Char} (h : Trimmed s) : trimChars s = s := by
  have hs : trimChars ([] ++ s ++ []) = s := trimChars_append nofun nofun h.1 h.2
  rwa [List.nil_append, List.append_nil] at hs

theorem trimChars_eq_self_iff {s : List Char} : trimChars s = s ↔ Trimmed s :=
  ⟨fun h => h ▸ trimmed_trimChars s, Trimmed.trimChars_eq⟩

/-- A character that is no blank stays, with all that stands between it and such a first one. -/
theorem exists_trimChars_append {s t : List Char} {c : Char}
    (hfirst : ∀ x ∈ (s ++ [c]).head?, isBlank x = false) (hc : isBlank c = false) :
    ∃ rest, trimChars (s ++ c :: t) = s ++ c :: rest := by
  obtain ⟨before, after, hb, ha, h⟩ := exists_trim (s ++ c :: t)
  have hbefore : before = [] := by
    cases before with
    | nil => rfl
    | cons x before =>
      have hx : (s ++ [c]).head? = some x := by
        have hhead := congrArg List.head? h
        rw [List.head?_append, List.head?_cons] at hhead
        rwa [List.head?_append, List.head?_singleton]
      have hblank := hb x List.mem_cons_self
      rw [hfirst x hx] at hblank
      cases hblank
  have hnotMem : c ∉ after := by
    intro hmem
    rw [ha c hmem] at hc
    cases hc
  rw [hbefore, List.nil_append] at h
  rcases List.append_eq_append_iff.mp h with ⟨rest, hcore, htail⟩ | ⟨rest, -, hafter⟩
  · cases rest with
    | nil =>
      rw [List.nil_append] at htail
      exact absurd (htail ▸ List.mem_cons_self) hnotMem
    | cons x rest =>
      obtain ⟨rfl, -⟩ := List.cons.inj htail
      exact ⟨rest, hcore⟩
  · exact absurd (hafter ▸ List.mem_append_right rest List.mem_cons_self) hnotMem

theorem trimChars_eq_nil_iff {s : List Char} : trimChars s = [] ↔ ∀ c ∈ s, isBlank c = true := by
  constructor
  · intro h
    obtain ⟨before, after, hb, ha, hs⟩ := exists_trim s
    rw [h, List.append_nil] at hs
    rw [hs, List.forall_mem_append]
    exact ⟨hb, ha⟩
  · intro h
    have hs : trimChars (s ++ [] ++ []) = [] := trimChars_append h nofun nofun nofun
    rwa [List.append_nil, List.append_nil] at hs

theorem trimChars_subset (s : List Char) : trimChars s ⊆ s := by
  obtain ⟨before, after, -, -, hs⟩ := exists_trim s
  intro c hc
  rw [hs]
  exact List.mem_append_left after (List.mem_append_right before hc)

end Trim

section Split

variable {α : Type} [DecidableEq α] {sep : α} {s : List α}

theorem splitAll_eq_splitOn (sep : α) (s : List α) : splitAll sep s = s.splitOn sep := by
  induction s with
  | nil => rfl
  | cons a s ih =>
    rw [splitAll, List.splitOn_cons_eq_if_modifyHead, ← ih]
    by_cases ha : a = sep
    · rw [if_pos ha, if_pos (by simpa using ha)]
    · rw [if_neg ha, if_neg (by simpa using ha)]
      cases hparts : splitAll sep s with
      | nil => exact absurd hparts (splitAll_ne_nil sep s)
      | cons part parts => rfl

theorem forall_ne_of_notMem (h : sep ∉ s) : ∀ a ∈ s, decide (a ≠ sep) = true := by
  intro a ha
  rw [decide_eq_true_eq]
  rintro rfl
  exact h ha

theorem splitOnce?_append (h : sep ∉ s) (t : List α) :
    splitOnce? sep (s ++ sep :: t) = some (s, t) := by
  have hs := forall_ne_of_notMem h
  unfold splitOnce?
  rw [List.dropWhile_append_of_pos hs, List.dropWhile_cons_of_neg (by simp),
    List.takeWhile_append_of_pos hs, List.takeWhile_cons_of_neg (by simp), List.append_nil]

theorem splitOnce?_eq_none (h : sep ∉ s) : splitOnce? sep s = none := by
  rw [splitOnce?, List.dropWhile_eq_nil_iff.mpr (forall_ne_of_notMem h)]

end Split

section Letters

/-- What holds of the characters below 128 and of all others holds of every character. -/
theorem forall_char {p : Char → Prop} (h : ∀ n < 128, p (Char.ofNat n))
    (hlarge : ∀ c : Char, 128 ≤ c.toNat → p c) (c : Char) : p c := by
  by_cases hc : c.toNat < 128
  · have hp := h c.toNat hc
    rwa [Char.ofNat_toNat] at hp
  · exact hlarge c (Nat.le_of_not_lt hc)

theorem toLower_eq_self {c : Char} (h : 128 ≤ c.toNat) : c.toLower = c := by
  refine dif_neg ?_
  rintro ⟨-, hle⟩
  rw [UInt32.le_iff_toNat_le] at hle
  exact absurd (Nat.lt_of_le_of_lt hle (by decide : 'Z'.val.toNat < 128)) (Nat.not_lt.mpr h)

theorem toLower_cases (c : Char) : c.toLower = c ∨ c.toLower.isLower = true := by
  revert c
  apply forall_char
  · decide
  · exact fun c hc => Or.inl (toLower_eq_self hc)

theorem toLower_toLower (c : Char) : c.toLower.toLower = c.toLower := by
  revert c
  apply forall_char
  · decide
  · intro c hc
    rw [toLower_eq_self hc, toLower_eq_self hc]

theorem isBlank_toLower (c : Char) : isBlank c.toLower = isBlank c := by
  revert c
  apply forall_char
  · decide
  · intro c hc
    rw [toLower_eq_self hc]

end Letters

end MessageCatalog.Text
