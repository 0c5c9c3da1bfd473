import MessageCatalog.Proofs.Plural.Forms

/-!
The walk to the form with an index. It goes from NUL to NUL by places in the message, and ends where
no form follows, so it comes to no more places than there are parts.
-/
namespace MessageCatalog.Plural

/-- The place behind the next NUL, where something follows it. Without a NUL it is past the end. -/
def nextStart? (message : Bytes) (start : ℕ) : Option ℕ :=
  let next := start + (message.drop start).idxOf 0 + 1
  if next < message.length then some next else none

/-- The places where the walk over so many forms cuts the message. -/
def starts (message : Bytes) : ℕ → ℕ → List ℕ
  | 0, start => [start]
  | k + 1, start =>
      start :: match nextStart? message start with
        | some next => starts message k next
        | none => []

section Walk

variable {message first rest : Bytes} {start next : ℕ}

theorem nextStart?_of_notMem (h : 0 ∉ message.drop start) : nextStart? message start = none := by
  have hidx := List.idxOf_of_notMem h
  rw [List.length_drop] at hidx
  unfold nextStart?
  rw [if_neg]
  omega

theorem nextStart?_append (hfirst : 0 ∉ first) (h : message.drop start = first ++ 0 :: rest) :
    nextStart? message start = if rest = [] then none else some (start + first.length + 1) := by
  have hidx : (message.drop start).idxOf 0 = first.length := by
    rw [h, List.idxOf_append_of_notMem hfirst, List.idxOf_cons_self, Nat.add_zero]
  have hlen := congrArg List.length h
  rw [List.length_drop, List.length_append, List.length_cons] at hlen
  unfold nextStart?
  rw [hidx]
  by_cases hrest : rest = []
  · rw [if_pos hrest, if_neg]
    rw [hrest, List.length_nil] at hlen
    omega
  · have hpos := List.length_pos_of_ne_nil hrest
    rw [if_neg hrest, if_pos]
    omega

theorem drop_append_zero (h : message.drop start = first ++ 0 :: rest) :
    message.drop (start + first.length + 1) = rest := by
  rw [Nat.add_assoc, ← List.drop_drop, h, ← List.drop_drop, List.drop_left]
  rfl

/-- The walk ends, or it passes a NUL that something follows. -/
theorem starts_succ_cases (message : Bytes) (k start : ℕ) :
    (starts message (k + 1) start = [start] ∧ formsAfter? (k + 1) (message.drop start) = none) ∨
      ∃ first next, 0 ∉ first ∧ message.drop start = first ++ 0 :: message.drop next ∧
        next < message.length ∧ starts message (k + 1) start = start :: starts message k next := by
  by_cases h : 0 ∈ message.drop start
  · obtain ⟨first, rest, hsplit, hfirst⟩ := List.eq_append_cons_of_mem h
    have hnext := nextStart?_append hfirst hsplit
    by_cases hrest : rest = []
    · rw [if_pos hrest] at hnext
      subst hrest
      refine Or.inl ⟨by rw [starts, hnext], ?_⟩
      rw [hsplit, formsAfter?_append_nil hfirst]
    · rw [if_neg hrest] at hnext
      have hdrop := drop_append_zero hsplit
      rw [← hdrop] at hsplit hrest
      have hlt : start + first.length + 1 < message.length := by
        simpa using hrest
      exact Or.inr ⟨first, _, hfirst, hsplit, hlt, by rw [starts, hnext]⟩
  · exact Or.inl ⟨by rw [starts, nextStart?_of_notMem h], formsAfter?_of_notMem h k⟩

theorem le_length_of_mem_starts {k p : ℕ} (hstart : start ≤ message.length)
    (h : p ∈ starts message k start) : p ≤ message.length := by
  induction k generalizing start with
  | zero => rwa [List.mem_singleton.mp h]
  | succ k ih =>
    obtain ⟨hstarts, -⟩ | ⟨first, next, -, -, hlt, hstarts⟩ := starts_succ_cases message k start
    · rw [hstarts, List.mem_singleton] at h
      rwa [h]
    · rw [hstarts] at h
      rcases List.mem_cons.mp h with rfl | h
      · exact hstart
      · exact ih hlt.le h

/-- The walk by places comes to what follows the forms. -/
theorem formsAfter?_eq_starts (message : Bytes) (k start : ℕ) :
    formsAfter? k (message.drop start) = (starts message k start)[k]?.map (message.drop ·) := by
  induction k generalizing start with
  | zero => simp [formsAfter?, starts]
  | succ k ih =>
    obtain ⟨hstarts, hforms⟩ | ⟨first, next, hfirst, hsplit, hlt, hstarts⟩ :=
      starts_succ_cases message k start
    · rw [hforms, hstarts]
      simp
    · have hne : message.drop next ≠ [] := by simpa using hlt
      rw [hsplit, formsAfter?_append _ hfirst hne, hstarts, List.getElem?_cons_succ, ih]

/-- Behind every place but the first there is one part less. -/
theorem length_starts_le (message : Bytes) (k start : ℕ) :
    (starts message k start).length ≤ ((message.drop start).splitOn 0).length := by
  have hpos (s : Bytes) : 0 < (s.splitOn 0).length :=
    (List.getElem?_eq_some_iff.mp (splitOn_head? s)).1
  induction k generalizing start with
  | zero => exact hpos _
  | succ k ih =>
    obtain ⟨hstarts, -⟩ | ⟨first, next, hfirst, hsplit, -, hstarts⟩ :=
      starts_succ_cases message k start
    · rw [hstarts]
      exact hpos _
    · rw [hstarts, hsplit, List.splitOn_append_cons_self_of_not_mem hfirst]
      exact Nat.succ_le_succ (ih next)

end Walk

theorem selectForm_eq_starts (index : Int64) (message : Bytes) :
    selectForm index message = if index < 0 then message
      else ((starts message index.toInt.toNat 0)[index.toInt.toNat]?.map fun p =>
        cString (message.drop p)).getD message := by
  have hforms := formsAfter?_eq_starts message index.toNatClampNeg 0
  rw [List.drop_zero] at hforms
  rw [selectForm, hforms, Int64.toNat_toInt]
  cases (starts message index.toNatClampNeg 0)[index.toNatClampNeg]? with
  | none => rfl
  | some p => rfl

theorem selectForm_eq_getD (index : Int64) (message : Bytes) :
    let parts := message.splitOn 0
    let i := index.toInt.toNat
    selectForm index message =
      if 0 ≤ index.toInt ∧ i < parts.length ∧
        ¬(0 < i ∧ i + 1 = parts.length ∧ parts.getD i [] = []) then parts.getD i []
      else message := by
  intro parts i
  split
  · rename_i h
    obtain ⟨hnonneg, hlt, hlast⟩ := h
    have hget : parts[i]? = some (parts.getD i []) := by simp [hlt]
    exact selectForm_of_isForm (Int.toNat_of_nonneg hnonneg).symm ⟨hget, hlast⟩
  · rename_i h
    apply selectForm_of_not_isForm
    rintro j form hj ⟨hget, hlast⟩
    obtain rfl : i = j := by omega
    have hlt : i < parts.length := (List.getElem?_eq_some_iff.mp hget).1
    have hform : parts.getD i [] = form := by simp [List.getD, parts, hget]
    exact h ⟨by omega, hlt, hform ▸ hlast⟩

/-- A message is cut at its NULs. Every index that a part has selects this part, unless it is an
empty one at the end of several; any other index, a negative one too, selects the whole message. The
walk cuts the message within its bounds, at no more places than there are parts. -/
theorem selectForm_spec (index : Int64) (message : Bytes) :
    let parts := message.splitOn 0
    let i := index.toInt.toNat
    let walk := starts message i 0
    (selectForm index message =
      if 0 ≤ index.toInt ∧ i < parts.length ∧
        ¬(0 < i ∧ i + 1 = parts.length ∧ parts.getD i [] = []) then parts.getD i []
      else message) ∧
    (selectForm index message =
      if index < 0 then message else (walk[i]?.map fun p => cString (message.drop p)).getD message) ∧
    walk.length ≤ parts.length ∧ ∀ p ∈ walk, p ≤ message.length := by
  intro parts i walk
  refine ⟨selectForm_eq_getD index message, selectForm_eq_starts index message, ?_, fun p hp => ?_⟩
  · exact length_starts_le message i 0
  · exact le_length_of_mem_starts (Nat.zero_le _) hp

/-- Behind the last of four parts nothing follows, so the walk ends at the third. -/
theorem selectForm_spec_emptyLast :
    let message := ascii ['a'] ++ 0 :: 0 :: ascii ['b'] ++ [0]
    3 ∈ starts message 3 0 ∧ 3 ≤ message.length ∧ (starts message 3 0).length ≤ 4 ∧
      selectForm 3 message = message := by
  intro message
  have hparts : message.splitOn 0 = [[97], [], [98], []] := by decide
  obtain ⟨hvalue, -, hlength, hwithin⟩ := selectForm_spec 3 message
  rw [hparts] at hvalue hlength
  have hmem : 3 ∈ starts message 3 0 := by decide
  exact ⟨hmem, hwithin 3 hmem, hlength, hvalue⟩

end MessageCatalog.Plural
