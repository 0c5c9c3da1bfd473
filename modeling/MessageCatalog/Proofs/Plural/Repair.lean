import Mathlib.Data.List.Chain
import MessageCatalog.Proofs.Plural.Bounds

/-!
What reads as an expression without being one. An operand may be missing, a group may stay open and
a condition may lack its second branch, but no token is skipped: whatever is read takes tokens in
which parentheses and branches close no more than was opened, and operands stand apart.
-/
namespace MessageCatalog.Plural

/-- Tokens of an expression, or of what is repaired to one. -/
inductive Repaired : List Token → Prop
  | missing : Repaired []
  | number (value : ℕ) : Repaired [.number value]
  | negative (value : ℕ) : Repaired [.minus true, .number value]
  | count : Repaired [.count]
  | group {inner : List Token} (h : Repaired inner) : Repaired (.opening :: (inner ++ [.closing]))
  | unclosed {inner : List Token} (h : Repaired inner) : Repaired (.opening :: inner)
  | join {left right : List Token} {t : Token} {op : Operator} (ht : t.operator? = some op)
      (hl : Repaired left) (hr : Repaired right) : Repaired (left ++ t :: right)
  | test {test yes : List Token} (ht : Repaired test) (hy : Repaired yes) :
      Repaired (test ++ .question :: yes)
  | conditional {test yes no : List Token} (ht : Repaired test) (hy : Repaired yes)
      (hn : Repaired no) : Repaired (test ++ .question :: (yes ++ .colon :: no))

/-- What was taken off the tokens is an expression or was repaired. -/
def Reading.Follows (r : Reading) (ts : List Token) : Prop :=
  ∃ taken, ts = taken ++ r.rest ∧ Repaired taken

/-- No token is skipped by what is read. -/
def Consumes (read : Reader) : Prop := ∀ ts r, read ts = some r → r.Follows ts

theorem consumes_atom {group : Reader} (hg : Consumes group) : Consumes (atom group) := by
  intro ts r h
  unfold atom at h
  split at h
  · -- a group, closed or not
    rename_i rest
    obtain ⟨inner, hinner, rfl⟩ := Option.map_eq_some_iff.mp h
    obtain ⟨taken, htaken, hrep⟩ := hg _ _ hinner
    split
    · rename_i after hclosing
      refine ⟨_, ?_, hrep.group⟩
      rw [htaken, hclosing]
      simp
    · refine ⟨_, ?_, hrep.unclosed⟩
      rw [htaken]
      rfl
  · obtain rfl := Option.some.inj h
    exact ⟨_, rfl, .count⟩
  · obtain rfl := Option.some.inj h
    exact ⟨_, rfl, .number _⟩
  · obtain rfl := Option.some.inj h
    exact ⟨_, rfl, .negative _⟩
  · obtain rfl := Option.some.inj h
    exact ⟨_, rfl, .missing⟩

theorem operatorAt?_eq_some {level : ℕ} {ts rest : List Token} {op : Operator}
    (h : operatorAt? level ts = some (op, rest)) :
    ∃ t, t.operator? = some op ∧ ts = t :: rest := by
  cases ts with
  | nil => cases h
  | cons t ts =>
    obtain ⟨op', hop, heq⟩ := Option.map_eq_some_iff.mp h
    obtain ⟨rfl, rfl⟩ := Prod.mk.inj heq
    exact ⟨t, (Option.filter_eq_some_iff.mp hop).1, rfl⟩

theorem follows_extend {operand : Reader} (ho : Consumes operand) (level budget : ℕ)
    {left r : Reading} {ts : List Token} (hl : left.Follows ts)
    (h : extend level operand budget left = some r) : r.Follows ts := by
  induction budget using Nat.strongRecOn generalizing left with
  | ind budget ih =>
    obtain ⟨-, rfl⟩ | ⟨op, rest, right, k, hk, hop, hright, h⟩ := extend_eq_some h
    · exact hl
    · obtain ⟨first, hfirst, hleft⟩ := hl
      obtain ⟨t, ht, hrest⟩ := operatorAt?_eq_some hop
      obtain ⟨second, hsecond, hrep⟩ := ho _ _ hright
      apply ih k hk _ h
      refine ⟨_, ?_, hleft.join ht hrep⟩
      rw [hfirst, hrest, hsecond]
      simp

theorem consumes_tier {group : Reader} (hg : Consumes group) (k : ℕ) : Consumes (tier group k) := by
  induction k with
  | zero => exact consumes_atom hg
  | succ k ih =>
    intro ts r h
    rw [tier_succ] at h
    obtain ⟨left, hleft, h⟩ := Option.bind_eq_some_iff.mp h
    exact follows_extend ih k maxNodes (ih _ _ hleft) h

theorem consumes_conditional {branch : Reader} (hb : Consumes branch) :
    Consumes (conditional branch) := by
  intro ts r h
  unfold conditional at h
  obtain ⟨test, htest, h⟩ := Option.bind_eq_some_iff.mp h
  obtain ⟨first, hfirst, ht⟩ := consumes_tier hb _ _ _ htest
  split at h
  · rename_i rest hquestion
    obtain ⟨yes, hyes, h⟩ := Option.bind_eq_some_iff.mp h
    obtain ⟨second, hsecond, hy⟩ := hb _ _ hyes
    split at h
    · rename_i rest' hcolon
      obtain ⟨no, hno, h⟩ := Option.bind_eq_some_iff.mp h
      obtain ⟨third, hthird, hn⟩ := hb _ _ hno
      obtain rfl := Option.some.inj h
      refine ⟨_, ?_, ht.conditional hy hn⟩
      rw [hfirst, hquestion, hsecond, hcolon, hthird]
      simp
    · obtain rfl := Option.some.inj h
      refine ⟨_, ?_, ht.test hy⟩
      rw [hfirst, hquestion, hsecond]
      simp
  · obtain rfl := Option.some.inj h
    exact ⟨first, hfirst, ht⟩

theorem consumes_nested (depth : ℕ) : Consumes (nested depth) := by
  induction depth with
  | zero =>
    intro ts r h
    cases h
  | succ depth ih => exact consumes_conditional ih

theorem repaired_of_ofTokens? {ts : List Token} {e : Expr} (h : Expr.ofTokens? ts = some e) :
    Repaired ts := by
  unfold Expr.ofTokens? at h
  obtain ⟨r, hr, h⟩ := Option.bind_eq_some_iff.mp h
  obtain ⟨taken, htaken, hrep⟩ := consumes_nested _ _ _ hr
  split at h
  · rename_i hfits
    rw [Bool.and_eq_true, List.isEmpty_iff] at hfits
    rw [htaken, hfits.1, List.append_nil]
    exact hrep
  · cases h

section Balanced

variable {α : Type} [BEq α] {opening closing : α}

/-- No more is closed than was opened, at any point. -/
def Balanced (opening closing : α) (l : List α) : Prop :=
  ∀ u, u <+: l → u.count closing ≤ u.count opening

theorem balanced_nil : Balanced opening closing [] := by
  intro u hu
  rw [List.prefix_nil.mp hu, List.count_nil, List.count_nil]

theorem Balanced.append {a b : List α} (ha : Balanced opening closing a)
    (hb : Balanced opening closing b) : Balanced opening closing (a ++ b) := by
  intro u hu
  rcases List.prefix_or_prefix_of_prefix hu (List.prefix_append a b) with h | ⟨v, rfl⟩
  · exact ha u h
  · have hv : v <+: b := (List.prefix_append_right_inj a).mp hu
    have hsum := Nat.add_le_add (ha a List.prefix_rfl) (hb v hv)
    rwa [← List.count_append, ← List.count_append] at hsum

variable [LawfulBEq α]

theorem Balanced.cons {t : α} (ht : t ≠ closing) {l : List α} (hl : Balanced opening closing l) :
    Balanced opening closing (t :: l) := by
  intro u hu
  rcases List.prefix_cons_iff.mp hu with rfl | ⟨v, rfl, hv⟩
  · rw [List.count_nil, List.count_nil]
  · rw [List.count_cons_of_ne ht]
    exact (hl v hv).trans (List.count_le_count_cons ..)

theorem Balanced.enclose (hne : opening ≠ closing) {l : List α}
    (hl : Balanced opening closing l) :
    Balanced opening closing (opening :: (l ++ [closing])) := by
  intro u hu
  rcases List.prefix_cons_iff.mp hu with rfl | ⟨v, rfl, hv⟩
  · rw [List.count_nil, List.count_nil]
  · rw [List.count_cons_of_ne hne, List.count_cons_self]
    rcases List.prefix_concat_iff.mp hv with rfl | hv
    · have h := hl l List.prefix_rfl
      have hone : List.count closing [closing] = 1 := List.count_singleton_self
      rw [List.count_append, List.count_append]
      omega
    · exact (hl v hv).trans (Nat.le_succ _)

end Balanced

namespace Token

/-- A number, the count, or the given bracket of a group. -/
def edge (bracket : Token) : Token → Bool
  | number _ | count => true
  | t => t == bracket

variable {t u : Token} {op : Operator}

theorem ne_of_operator (h : t.operator? = some op) (hu : u.operator? = none) : t ≠ u := by
  rintro rfl
  rw [hu] at h
  cases h

theorem edge_operator (h : t.operator? = some op) (hu : u.operator? = none) :
    edge u t = false := by
  have hne : (t == u) = false := beq_eq_false_iff_ne.mpr (ne_of_operator h hu)
  cases t with
  | minus joined => exact hne
  | operator op => exact hne
  | _ => cases h

end Token

/-- No operand stands next to another one. -/
def Apart (ts : List Token) : Prop :=
  ts.IsChain fun t t' => Token.edge .closing t → ¬Token.edge .opening t'

section Apart

variable {left right : List Token} {t : Token}

theorem apart_singleton (t : Token) : Apart [t] := List.isChain_singleton t

theorem Apart.cons (hr : Apart right) (ht : Token.edge .closing t = false) : Apart (t :: right) := by
  unfold Apart
  rw [List.isChain_cons]
  refine ⟨?_, hr⟩
  intro _ _ hends
  rw [ht] at hends
  cases hends

theorem Apart.append (hl : Apart left) (hr : Apart (t :: right)) (ht : Token.edge .opening t = false) :
    Apart (left ++ t :: right) := by
  unfold Apart
  rw [List.isChain_append]
  refine ⟨hl, hr, ?_⟩
  intro _ _ y hy _ hstarts
  obtain rfl := Option.some.inj hy
  rw [ht] at hstarts
  cases hstarts

end Apart

namespace Repaired

open Token

variable {ts : List Token} (h : Repaired ts)
include h

theorem stray_notMem : .stray ∉ ts := by
  induction h with
  | missing => exact List.not_mem_nil
  | number value => simp
  | negative value => simp
  | count => simp
  | group _ ih => simpa using ih
  | unclosed _ ih => simpa using ih
  | join ht _ _ ihl ihr =>
    have hne := (ne_of_operator ht rfl : _ ≠ Token.stray).symm
    simp [ihl, ihr, hne]
  | test _ _ iht ihy => simp [iht, ihy]
  | conditional _ _ _ iht ihy ihn => simp [iht, ihy, ihn]

theorem balanced_groups : Balanced .opening .closing ts := by
  induction h with
  | missing => exact balanced_nil
  | number value => exact balanced_nil.cons (by simp)
  | negative value => exact (balanced_nil.cons (by simp)).cons (by simp)
  | count => exact balanced_nil.cons (by simp)
  | group _ ih => exact ih.enclose (by simp)
  | unclosed _ ih => exact ih.cons (by simp)
  | join ht _ _ ihl ihr => exact ihl.append (ihr.cons (ne_of_operator ht rfl))
  | test _ _ iht ihy => exact iht.append (ihy.cons (by simp))
  | conditional _ _ _ iht ihy ihn =>
    exact iht.append ((ihy.append (ihn.cons (by simp))).cons (by simp))

theorem balanced_branches : Balanced .question .colon ts := by
  induction h with
  | missing => exact balanced_nil
  | number value => exact balanced_nil.cons (by simp)
  | negative value => exact (balanced_nil.cons (by simp)).cons (by simp)
  | count => exact balanced_nil.cons (by simp)
  | group _ ih => exact (ih.append (balanced_nil.cons (by simp))).cons (by simp)
  | unclosed _ ih => exact ih.cons (by simp)
  | join ht _ _ ihl ihr => exact ihl.append (ihr.cons (ne_of_operator ht rfl))
  | test _ _ iht ihy => exact iht.append (ihy.cons (by simp))
  | conditional _ _ _ iht ihy ihn =>
    -- The first branch is enclosed, and the second follows it.
    have henclosed := iht.append ((ihy.enclose (by simp)).append ihn)
    simpa using henclosed

theorem apart : Apart ts := by
  induction h with
  | missing => exact List.isChain_nil
  | number value => exact apart_singleton _
  | negative value => exact (apart_singleton _).cons rfl
  | count => exact apart_singleton _
  | group _ ih => exact (ih.append (apart_singleton _) rfl).cons rfl
  | unclosed _ ih => exact ih.cons rfl
  | join ht _ _ ihl ihr =>
    exact ihl.append (ihr.cons (edge_operator ht rfl)) (edge_operator ht rfl)
  | test _ _ iht ihy => exact iht.append (ihy.cons rfl) rfl
  | conditional _ _ _ iht ihy ihn =>
    exact iht.append ((ihy.append (ihn.cons rfl) rfl).cons rfl) rfl

end Repaired

end MessageCatalog.Plural
