import MessageCatalog.Proofs.Plural.Reading

/-! Every expression read has no more operators than were counted, and no constant out of range. -/
namespace MessageCatalog.Plural

namespace Expr

/-- How many operators and conditions there are. -/
def nodes : Expr → ℕ
  | constant _ | count => 0
  | binary _ left right => left.nodes + right.nodes + 1
  | conditional test yes no => test.nodes + yes.nodes + no.nodes + 1

def constants : Expr → List Int64
  | constant value => [value]
  | count => []
  | binary _ left right => left.constants ++ right.constants
  | conditional test yes no => test.constants ++ (yes.constants ++ no.constants)

/-- The constants are numbers that digits with or without a sign can spell. -/
def Spellable (e : Expr) : Prop := ∀ v ∈ e.constants, -maxConstant ≤ v.toInt

theorem Spellable.binary {left right : Expr} (hl : left.Spellable) (hr : right.Spellable)
    (op : Operator) : (binary op left right).Spellable := by
  intro v hv
  rcases List.mem_append.mp hv with hv | hv
  · exact hl v hv
  · exact hr v hv

theorem Spellable.conditional {test yes no : Expr} (ht : test.Spellable) (hy : yes.Spellable)
    (hn : no.Spellable) : (conditional test yes no).Spellable := by
  intro v hv
  rcases List.mem_append.mp hv with hv | hv
  · exact ht v hv
  · rcases List.mem_append.mp hv with hv | hv
    · exact hy v hv
    · exact hn v hv

end Expr

theorem toInt_literal (value : ℕ) : (literal value).toInt = min value maxConstant := by
  unfold literal
  apply Int64.toInt_ofNat_of_lt
  show min value 9223372036854775807 < 9223372036854775808
  omega

theorem toInt_neg_literal (value : ℕ) : (-literal value).toInt = -min value maxConstant := by
  unfold literal
  apply Int64.toInt_neg_ofNat_of_le
  show min value 9223372036854775807 ≤ 9223372036854775808
  omega

/-- The operators of the expression are among those counted. -/
structure Reading.Bounded (r : Reading) : Prop where
  nodes_le : r.expr.nodes ≤ r.nodes
  spellable : r.expr.Spellable

def Bounded (read : Reader) : Prop := ∀ ts r, read ts = some r → r.Bounded

theorem bounded_constant {v : Int64} (h : -maxConstant ≤ v.toInt) (nodes : ℕ)
    (rest : List Token) : Reading.Bounded ⟨.constant v, nodes, rest⟩ := by
  constructor
  · exact Nat.zero_le _
  · intro w hw
    rwa [List.mem_singleton.mp hw]

theorem bounded_atom {group : Reader} (hg : Bounded group) : Bounded (atom group) := by
  have hzero : -(maxConstant : Int) ≤ Int64.toInt 0 := by decide
  intro ts r h
  unfold atom at h
  split at h
  · -- a group, closed or not
    obtain ⟨inner, hinner, rfl⟩ := Option.map_eq_some_iff.mp h
    have hb := hg _ _ hinner
    split
    · exact ⟨hb.nodes_le, hb.spellable⟩
    · exact bounded_constant hzero _ _
  · obtain rfl := Option.some.inj h
    exact ⟨Nat.zero_le _, fun v hv => absurd hv List.not_mem_nil⟩
  · obtain rfl := Option.some.inj h
    apply bounded_constant
    rw [toInt_literal]
    omega
  · obtain rfl := Option.some.inj h
    apply bounded_constant
    rw [toInt_neg_literal]
    omega
  · obtain rfl := Option.some.inj h
    exact bounded_constant hzero _ _

/-- A chain that was read ends at once, or it goes on with one more operator and operand. -/
theorem extend_eq_some {level budget : ℕ} {operand : Reader} {left r : Reading}
    (h : extend level operand budget left = some r) :
    (operatorAt? level left.rest = none ∧ left = r) ∨
      ∃ op rest right, ∃ k < budget, operatorAt? level left.rest = some (op, rest) ∧
        operand rest = some right ∧ extend level operand k
          ⟨.binary op left.expr right.expr, left.nodes + right.nodes + 1, right.rest⟩ = some r := by
  cases hnext : operatorAt? level left.rest with
  | none =>
    rw [extend_of_none hnext] at h
    exact Or.inl ⟨rfl, Option.some.inj h⟩
  | some next =>
    cases budget with
    | zero =>
      rw [extend_zero hnext] at h
      cases h
    | succ budget =>
      rw [extend_succ hnext] at h
      obtain ⟨right, hright, h⟩ := Option.bind_eq_some_iff.mp h
      exact Or.inr ⟨next.1, next.2, right, budget, Nat.lt_succ_self _, rfl, hright, h⟩

section Tiers

variable {p : Reading → Prop}
  (hjoin : ∀ op left right, p left → p right →
    p ⟨.binary op left.expr right.expr, left.nodes + right.nodes + 1, right.rest⟩)
include hjoin

theorem of_extend {operand : Reader} (ho : ∀ ts r, operand ts = some r → p r) (level budget : ℕ)
    {left r : Reading} (hl : p left) (h : extend level operand budget left = some r) : p r := by
  induction budget using Nat.strongRecOn generalizing left with
  | ind budget ih =>
    obtain ⟨-, rfl⟩ | ⟨op, rest, right, k, hk, -, hright, h⟩ := extend_eq_some h
    · exact hl
    · exact ih k hk (hjoin op left right hl (ho _ _ hright)) h

/-- What holds of every operand, and of operators where it holds of their sides, holds of all that is
read of them. -/
theorem of_tier {group : Reader} (hatom : ∀ ts r, atom group ts = some r → p r) (k : ℕ) :
    ∀ ts r, tier group k ts = some r → p r := by
  induction k with
  | zero => exact hatom
  | succ k ih =>
    intro ts r h
    rw [tier_succ] at h
    obtain ⟨left, hleft, h⟩ := Option.bind_eq_some_iff.mp h
    exact of_extend hjoin ih k maxNodes (ih _ _ hleft) h

end Tiers

theorem bounded_tier {group : Reader} (hg : Bounded group) (k : ℕ) : Bounded (tier group k) := by
  apply of_tier _ (bounded_atom hg)
  intro op left right hl hr
  constructor
  · exact Nat.succ_le_succ (Nat.add_le_add hl.nodes_le hr.nodes_le)
  · exact hl.spellable.binary hr.spellable op

theorem bounded_conditional {branch : Reader} (hb : Bounded branch) :
    Bounded (conditional branch) := by
  intro ts r h
  unfold conditional at h
  obtain ⟨test, htest, h⟩ := Option.bind_eq_some_iff.mp h
  have ht := bounded_tier hb _ _ _ htest
  split at h
  · obtain ⟨yes, hyes, h⟩ := Option.bind_eq_some_iff.mp h
    have hy := hb _ _ hyes
    split at h
    · obtain ⟨no, hno, h⟩ := Option.bind_eq_some_iff.mp h
      have hn := hb _ _ hno
      obtain rfl := Option.some.inj h
      refine ⟨?_, ht.spellable.conditional hy.spellable hn.spellable⟩
      exact Nat.succ_le_succ
        (Nat.add_le_add (Nat.add_le_add ht.nodes_le hy.nodes_le) hn.nodes_le)
    · obtain rfl := Option.some.inj h
      exact ⟨Nat.le_add_right_of_le ht.nodes_le, ht.spellable⟩
  · rwa [← Option.some.inj h]

theorem bounded_nested (depth : ℕ) : Bounded (nested depth) := by
  induction depth with
  | zero =>
    intro ts r h
    cases h
  | succ depth ih => exact bounded_conditional ih

namespace Expr

theorem ofBytes?_eq_some {s : Bytes} {e : Expr} (h : ofBytes? s = some e) :
    e.nodes ≤ maxNodes ∧ e.Spellable := by
  unfold ofBytes? ofTokens? at h
  obtain ⟨r, hr, h⟩ := Option.bind_eq_some_iff.mp h
  have hb := bounded_nested _ _ _ hr
  split at h
  · rename_i hfits
    obtain rfl := Option.some.inj h
    have hn : r.nodes ≤ maxNodes := by
      rw [Bool.and_eq_true, decide_eq_true_eq] at hfits
      exact hfits.2
    exact ⟨Nat.le_trans hb.nodes_le hn, hb.spellable⟩
  · cases h

end Expr

end MessageCatalog.Plural
