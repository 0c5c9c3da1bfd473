import Mathlib.Data.Int.Notation
import Mathlib.Tactic.Common
import MessageCatalog.Plural.Expr

/-!
The value that a plural expression has in C, where it has one: on integers without bounds, undefined
where a quotient has no value or a result is not one of 64 bits, and with only those operands
evaluated that are needed. Wherever it is defined it is the value of the expression.
-/
namespace MessageCatalog.Plural

def InRange (v : ℤ) : Prop := Int64.minValue.toInt ≤ v ∧ v ≤ Int64.maxValue.toInt

instance (v : ℤ) : Decidable (InRange v) := inferInstanceAs (Decidable (_ ∧ _))

namespace Operator

/-- The result when the left operand alone decides it, so that the right one is not evaluated. -/
def decided? (a : ℤ) : Operator → Option ℤ
  | and => if a = 0 then some 0 else none
  | or => if a = 0 then none else some 1
  | _ => none

/-- The result on integers without bounds; quotients are rounded toward zero. -/
def ideal (a b : ℤ) : Operator → ℤ
  | multiply => a * b
  | divide => a.tdiv b
  | remainder => a.tmod b
  | add => a + b
  | subtract => a - b
  | equal => (decide (a = b)).toInt
  | notEqual => (decide (a ≠ b)).toInt
  | less => (decide (a < b)).toInt
  | lessEqual => (decide (a ≤ b)).toInt
  | greater => (decide (b < a)).toInt
  | greaterEqual => (decide (b ≤ a)).toInt
  | and => (decide (a ≠ 0 ∧ b ≠ 0)).toInt
  | or => (decide (a ≠ 0 ∨ b ≠ 0)).toInt

/-- A quotient or remainder by zero, or of the least integer by minus one. -/
def IsUndefined (a b : ℤ) (op : Operator) : Prop :=
  (op = divide ∨ op = remainder) ∧ (b = 0 ∨ a = Int64.minValue.toInt ∧ b = -1)

instance (a b : ℤ) (op : Operator) : Decidable (op.IsUndefined a b) :=
  inferInstanceAs (Decidable (_ ∧ _))

/-- The result in C when both operands are evaluated, if it is defined. -/
def cResult? (a b : ℤ) (op : Operator) : Option ℤ :=
  if op.IsUndefined a b ∨ ¬InRange (op.ideal a b) then none else some (op.ideal a b)

end Operator

/-- The value in C at a count, if it is defined. -/
def Expr.cValue? (n : Int64) : Expr → Option ℤ
  | constant value => some value.toInt
  | count => some n.toInt
  | binary op left right => do
      let a ← left.cValue? n
      match op.decided? a with
      | some v => some v
      | none => op.cResult? a (← right.cValue? n)
  | conditional test yes no => do
      if (← test.cValue? n) ≠ 0 then yes.cValue? n else no.cValue? n

theorem bmod_eq_of_inRange {v : ℤ} (h : InRange v) : v.bmod Int64.size = v := by
  have hlow : Int64.minValue.toInt = -9223372036854775808 := rfl
  have hhigh : Int64.maxValue.toInt = 9223372036854775807 := rfl
  have hsize : Int64.size = 18446744073709551616 := rfl
  obtain ⟨hmin, hmax⟩ := h
  exact Int.bmod_eq_of_le (by omega) (by omega)

@[simp] theorem toInt_truth (b : Bool) : (truth b).toInt = b.toInt := by
  cases b <;> rfl

theorem beq_eq_decide_toInt (a b : Int64) : (a == b) = decide (a.toInt = b.toInt) := by
  rw [beq_eq_decide, decide_eq_decide, Int64.toInt_inj]

theorem bne_eq_decide_toInt (a b : Int64) : (a != b) = decide (a.toInt ≠ b.toInt) := by
  rw [bne, beq_eq_decide_toInt, decide_not]

namespace Operator

variable {op : Operator}

/-- What is replaced by zero is what C leaves undefined. -/
theorem guard_eq (hop : op = divide ∨ op = remainder) (a b : Int64) :
    (b == 0 || a == Int64.minValue && b == -1) = decide (op.IsUndefined a.toInt b.toInt) := by
  have hminus : (-1 : Int64).toInt = -1 := rfl
  rw [beq_eq_decide_toInt, beq_eq_decide_toInt, beq_eq_decide_toInt, Int64.toInt_zero, hminus]
  simp [IsUndefined, hop]

/-- Where C defines the result of two operands, it is the result. -/
theorem toInt_apply {a b : Int64} (hdef : ¬op.IsUndefined a.toInt b.toInt)
    (hrange : InRange (op.ideal a.toInt b.toInt)) :
    (op.apply a b).toInt = op.ideal a.toInt b.toInt := by
  have hbmod := bmod_eq_of_inRange hrange
  cases op with
  | multiply => exact (Int64.toInt_mul a b).trans hbmod
  | add => exact (Int64.toInt_add a b).trans hbmod
  | subtract => exact (Int64.toInt_sub a b).trans hbmod
  | divide =>
    rw [apply, guard_eq (Or.inl rfl), if_neg (by simpa using hdef)]
    exact (Int64.toInt_div a b).trans hbmod
  | remainder =>
    rw [apply, guard_eq (Or.inr rfl), if_neg (by simpa using hdef)]
    exact Int64.toInt_mod a b
  | equal => rw [apply, toInt_truth, beq_eq_decide_toInt, ideal]
  | notEqual => rw [apply, toInt_truth, bne_eq_decide_toInt, ideal]
  | less => simp only [apply, toInt_truth, Int64.lt_iff_toInt_lt, ideal]
  | lessEqual => simp only [apply, toInt_truth, Int64.le_iff_toInt_le, ideal]
  | greater => simp only [apply, toInt_truth, Int64.lt_iff_toInt_lt, ideal]
  | greaterEqual => simp only [apply, toInt_truth, Int64.le_iff_toInt_le, ideal]
  | and =>
    rw [apply, toInt_truth, bne_eq_decide_toInt, bne_eq_decide_toInt, Int64.toInt_zero,
      ← Bool.decide_and, ideal]
  | or =>
    rw [apply, toInt_truth, bne_eq_decide_toInt, bne_eq_decide_toInt, Int64.toInt_zero,
      ← Bool.decide_or, ideal]

theorem toInt_apply_of_cResult? {a b : Int64} {v : ℤ} (h : op.cResult? a.toInt b.toInt = some v) :
    (op.apply a b).toInt = v := by
  unfold cResult? at h
  split_ifs at h with hcases
  obtain ⟨hdef, hrange⟩ := not_or.mp hcases
  rw [toInt_apply hdef (not_not.mp hrange)]
  exact Option.some.inj h

/-- What the left operand decides is the result for every right operand, and defined for each. -/
theorem cResult?_of_decided {a v : ℤ} (h : op.decided? a = some v) (b : ℤ) :
    op.cResult? a b = some v := by
  cases op with
  | and =>
    unfold decided? at h
    split_ifs at h with ha
    obtain rfl := Option.some.inj h
    simp [cResult?, IsUndefined, ideal, ha, show InRange 0 by decide]
  | or =>
    unfold decided? at h
    split_ifs at h with ha
    obtain rfl := Option.some.inj h
    simp [cResult?, IsUndefined, ideal, ha, show InRange 1 by decide]
  | _ => cases h

end Operator

/-- Where C defines the value of an expression, it is the value, although every operand is evaluated
and those that C leaves out may have no value in C. -/
theorem Expr.toInt_eval_of_cValue? {e : Expr} {n : Int64} {v : ℤ} (h : e.cValue? n = some v) :
    (e.eval n).toInt = v := by
  induction e generalizing v with
  | constant value => exact Option.some.inj h
  | count => exact Option.some.inj h
  | binary op left right ihl ihr =>
    obtain ⟨a, ha, h⟩ := Option.bind_eq_some_iff.mp h
    obtain rfl := ihl ha
    -- The right operand counts only where the left one does not decide the result.
    cases hd : op.decided? (left.eval n).toInt with
    | some w =>
      rw [hd] at h
      obtain rfl := Option.some.inj h
      exact Operator.toInt_apply_of_cResult? (Operator.cResult?_of_decided hd (right.eval n).toInt)
    | none =>
      rw [hd] at h
      obtain ⟨b, hb, h⟩ := Option.bind_eq_some_iff.mp h
      obtain rfl := ihr hb
      exact Operator.toInt_apply_of_cResult? h
  | conditional test yes no iht ihy ihn =>
    obtain ⟨a, ha, h⟩ := Option.bind_eq_some_iff.mp h
    obtain rfl := iht ha
    have htest : (test.eval n != 0) = decide ((test.eval n).toInt ≠ 0) :=
      bne_eq_decide_toInt _ _
    simp only [eval, htest, decide_eq_true_eq]
    split_ifs at h ⊢
    · exact ihy h
    · exact ihn h

/-- At zero the operands that divide by zero, overflow or have no quotient are those left out. -/
def Expr.guarded : Expr :=
  .conditional
    (.binary .or (.binary .equal .count (.constant 0)) (.binary .divide (.constant 1) .count))
    (.binary .subtract (.binary .remainder (.constant (-13)) (.constant 10))
      (.binary .and .count (.binary .add (.constant Int64.maxValue) (.constant 1))))
    (.binary .divide (.constant Int64.minValue) (.constant (-1)))

theorem Expr.toInt_eval_guarded :
    guarded.cValue? 0 = some (-3) ∧ (guarded.eval 0).toInt = -3 := by
  have h : guarded.cValue? 0 = some (-3) := by decide
  exact ⟨h, toInt_eval_of_cValue? h⟩

end MessageCatalog.Plural
