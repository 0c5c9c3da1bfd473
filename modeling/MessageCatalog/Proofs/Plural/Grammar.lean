import Mathlib.Data.Nat.Init
import Mathlib.Tactic.Common
import MessageCatalog.Plural.Parse

/-!
The grammar of plural expressions, its derivations, and the texts that a derivation can have. The
symbols, from the loosest to the tightest:

* `T → O | O ? T : T`, a whole expression;
* `O → A | O || A`, `A → C | A && C`, `C → S | C (== != < <= > >=) S`, `S → F | S (+ -) F` and
  `F → P | F (* / %) P`, the operands of levels five to one;
* `P → digits | -digits | n | ( T )`, the operands of level zero.
-/
namespace MessageCatalog.Plural

inductive Symbol
  | whole
  | operand (level : ℕ)

/-- The operators that make an operand of a level. -/
def joining : ℕ → List Operator
  | 1 => [.multiply, .divide, .remainder]
  | 2 => [.add, .subtract]
  | 3 => [.equal, .notEqual, .less, .lessEqual, .greater, .greaterEqual]
  | 4 => [.and]
  | 5 => [.or]
  | _ => []

/-- One digit or more. -/
def Numeral (digits : Bytes) : Prop := digits ≠ [] ∧ ∀ b ∈ digits, isDigit b

instance (digits : Bytes) : Decidable (Numeral digits) :=
  @instDecidableAnd _ _ _ (List.decidableBAll (fun b => isDigit b) digits)

def natural (digits : Bytes) : ℕ := digits.foldl (fun v b => 10 * v + (b.toNat - 48)) 0

/-- The largest 64-bit number where the number is above it. -/
def saturated (value : ℕ) : Int64 := Int64.ofInt (min value Int64.maxValue.toInt)

inductive Derivation : Symbol → Type
  | number (digits : Bytes) (h : Numeral digits) : Derivation (.operand 0)
  | negative (digits : Bytes) (h : Numeral digits) : Derivation (.operand 0)
  | count : Derivation (.operand 0)
  | group (inner : Derivation .whole) : Derivation (.operand 0)
  | single {k : ℕ} (body : Derivation (.operand k)) : Derivation (.operand (k + 1))
  | join {k : ℕ} (left : Derivation (.operand (k + 1))) (op : Operator)
      (h : op ∈ joining (k + 1)) (right : Derivation (.operand k)) : Derivation (.operand (k + 1))
  | plain (body : Derivation (.operand 5)) : Derivation .whole
  | conditional (test : Derivation (.operand 5)) (yes no : Derivation .whole) : Derivation .whole

namespace Derivation

def tree {s : Symbol} : Derivation s → Expr
  | number digits _ => .constant (saturated (natural digits))
  | negative digits _ => .constant (-saturated (natural digits))
  | count => .count
  | group inner => inner.tree
  | single body => body.tree
  | join left op _ right => .binary op left.tree right.tree
  | plain body => body.tree
  | conditional test yes no => .conditional test.tree yes.tree no.tree

/-- The most symbols `T` on a path. -/
def nesting {s : Symbol} : Derivation s → ℕ
  | number _ _ | negative _ _ | count => 0
  | group inner => inner.nesting
  | single body => body.nesting
  | join left _ _ right => max left.nesting right.nesting
  | plain body => body.nesting + 1
  | conditional test yes no => max test.nesting (max yes.nesting no.nesting) + 1

def applications {s : Symbol} : Derivation s → ℕ
  | number _ _ | negative _ _ | count => 0
  | group inner => inner.applications
  | single body => body.applications
  | join left _ _ right => left.applications + right.applications + 1
  | plain body => body.applications
  | conditional test yes no => test.applications + yes.applications + no.applications + 1

def lexemes {s : Symbol} : Derivation s → List Bytes
  | number digits _ => [digits]
  | negative digits _ => [45 :: digits]
  | count => [ascii ['n']]
  | group inner => ascii ['('] :: (inner.lexemes ++ [ascii [')']])
  | single body => body.lexemes
  | join left op _ right => left.lexemes ++ ascii op.symbol :: right.lexemes
  | plain body => body.lexemes
  | conditional test yes no =>
      test.lexemes ++ ascii ['?'] :: (yes.lexemes ++ ascii [':'] :: no.lexemes)

/-- An operand of a level as one of a looser level. -/
def raise {j k : ℕ} (h : j ≤ k) (d : Derivation (.operand j)) : Derivation (.operand k) :=
  Nat.leRecOn (C := fun k => Derivation (.operand k)) h single d

def loose (d : Derivation (.operand 0)) : Derivation (.operand 5) := d.raise (Nat.zero_le 5)

variable {j k : ℕ} (h : j ≤ k) (d : Derivation (.operand j))

/-- What does not see `single` does not see `raise`. -/
theorem raise_eq {α : Type} (f : {k : ℕ} → Derivation (.operand k) → α)
    (hf : ∀ {k : ℕ} (d : Derivation (.operand k)), f d.single = f d) : f (d.raise h) = f d := by
  induction h with
  | refl => rw [raise, Nat.leRecOn_self]
  | step h ih =>
    rw [raise, Nat.leRecOn_succ h, hf]
    exact ih

@[simp] theorem tree_raise : (d.raise h).tree = d.tree :=
  d.raise_eq h (fun d => d.tree) fun _ => rfl

@[simp] theorem nesting_raise : (d.raise h).nesting = d.nesting :=
  d.raise_eq h (fun d => d.nesting) fun _ => rfl

@[simp] theorem applications_raise : (d.raise h).applications = d.applications :=
  d.raise_eq h (fun d => d.applications) fun _ => rfl

@[simp] theorem lexemes_raise : (d.raise h).lexemes = d.lexemes :=
  d.raise_eq h (fun d => d.lexemes) fun _ => rfl

end Derivation

def Blanks (s : Bytes) : Prop := ∀ b ∈ s, b = 32 ∨ b = 9

instance (s : Bytes) : Decidable (Blanks s) := List.decidableBAll (fun b => b = 32 ∨ b = 9) s

/-- A text of tokens, with blanks before, between and after them. -/
def Layout : List Bytes → Bytes → Prop
  | [], text => Blanks text
  | lexeme :: lexemes, text =>
      ∃ blanks rest, Blanks blanks ∧ text = blanks ++ lexeme ++ rest ∧ Layout lexemes rest

/-- Nothing, or a NUL, a semicolon or the end of a line and whatever follows it. -/
def Ended (tail : Bytes) : Prop :=
  tail = [] ∨ ∃ b rest, tail = b :: rest ∧ (b = 0 ∨ b = 59 ∨ b = 13 ∨ b = 10)

end MessageCatalog.Plural
