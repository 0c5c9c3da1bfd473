import MessageCatalog.Text.Basic

/-! Plural expressions: the tree that a catalog declares, its value at a count, and its text. -/
namespace MessageCatalog.Plural

inductive Operator
  | multiply | divide | remainder
  | add | subtract
  | equal | notEqual | less | lessEqual | greater | greaterEqual
  | and | or
deriving DecidableEq, Repr

def truth (b : Bool) : Int64 := if b then 1 else 0

namespace Operator

/-- Sums and products wrap; a quotient or remainder without a 64-bit value is zero. -/
def apply (a b : Int64) : Operator → Int64
  | multiply => a * b
  | divide => if b == 0 || a == Int64.minValue && b == -1 then 0 else a / b
  | remainder => if b == 0 || a == Int64.minValue && b == -1 then 0 else a % b
  | add => a + b
  | subtract => a - b
  | equal => truth (a == b)
  | notEqual => truth (a != b)
  | less => truth (a < b)
  | lessEqual => truth (a ≤ b)
  | greater => truth (b < a)
  | greaterEqual => truth (b ≤ a)
  | and => truth (a != 0 && b != 0)
  | or => truth (a != 0 || b != 0)

def symbol : Operator → List Char
  | multiply => ['*']
  | divide => ['/']
  | remainder => ['%']
  | add => ['+']
  | subtract => ['-']
  | equal => ['=', '=']
  | notEqual => ['!', '=']
  | less => ['<']
  | lessEqual => ['<', '=']
  | greater => ['>']
  | greaterEqual => ['>', '=']
  | and => ['&', '&']
  | or => ['|', '|']

/-- How many levels of operators bind tighter. -/
def level : Operator → Nat
  | multiply | divide | remainder => 0
  | add | subtract => 1
  | equal | notEqual | less | lessEqual | greater | greaterEqual => 2
  | and => 3
  | or => 4

def levels : Nat := 5

theorem level_lt_levels (op : Operator) : op.level < levels := by cases op <;> decide

end Operator

inductive Expr
  | constant (value : Int64)
  | count
  | binary (op : Operator) (left right : Expr)
  | conditional (test yes no : Expr)
deriving DecidableEq, Repr, Inhabited

namespace Expr

/-- The value at a count; both sides of an operator are always evaluated. -/
def eval (n : Int64) : Expr → Int64
  | constant value => value
  | count => n
  | binary op left right => op.apply (left.eval n) (right.eval n)
  | conditional test yes no => if test.eval n != 0 then yes.eval n else no.eval n

/-- The rule of languages with one form for one thing and another for any other number. -/
def notOne : Expr := binary .notEqual count (constant 1)

/-- Every operator and condition stands in parentheses of its own. -/
def chars : Expr → List Char
  | constant value => Text.decimal value.toInt
  | count => ['n']
  | binary op left right => '(' :: left.chars ++ ' ' :: op.symbol ++ ' ' :: right.chars ++ [')']
  | conditional test yes no =>
      '(' :: test.chars ++ [' ', '?', ' '] ++ yes.chars ++ [' ', ':', ' '] ++ no.chars ++ [')']

def text (e : Expr) : String := String.ofList e.chars

end Expr

end MessageCatalog.Plural
