import MessageCatalog.Plural.Token

/-!
Reading a plural expression. A missing operand and an unclosed parenthesis read as zero, and a
question mark without its colon leaves the condition alone; so only tokens left over, nesting
above `maxDepth` or more than `maxNodes` operators make an expression unreadable.
-/
namespace MessageCatalog.Plural

def maxDepth : Nat := 64

def maxNodes : Nat := 1024

/-- An expression read, the operators built for it (dropped ones too), and the tokens after it. -/
structure Reading where
  expr : Expr
  nodes : Nat
  rest : List Token
deriving DecidableEq, Repr

/-- `none` where the nesting or the operators are over their limit. -/
abbrev Reader := List Token → Option Reading

def literal (value : Nat) : Int64 := Int64.ofNat (min value maxConstant)

/-- A number, the count or a group; zero, reading nothing, where none of these stands. -/
def atom (group : Reader) : Reader
  | .opening :: rest =>
      (group rest).map fun inner =>
        match inner.rest with
        | .closing :: rest => { inner with rest }
        | rest => ⟨.constant 0, inner.nodes, rest⟩
  | .count :: rest => some ⟨.count, 0, rest⟩
  | .number value :: rest => some ⟨.constant (literal value), 0, rest⟩
  | .minus true :: .number value :: rest => some ⟨.constant (-literal value), 0, rest⟩
  | rest => some ⟨.constant 0, 0, rest⟩

def operatorAt? (level : Nat) : List Token → Option (Operator × List Token)
  | t :: rest => (t.operator?.filter (·.level == level)).map (·, rest)
  | [] => none

/-- Further operands of one level, grouped from the left. -/
def extend (level : Nat) (operand : Reader) : Nat → Reading → Option Reading
  | budget, left =>
      match operatorAt? level left.rest with
      | none => some left
      | some (op, rest) =>
          match budget with
          | 0 => none
          | budget + 1 => do
              let right ← operand rest
              extend level operand budget
                ⟨.binary op left.expr right.expr, left.nodes + right.nodes + 1, right.rest⟩

/-- Operators of the first `k` levels over atoms. -/
def tier (group : Reader) : Nat → Reader
  | 0, ts => atom group ts
  | k + 1, ts => do extend k (tier group k) maxNodes (← tier group k ts)

def conditional (branch : Reader) : Reader := fun ts => do
  let test ← tier branch Operator.levels ts
  match test.rest with
  | .question :: rest =>
      let yes ← branch rest
      match yes.rest with
      | .colon :: rest =>
          let no ← branch rest
          some ⟨.conditional test.expr yes.expr no.expr, test.nodes + yes.nodes + no.nodes + 1,
            no.rest⟩
      | rest => some ⟨test.expr, test.nodes + yes.nodes, rest⟩
  | _ => some test

/-- An expression with at most the given number of levels of nesting. -/
def nested : Nat → Reader
  | 0, _ => none
  | depth + 1, ts => conditional (nested depth) ts

namespace Expr

def ofTokens? (ts : List Token) : Option Expr := do
  let r ← nested maxDepth ts
  if r.rest.isEmpty && r.nodes ≤ maxNodes then some r.expr else none

/-- The expression before the first terminator. -/
def ofBytes? (s : Bytes) : Option Expr := ofTokens? (Token.scan s)

def ofText? (s : String) : Option Expr := ofBytes? (utf8 s)

end Expr

end MessageCatalog.Plural
