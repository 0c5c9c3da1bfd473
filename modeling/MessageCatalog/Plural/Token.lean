import MessageCatalog.Bytes
import MessageCatalog.Plural.Expr

/-!
Tokens of a plural expression. The bytes are scanned one at a time; what is begun and not yet
finished is a `Pending` token, so a blank ends it and a second byte may complete it.
-/
namespace MessageCatalog.Plural

inductive Token
  | number (value : Nat)
  | count
  | opening
  | closing
  | question
  | colon
  /-- A minus sign, and whether a digit follows it at once. -/
  | minus (joined : Bool)
  | operator (op : Operator)
  /-- A byte that no token starts with, or the first half of a two-byte operator alone. -/
  | stray
deriving DecidableEq, Repr

/-- The largest constant; longer digit strings read as this value. -/
def maxConstant : Nat := 0x7fffffffffffffff

/-- A NUL, a semicolon or the end of a line ends an expression. -/
def isTerminator (b : UInt8) : Bool := b == 0 || b == 59 || b == 13 || b == 10

/-- The token begun by the bytes read last. -/
inductive Pending
  | nothing
  | number (value : Nat)
  | minus
  | half (b : UInt8)
deriving DecidableEq, Repr

namespace Pending

def finish : Pending → List Token
  | nothing => []
  | number value => [.number value]
  | minus => [.minus false]
  | half b =>
      match Char.ofUInt8 b with
      | '<' => [.operator .less]
      | '>' => [.operator .greater]
      | _ => [.stray]

def start (b : UInt8) : List Token × Pending :=
  match Char.ofUInt8 b with
  | ' ' | '\t' => ([], nothing)
  | 'n' => ([.count], nothing)
  | '(' => ([.opening], nothing)
  | ')' => ([.closing], nothing)
  | '?' => ([.question], nothing)
  | ':' => ([.colon], nothing)
  | '+' => ([.operator .add], nothing)
  | '*' => ([.operator .multiply], nothing)
  | '/' => ([.operator .divide], nothing)
  | '%' => ([.operator .remainder], nothing)
  | '-' => ([], minus)
  | '|' | '&' | '=' | '!' | '<' | '>' => ([], half b)
  | _ => if isDigit b then ([], number (addDigit maxConstant 0 b)) else ([.stray], nothing)

def pair? (a b : UInt8) : Option Operator :=
  match Char.ofUInt8 a, Char.ofUInt8 b with
  | '|', '|' => some .or
  | '&', '&' => some .and
  | '=', '=' => some .equal
  | '!', '=' => some .notEqual
  | '<', '=' => some .lessEqual
  | '>', '=' => some .greaterEqual
  | _, _ => none

/-- One byte: the tokens that are finished with it, and the token that it leaves begun. -/
def step (p : Pending) (b : UInt8) : List Token × Pending :=
  match p with
  | number value =>
      if isDigit b then ([], number (addDigit maxConstant value b))
      else ((start b).1.cons (.number value), (start b).2)
  | minus => ((start b).1.cons (.minus (isDigit b)), (start b).2)
  | half a =>
      match pair? a b with
      | some op => ([.operator op], nothing)
      | none => ((half a).finish ++ (start b).1, (start b).2)
  | nothing => start b

end Pending

namespace Token

def scanFrom (p : Pending) : Bytes → List Token
  | [] => p.finish
  | b :: s => (p.step b).1 ++ scanFrom (p.step b).2 s

/-- The tokens before the first terminator. -/
def scan (s : Bytes) : List Token := scanFrom .nothing (s.takeWhile (!isTerminator ·))

def operator? : Token → Option Operator
  | operator op => some op
  | minus _ => some .subtract
  | _ => none

end Token

end MessageCatalog.Plural
