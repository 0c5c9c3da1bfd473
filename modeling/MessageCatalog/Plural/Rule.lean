import MessageCatalog.Plural.Parse

/-! The plural rule of a catalog: an expression, and how many forms a message has. -/
namespace MessageCatalog.Plural

structure Rule where
  expr : Expr
  forms : UInt32
  /-- Whether the catalog declares the rule. -/
  declared : Bool
deriving DecidableEq, Repr

namespace Rule

def expressionMarker : Bytes := ascii ['p', 'l', 'u', 'r', 'a', 'l', '=']

def countMarker : Bytes := ascii ['n', 'p', 'l', 'u', 'r', 'a', 'l', 's', '=']

/-- Two forms, told apart by `n != 1`. -/
def undeclared : Rule := ⟨.notOne, 2, false⟩

/-- A positive 32-bit number at the start of a text, blanks aside. -/
def count? (s : Bytes) : Option UInt32 :=
  let digits := (s.dropWhile isBlank).takeWhile isDigit
  let value := digitsValue UInt32.size digits
  if 0 < value ∧ value < UInt32.size then some (UInt32.ofNat value) else none

/-- The rule declared before the first NUL of a header, by the first of each marker. -/
def ofHeader? (header : Bytes) : Option Rule := do
  let header := cString header
  let expression ← after? expressionMarker header
  let count ← after? countMarker header
  let forms ← count? count
  let expr ← Expr.ofBytes? expression
  return ⟨expr, forms, true⟩

def ofHeader (header : Option Bytes) : Rule := (header.bind ofHeader?).getD undeclared

def index (rule : Rule) (n : Int64) : Int64 := rule.expr.eval n

end Rule

end MessageCatalog.Plural
