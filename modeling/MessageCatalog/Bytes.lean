/-!
Byte strings: the C string at the start of one, markers and digits in one, and binary search among
places whose contents ascend.
-/
namespace MessageCatalog

abbrev Bytes := List UInt8

/-- The bytes before the first NUL, or all of them when there is none. -/
def cString (s : Bytes) : Bytes := s.takeWhile (· != 0)

def ascii (s : List Char) : Bytes := s.map Char.toUInt8

/-- What follows the first occurrence of a marker. -/
def after? (marker : Bytes) : Bytes → Option Bytes
  | [] => if marker.isEmpty then some [] else none
  | b :: s => if marker.isPrefixOf (b :: s) then some ((b :: s).drop marker.length)
      else after? marker s

def isDigit (b : UInt8) : Bool := 48 ≤ b && b ≤ 57

/-- The ASCII blanks: tab, line feed, form feed, carriage return and space. -/
def isBlank (b : UInt8) : Bool := b == 32 || b == 9 || b == 10 || b == 12 || b == 13

def addDigit (bound value : Nat) (b : UInt8) : Nat := min (10 * value + (b.toNat - 48)) bound

/-- The value of a run of decimal digits, or the bound when the value is above it. -/
def digitsValue (bound : Nat) (digits : Bytes) : Nat := digits.foldl (addDigit bound) 0

def utf8 (s : String) : Bytes := s.toUTF8.data.toList

/-- Narrows a range of ascending places to the last one that is not above the one sought. -/
def lastNotAbove (notAbove : Nat → Bool) (base size : Nat) : Nat :=
  if size ≤ 1 then base
  else
    let half := size / 2
    lastNotAbove notAbove (if notAbove (base + half) then base + half else base) (size - half)
termination_by size

@[simp] theorem cString_nil : cString [] = [] := rfl

@[simp] theorem cString_zero (s : Bytes) : cString (0 :: s) = [] := rfl

theorem cString_isPrefix (s : Bytes) : cString s <+: s := List.takeWhile_prefix _

theorem cString_idem (s : Bytes) : cString (cString s) = cString s := by
  induction s with
  | nil => rfl
  | cons b s ih => by_cases h : b = 0 <;> simp_all [cString]

end MessageCatalog
