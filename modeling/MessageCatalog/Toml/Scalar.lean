import MessageCatalog.Text.Basic
import MessageCatalog.Toml.Lexeme
import MessageCatalog.Toml.Value

/-! Numbers, truth values and dates of a TOML document. -/
namespace MessageCatalog.Toml

open Reader

/-- A run of digits in which single underscores may stand between two digits. -/
def digitGroups (isDigit : Char → Bool) : Reader (List Char) := do
  let run ← span fun c => isDigit c || c == '_'
  let groups := Text.splitAll '_' run
  if groups.all (!·.isEmpty) then return groups.flatten else failure

/-- A sign, if one stands here: whether it is a minus sign. -/
def sign : Reader (Option Bool) := do
  if ← eat ['-'] then return some true
  if ← eat ['+'] then return some false
  return none

def base : Reader (Option Nat) := do
  if ← eat ['0', 'x'] then return some 16
  if ← eat ['0', 'o'] then return some 8
  if ← eat ['0', 'b'] then return some 2
  return none

def isDigitOf (base : Nat) (c : Char) : Bool := isHex c && hexDigitValue c < base

def integerOf (value : Int) : Reader Value :=
  if Int64.minValue.toInt ≤ value ∧ value ≤ Int64.maxValue.toInt then return .integer value
  else failure

/-- Whether a decimal number is closer to 2 ^ 1024 than to the largest 64-bit float, or as close. -/
def isTooLarge (digits : List Char) (exponent : Int) : Bool :=
  let limit := (1 <<< 54 - 1) <<< 970
  let significant := digits.dropWhile (· == '0')
  let magnitude := significant.length + exponent
  if significant.isEmpty || magnitude < 309 then false
  else if 309 < magnitude then true
  else
    let value := digitsIn 10 significant
    if 0 ≤ exponent then limit ≤ value * Nat.pow 10 exponent.toNat
    else limit * Nat.pow 10 (-exponent).toNat ≤ value

def fraction : Reader (Option (List Char)) := do
  if ← eat ['.'] then return some (← digitGroups Char.isDigit) else return none

def exponent : Reader (Option Int) := do
  if (← eat ['e']) || (← eat ['E']) then
    let negative := (← sign) == some true
    let value := digitsIn 10 (← digitGroups Char.isDigit)
    return some (if negative then -value else value)
  else return none

/-- A number in decimal notation: an integer, or a float with a fraction or an exponent. A float
that rounds to positive infinity is refused. -/
def decimalNumber (negative : Bool) : Reader Value := do
  let whole ← digitGroups Char.isDigit
  if whole.head? = some '0' ∧ whole.length ≠ 1 then failure
  let part ← fraction
  let power ← exponent
  if part.isNone && power.isNone then
    let value : Int := digitsIn 10 whole
    integerOf (if negative then -value else value)
  else
    let digits := whole ++ part.getD []
    if !negative && isTooLarge digits (power.getD 0 - (part.getD []).length) then failure
    else return .float (String.ofList digits)

def number : Reader Value := do
  match ← base with
  | some b => integerOf (digitsIn b (← digitGroups (isDigitOf b)))
  | none =>
      let negative := (← sign) == some true
      if (← eat ['i', 'n', 'f']) then return .float "inf"
      if (← eat ['n', 'a', 'n']) then return .float "nan"
      decimalNumber negative

def boolean : Reader Value := do
  if ← eat ['t', 'r', 'u', 'e'] then return .boolean true
  if ← eat ['f', 'a', 'l', 's', 'e'] then return .boolean false
  failure

/-! Dates and times -/

def digitsOf (k : Nat) : Reader Nat := fun s =>
  let digits := s.take k
  if digits.length = k ∧ digits.all Char.isDigit then some (digitsIn 10 digits, s.drop k) else none

def field (first last : Nat) : Reader Nat := do
  let value ← digitsOf 2
  if first ≤ value ∧ value ≤ last then return value else failure

def isLeap (year : Nat) : Bool := year % 4 == 0 && (year % 100 != 0 || year % 400 == 0)

def daysIn (year month : Nat) : Nat :=
  if month = 2 then if isLeap year then 29 else 28
  else if month = 4 ∨ month = 6 ∨ month = 9 ∨ month = 11 then 30
  else 31

def padded (width value : Nat) : List Char :=
  let digits := Nat.toDigits 10 value
  List.replicate (width - digits.length) '0' ++ digits

def date : Reader (List Char) := do
  let year ← digitsOf 4
  char '-'
  let month ← field 1 12
  char '-'
  let day ← field 1 31
  if daysIn year month < day then failure
  return padded 4 year ++ '-' :: padded 2 month ++ '-' :: padded 2 day

/-- A time of day, to the nanosecond, without zeros at the end of the fraction. -/
def time : Reader (List Char) := do
  let hour ← field 0 23
  char ':'
  let minute ← field 0 59
  char ':'
  let second ← field 0 60
  let digits ← if ← eat ['.'] then span1 Char.isDigit else pure []
  let part := ((digits.take 9).reverse.dropWhile (· == '0')).reverse
  return padded 2 hour ++ ':' :: padded 2 minute ++ ':' :: padded 2 second ++
    (if part.isEmpty then [] else '.' :: part)

def offset : Reader (List Char) := do
  if (← eat ['Z']) || (← eat ['z']) then return ['Z']
  match ← sign with
  | none => return []
  | some negative =>
      let hour ← field 0 23
      char ':'
      let minute ← field 0 59
      let mark := if negative && hour + minute ≠ 0 then '-' else '+'
      return mark :: padded 2 hour ++ ':' :: padded 2 minute

/-- A date, a time of day, or both with a distance from universal time. -/
def dateTime : Reader Value := do
  let text ← (do
    let day ← date
    let rest ← (do
      if !((← eat ['T']) || (← eat ['t']) || (← eat [' '])) then failure
      return 'T' :: (← time) ++ (← offset)) <|> pure []
    return day ++ rest) <|> time
  return .dateTime (String.ofList text)

end MessageCatalog.Toml
