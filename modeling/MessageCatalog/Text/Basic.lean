import MessageCatalog.Bytes

/-!
Text as lists of characters: blanks at its ends, parts between separators, integers in decimal, and
the characters of bytes.
-/
namespace MessageCatalog.Text

/-! The characters with the Unicode property White_Space. -/

def isBlank (c : Char) : Bool :=
  (0x9 ≤ c.val && c.val ≤ 0xD) || c.val == 0x20 || c.val == 0x85 || c.val == 0xA0 ||
    c.val == 0x1680 || (0x2000 ≤ c.val && c.val ≤ 0x200A) || c.val == 0x2028 || c.val == 0x2029 ||
    c.val == 0x202F || c.val == 0x205F || c.val == 0x3000

def trimChars (s : List Char) : List Char :=
  ((s.dropWhile isBlank).reverse.dropWhile isBlank).reverse

def trim (s : String) : String := String.ofList (trimChars s.toList)

@[simp] theorem toList_trim (s : String) : (trim s).toList = trimChars s.toList :=
  String.toList_ofList

section Split

variable {α : Type} [DecidableEq α]

/-- The parts between separators: always one more than there are separators. -/
def splitAll (sep : α) : List α → List (List α)
  | [] => [[]]
  | a :: s =>
      if a = sep then [] :: splitAll sep s
      else match splitAll sep s with
        | part :: parts => (a :: part) :: parts
        | [] => [[a]]

/-- What stands before and after the first separator. -/
def splitOnce? (sep : α) (s : List α) : Option (List α × List α) :=
  match s.dropWhile (· ≠ sep) with
  | [] => none
  | _ :: rest => some (s.takeWhile (· ≠ sep), rest)

theorem splitAll_ne_nil (sep : α) (s : List α) : splitAll sep s ≠ [] := by
  cases s with
  | nil => simp [splitAll]
  | cons a s =>
    simp only [splitAll]
    split
    · simp
    · split <;> simp

end Split

/-! Decimal text of integers. -/

def decimal (value : Int) : List Char :=
  if value < 0 then '-' :: Nat.toDigits 10 value.natAbs else Nat.toDigits 10 value.natAbs

/-- An integer whose digits may follow one sign, if the text is one. -/
def readInt? (s : List Char) : Option Int :=
  let digits := match s with
    | '-' :: rest => rest
    | '+' :: rest => rest
    | _ => s
  if digits.isEmpty || !digits.all Char.isDigit then none
  else
    let value := digits.foldl (fun v c => 10 * v + (c.toNat - 48)) 0
    some (if s.head? = some '-' then -value else value)

def readInt64? (s : List Char) : Option Int64 :=
  (readInt? s).bind fun v =>
    if Int64.minValue.toInt ≤ v ∧ v ≤ Int64.maxValue.toInt then some (Int64.ofInt v) else none

/-! Bytes that may not be UTF-8: each longest broken sequence becomes one U+FFFD. -/

/-- Whether a byte may be second after the lead of a character of three or four bytes. -/
def isSecond (lead b : UInt8) : Bool :=
  0xE0 ≤ lead && lead ≤ 0xF4 &&
    (if lead == 0xE0 then 0xA0 else if lead == 0xF0 then 0x90 else 0x80) ≤ b &&
    b ≤ (if lead == 0xED then 0x9F else if lead == 0xF4 then 0x8F else 0xBF)

/-- How many bytes after its lead a broken character still covers. -/
def brokenTail (lead : UInt8) : Bytes → Nat
  | b :: rest =>
      if isSecond lead b then
        match rest with
        | c :: _ => if 0xF0 ≤ lead && 0x80 ≤ c && c ≤ 0xBF then 2 else 1
        | [] => 1
      else 0
  | [] => 0

/-- The characters of a byte string, with U+FFFD for what is not a character. -/
def decodeChars : Bytes → List Char
  | [] => []
  | b :: s =>
      match (b :: s.take 3).toByteArray.utf8DecodeChar? 0 with
      | some c => c :: decodeChars (s.drop (c.utf8Size - 1))
      | none => '\uFFFD' :: decodeChars (s.drop (brokenTail b s))
termination_by s => s.length
decreasing_by all_goals rw [List.length_drop, List.length_cons]; omega

def decode (s : Bytes) : String := String.ofList (decodeChars s)

end MessageCatalog.Text
