/-! The lexical parts of a TOML document: blanks, comments, line ends, strings and keys. -/
namespace MessageCatalog.Toml

abbrev Reader := StateT (List Char) Option

namespace Reader

def char (c : Char) : Reader Unit := fun s =>
  match s with
  | d :: rest => if c = d then some ((), rest) else none
  | [] => none

def span (p : Char → Bool) : Reader (List Char) := fun s => some (s.takeWhile p, s.dropWhile p)

def span1 (p : Char → Bool) : Reader (List Char) := do
  let cs ← span p
  if cs.isEmpty then failure else return cs

/-- Whether the text goes on with the given characters, which are then read. -/
def eat (cs : List Char) : Reader Bool := fun s =>
  some (if cs.isPrefixOf s then (true, s.drop cs.length) else (false, s))

def peek : Reader (Option Char) := fun s => some (s.head?, s)

/-- Reads items while there are any, at most one for each character of the text. -/
def manyUpTo {α : Type} (item : Reader (Option α)) : Nat → Reader (List α)
  | 0 => return []
  | k + 1 => do
      match ← item with
      | none => return []
      | some a => return a :: (← manyUpTo item k)

def many {α : Type} (item : Reader (Option α)) : Reader (List α) := do
  manyUpTo item ((← get).length + 1)

end Reader

open Reader

def isSpace (c : Char) : Bool := c == ' ' || c == '\t'

/-- The characters that may stand in a comment: all but the controls other than the tab. -/
def isText (c : Char) : Bool := c == '\t' || (0x20 ≤ c.val && c.val ≠ 0x7F)

def isBare (c : Char) : Bool := c.isAlphanum || c == '-' || c == '_'

def spaces : Reader Unit := do let _ ← span isSpace

/-- Whether a line feed stood here, with or without a carriage return before it. -/
def newline : Reader Bool := do
  if ← eat ['\n'] then return true else eat ['\r', '\n']

def comment : Reader Unit := do
  if ← eat ['#'] then
    let _ ← span isText

def endOfLine : Reader Unit := do
  spaces
  comment
  if (← peek).isSome then
    if !(← newline) then failure

def blankLines : Reader Unit := do
  let _ ← many do
    if (← peek) = some '#' then
      comment
      return some ()
    else if !(← span isSpace).isEmpty then return some ()
    else if ← newline then return some ()
    else return none

/-! Strings -/

def isHex (c : Char) : Bool := c.isDigit || ('a' ≤ c && c ≤ 'f') || ('A' ≤ c && c ≤ 'F')

def hexDigitValue (c : Char) : Nat :=
  if c.isDigit then c.toNat - 48 else c.toLower.toNat - 87

def digitsIn (base : Nat) (cs : List Char) : Nat :=
  cs.foldl (fun v c => base * v + hexDigitValue c) 0

/-- The character with a code of exactly `k` hexadecimal digits. -/
def codePoint (k : Nat) : Reader Char := fun s =>
  let digits := s.take k
  let code := digitsIn 16 digits
  if digits.length = k ∧ digits.all isHex ∧ code.isValidChar then some (.ofNat code, s.drop k)
  else none

/-- The character that an escape stands for, its backslash being read. -/
def escape : Reader Char := do
  match ← peek with
  | some c =>
      char c
      match c with
      | 'b' => return '\x08'
      | 't' => return '\t'
      | 'n' => return '\n'
      | 'f' => return '\x0c'
      | 'r' => return '\r'
      | '\x22' => return '\x22'
      | '\\' => return '\\'
      | 'u' => codePoint 4
      | 'U' => codePoint 8
      | _ => failure
  | none => failure

def basicString : Reader String := do
  char '\x22'
  let parts ← many do
    let plain ← span fun c => isText c && c != '\x22' && c != '\\'
    if !plain.isEmpty then return some plain
    if ← eat ['\\'] then return some [← escape]
    return none
  char '\x22'
  return String.ofList parts.flatten

def literalString : Reader String := do
  char '\''
  let cs ← span fun c => isText c && c != '\''
  char '\''
  return String.ofList cs

/-- One or two quotes inside a string that three of them end. -/
def innerQuotes (quote : Char) : Reader (Option (List Char)) := fun s =>
  let run := s.takeWhile (· == quote)
  if run.isEmpty || 3 ≤ run.length then some (none, s) else some (some run, s.drop run.length)

/-- The end of such a string: up to two quotes that still belong to it, and the three. -/
def closingQuotes (quote : Char) : Reader (List Char) := do
  let run ← span (· == quote)
  if 3 ≤ run.length ∧ run.length ≤ 5 then return run.drop 3 else failure

def gap : Reader Unit := do
  let _ ← many do
    if !(← span isSpace).isEmpty then return some ()
    else if ← newline then return some ()
    else return none

/-- The characters that a backslash stands for: none before the end of a line, where it joins the
lines without the blanks between them. -/
def escapeOrJoin : Reader (List Char) :=
  (do
    spaces
    if !(← newline) then failure
    gap
    return []) <|>
  (do return [← escape])

/-- A string over several lines, which three quotes end; a line feed right after the first three is
left out. -/
def linesString (quote : Char) (escapes : Bool) : Reader String := do
  char quote
  char quote
  char quote
  let _ ← newline
  let parts ← many do
    let plain ← span fun c => isText c && c != quote && !(escapes && c == '\\')
    if !plain.isEmpty then return some plain
    if ← newline then return some ['\n']
    if escapes then
      if ← eat ['\\'] then return some (← escapeOrJoin)
    innerQuotes quote
  return String.ofList (parts.flatten ++ (← closingQuotes quote))

def string : Reader String := do
  if (← peek) = some '\'' then linesString '\'' false <|> literalString
  else linesString '\x22' true <|> basicString

/-! Keys -/

def maxNesting : Nat := 79

def simpleKey : Reader String := do
  match ← peek with
  | some '\x22' => basicString
  | some '\'' => literalString
  | _ => return String.ofList (← span1 isBare)

def key : Reader (List String) := do
  spaces
  let first ← simpleKey
  spaces
  let rest ← many do
    if ← eat ['.'] then
      spaces
      let name ← simpleKey
      spaces
      return some name
    else return none
  if maxNesting ≤ rest.length then failure else return first :: rest

end MessageCatalog.Toml
