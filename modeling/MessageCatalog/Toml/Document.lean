import MessageCatalog.Toml.Scalar

/-! TOML documents: lines with keys and values, under the headers of tables. -/
namespace MessageCatalog.Toml

open Reader

/-- An array of items, with a comma after each but perhaps the last. -/
def array (item : Reader Value) : Reader Value := do
  char '['
  blankLines
  if ← eat [']'] then return .array []
  let first ← item
  blankLines
  let rest ← many do
    if !(← eat [',']) then return none
    blankLines
    if (← peek) = some ']' then return none
    let next ← item
    blankLines
    return some next
  char ']'
  return .array (first :: rest)

def pair (item : Reader Value) : Reader (List String × Value) := do
  let path ← key
  char '='
  spaces
  return (path, ← item)

def addPair (entries : Entries) (p : List String × Value) : Option Entries :=
  entries.insert p.2 p.1

def inlineTable (item : Reader Value) : Reader Value := do
  char '{'
  spaces
  if ← eat ['}'] then return .table .inline []
  let first ← pair item
  spaces
  let rest ← many do
    if !(← eat [',']) then return none
    let next ← pair item
    spaces
    return some next
  char '}'
  match (first :: rest).foldlM addPair [] with
  | some entries => return .table .inline entries
  | none => failure

/-- A value, given how the values inside it are read, if it may hold any. -/
def valueOver (inner : Option (Reader Value)) : Reader Value := do
  match ← peek, inner with
  | some '\x22', _ | some '\'', _ => return .string (← string)
  | some '[', some item => array item
  | some '{', some item => inlineTable item
  | some 't', _ | some 'f', _ => boolean
  | _, _ => dateTime <|> number

/-- A value that nests at most to a depth. -/
def value : Nat → Reader Value
  | 0 => valueOver none
  | depth + 1 => valueOver (some (value depth))

inductive Statement
  | pair (path : List String) (value : Value)
  | header (listed : Bool) (path : List String)

def header : Reader Statement := do
  let listed ← eat ['[', '[']
  if !listed then char '['
  let path ← key
  char ']'
  if listed then char ']'
  return .header listed path

def statement : Reader (Option Statement) := do
  blankLines
  match ← peek with
  | none => return none
  | some '[' =>
      let h ← header
      endOfLine
      return some h
  | _ =>
      let (path, v) ← pair (value maxNesting)
      endOfLine
      return some (.pair path v)

/-- The pairs before the first header, and the headers with the pairs below each. -/
def sections : List Statement →
    List (List String × Value) × List (Bool × List String × List (List String × Value))
  | [] => ([], [])
  | .pair path v :: rest => ((path, v) :: (sections rest).1, (sections rest).2)
  | .header listed path :: rest => ([], (listed, path, (sections rest).1) :: (sections rest).2)

def entriesOf (statements : List Statement) : Option Entries := do
  let (top, tables) := sections statements
  let root ← top.foldlM addPair []
  tables.foldlM (fun root (listed, path, pairs) =>
    root.fill listed (fun sub => pairs.foldlM addPair sub) path) root

/-- The entries of a document; a byte order mark may stand before it. -/
def parse? (text : String) : Option Entries := do
  let s := match text.toList with
    | '\uFEFF' :: rest => rest
    | s => s
  let (statements, rest) ← (many statement).run s
  if rest.isEmpty then entriesOf statements else none

end MessageCatalog.Toml
