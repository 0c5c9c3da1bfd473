import MessageCatalog.Text.Basic
import MessageCatalog.Text.Unprintable

/-! Text with characters escaped: the fields of a dump, quoted text, and flat objects of JSON. -/
namespace MessageCatalog.Text

/-- The characters that would end a field or a line, or look like an escape, are escaped. -/
def escapeChar : Char → List Char
  | '\x00' => ['\\', '0']
  | '\n' => ['\\', 'n']
  | '\r' => ['\\', 'r']
  | '\t' => ['\\', 't']
  | '\\' => ['\\', '\\']
  | c => [c]

def escapeBytes (s : Bytes) : String := String.ofList ((decodeChars s).flatMap escapeChar)

/-- A character between double quotes; one that does not print is shown by its code point. -/
def quoteChar (c : Char) : List Char :=
  if c = '\x22' then ['\\', c]
  else match escapeChar c with
    | [_] =>
        if isUnprintable c then
          ['\\', 'u', '\x7b'] ++ Nat.toDigits 16 c.toNat ++ ['\x7d']
        else [c]
    | escaped => escaped

def quote (s : String) : String :=
  String.ofList ('\x22' :: s.toList.flatMap quoteChar ++ ['\x22'])

inductive Json
  | null
  | boolean (value : Bool)
  | number (value : Nat)
  | string (value : String)
deriving DecidableEq, Repr

namespace Json

def escapeChar (c : Char) : List Char :=
  match c with
  | '\x22' => ['\\', '\x22']
  | '\\' => ['\\', '\\']
  | '\x08' => ['\\', 'b']
  | '\x0c' => ['\\', 'f']
  | '\n' => ['\\', 'n']
  | '\r' => ['\\', 'r']
  | '\t' => ['\\', 't']
  | c =>
      if c.toNat < 32 then
        let digits := Nat.toDigits 16 c.toNat
        ['\\', 'u'] ++ List.replicate (4 - digits.length) '0' ++ digits
      else [c]

def quoted (s : String) : String :=
  String.ofList ('\x22' :: s.toList.flatMap escapeChar ++ ['\x22'])

def render : Json → String
  | null => "null"
  | boolean value => if value then "true" else "false"
  | number value => value.repr
  | string value => quoted value

def renderObject (members : List (String × Json)) : String :=
  let lines := members.map fun (name, value) => "  " ++ quoted name ++ ": " ++ value.render
  "\x7b\n" ++ ",\n".intercalate lines ++ "\n\x7d"

end Json

end MessageCatalog.Text
