import MessageCatalog.Message.Piece
import MessageCatalog.Text.Basic

/-! Filling a template with arguments. -/
namespace MessageCatalog.Message

inductive Argument
  | text (value : String)
  | signed (value : Int64)
  | unsigned (value : UInt64)
deriving DecidableEq, Repr

namespace Argument

/-- The text of an argument; a conversion reads the bits of a number its own way, and leaves text
as it is. -/
def render (arg : Argument) (conversion : Conversion) : List Char :=
  match arg, conversion with
  | text value, _ => value.toList
  | signed value, .text | signed value, .signed => Text.decimal value.toInt
  | signed value, .unsigned => Nat.toDigits 10 value.toUInt64.toNat
  | signed value, .hexLower => Nat.toDigits 16 value.toUInt64.toNat
  | signed value, .hexUpper => (Nat.toDigits 16 value.toUInt64.toNat).map Char.toUpper
  | unsigned value, .text | unsigned value, .unsigned => Nat.toDigits 10 value.toNat
  | unsigned value, .signed => Text.decimal value.toInt64.toInt
  | unsigned value, .hexLower => Nat.toDigits 16 value.toNat
  | unsigned value, .hexUpper => (Nat.toDigits 16 value.toNat).map Char.toUpper

end Argument

/-- Fills a text up to the width: blanks after it, zeros between its sign and its digits, or blanks
before it. -/
def Layout.pad (layout : Layout) (conversion : Conversion) (s : List Char) : List Char :=
  let fill := layout.width - s.length
  if layout.left then s ++ List.replicate fill ' '
  else if layout.zeros && conversion != .text then
    match s with
    | '-' :: digits => '-' :: List.replicate fill '0' ++ digits
    | digits => List.replicate fill '0' ++ digits
  else List.replicate fill ' ' ++ s

/-- The text of the pieces; each directive takes the next argument, or the empty text. -/
def fill : List Piece → List Argument → List Char
  | [], _ => []
  | .literal c :: rest, args => c :: fill rest args
  | .percent :: rest, args => '%' :: fill rest args
  | .verbatim text :: rest, args => text ++ fill rest args
  | .directive layout conversion :: rest, [] => layout.pad conversion [] ++ fill rest []
  | .directive layout conversion :: rest, arg :: args =>
      layout.pad conversion (arg.render conversion) ++ fill rest args

def format (template : String) (args : List Argument) : String :=
  String.ofList (fill (Piece.split template.toList) args)

end MessageCatalog.Message
