import MessageCatalog.Bytes

/-!
Message templates. A directive is a percent sign, flags, a width, length modifiers and a conversion;
a percent sign that starts none is text, with the characters read in vain.
-/
namespace MessageCatalog.Message

inductive Conversion
  | text
  | signed
  | unsigned
  | hexLower
  | hexUpper
deriving DecidableEq, Repr

def Conversion.ofChar? : Char → Option Conversion
  | 's' => some .text
  | 'd' | 'i' => some .signed
  | 'u' => some .unsigned
  | 'x' => some .hexLower
  | 'X' => some .hexUpper
  | _ => none

/-- How a value is set into its field. -/
structure Layout where
  left : Bool
  zeros : Bool
  width : Nat
deriving DecidableEq, Repr

inductive Piece
  | literal (c : Char)
  /-- The pair of percent signs that stands for one. -/
  | percent
  | directive (layout : Layout) (conversion : Conversion)
  | verbatim (text : List Char)
deriving DecidableEq, Repr

def isFlag (c : Char) : Bool := c == '-' || c == '0'

/-- The length modifiers, which change nothing. -/
def isModifier (c : Char) : Bool := c == 'h' || c == 'l' || c == 'z'

/-- The largest width; longer digit strings read as this value. -/
def maxWidth : Nat := UInt64.size - 1

namespace Piece

/-- The piece that a percent sign starts with the characters after it, and what follows. -/
def afterPercent : List Char → Piece × List Char
  | '%' :: rest => (percent, rest)
  | s =>
      let flags := s.takeWhile isFlag
      let s := s.dropWhile isFlag
      let digits := s.takeWhile Char.isDigit
      let s := s.dropWhile Char.isDigit
      let modifiers := s.takeWhile isModifier
      let s := s.dropWhile isModifier
      let shape := '%' :: flags ++ digits ++ modifiers
      match s with
      | [] => (verbatim shape, [])
      | c :: rest =>
          match Conversion.ofChar? c with
          | some conversion =>
              (directive ⟨flags.contains '-', flags.contains '0',
                digitsValue maxWidth (ascii digits)⟩ conversion, rest)
          | none => (verbatim (shape ++ [c]), rest)

theorem length_afterPercent_le (s : List Char) : (afterPercent s).2.length ≤ s.length := by
  have h (p : Char → Bool) (s : List Char) : (s.dropWhile p).length ≤ s.length :=
    (List.dropWhile_sublist p).length_le
  unfold afterPercent
  split
  · simp
  · dsimp only
    split
    · simp
    · rename_i heq
      have h₁ := h isFlag s
      have h₂ := h Char.isDigit (s.dropWhile isFlag)
      have h₃ := h isModifier ((s.dropWhile isFlag).dropWhile Char.isDigit)
      rw [heq, List.length_cons] at h₃
      split <;> (dsimp only; omega)

/-- The pieces of a template, in order. -/
def split : List Char → List Piece
  | [] => []
  | c :: s =>
      if c = '%' then (afterPercent s).1 :: split (afterPercent s).2 else literal c :: split s
termination_by s => s.length
decreasing_by
  · exact Nat.lt_succ_of_le (length_afterPercent_le s)
  · simp

end Piece

end MessageCatalog.Message
