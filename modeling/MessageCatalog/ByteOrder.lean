import MessageCatalog.Bytes

/-! The 32-bit words of a byte array, in either byte order. -/
namespace MessageCatalog

inductive ByteOrder
  | little
  | big
deriving DecidableEq, Repr

namespace ByteOrder

def word (a b c d : UInt8) : ByteOrder → UInt32
  | little => a.toUInt32 ||| b.toUInt32 <<< 8 ||| c.toUInt32 <<< 16 ||| d.toUInt32 <<< 24
  | big => d.toUInt32 ||| c.toUInt32 <<< 8 ||| b.toUInt32 <<< 16 ||| a.toUInt32 <<< 24

def bytes (w : UInt32) : ByteOrder → Bytes
  | little => [w.toUInt8, (w >>> 8).toUInt8, (w >>> 16).toUInt8, (w >>> 24).toUInt8]
  | big => [(w >>> 24).toUInt8, (w >>> 16).toUInt8, (w >>> 8).toUInt8, w.toUInt8]

def word? (order : ByteOrder) (image : ByteArray) (offset : Nat) : Option UInt32 :=
  if h : offset + 4 ≤ image.size then
    some (order.word image[offset] image[offset + 1] image[offset + 2] image[offset + 3])
  else none

/-- The word at an offset that is known to lie inside the array. -/
def wordAt (order : ByteOrder) (image : ByteArray) (offset : Nat) : UInt32 :=
  (order.word? image offset).getD 0

theorem word?_eq_some {order : ByteOrder} {image : ByteArray} {offset : Nat}
    (h : offset + 4 ≤ image.size) :
    order.word? image offset = some (order.wordAt image offset) := by
  simp [wordAt, word?, h]

end ByteOrder

end MessageCatalog
