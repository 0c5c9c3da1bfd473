import MessageCatalog.ByteOrder

/-!
The header of a catalog image: its byte order, and where its tables are; and why bytes are not a
catalog.
-/
namespace MessageCatalog.Catalog

inductive Error
  | tooSmall (size : Nat)
  | tooLarge (size : Nat)
  /-- The first word, read in big-endian order. -/
  | badSignature (word : UInt32)
  | outOfBounds (table : String)
deriving DecidableEq, Repr

namespace Error

def hexWord (w : UInt32) : String :=
  let digits := Nat.toDigits 16 w.toNat
  String.ofList (List.replicate (8 - digits.length) '0' ++ digits)

def message : Error → String
  | tooSmall size => "catalog too small: " ++ size.repr ++ " bytes"
  | tooLarge size => "catalog too large: " ++ size.repr ++ " bytes"
  | badSignature word => "bad catalog signature: 0x" ++ hexWord word
  | outOfBounds table => table ++ " out of bounds"

end Error

def signature : UInt32 := 0x950412de

def minSize : Nat := 32

def maxSize : Nat := 16 * 1024 * 1024

/-- Seven words: no table may start below this offset. -/
def headerSize : Nat := 28

/-- A hash table of at most this size counts as absent. -/
def noHashTable : UInt32 := 2

structure Header where
  order : ByteOrder
  revision : UInt32
  count : UInt32
  idsOffset : UInt32
  messagesOffset : UInt32
  hashSize : UInt32
  hashOffset : UInt32
deriving DecidableEq, Repr

/-! The tables as errors name them. -/

def idsTable : String := "original string table"

def messagesTable : String := "translated string table"

def hashTable : String := "hash table"

namespace Header

def order? (image : ByteArray) : Except Error ByteOrder :=
  if ByteOrder.little.wordAt image 0 = signature then .ok .little
  else if ByteOrder.big.wordAt image 0 = signature then .ok .big
  else .error (.badSignature (ByteOrder.big.wordAt image 0))

def read? (order : ByteOrder) (image : ByteArray) : Option Header := do
  return {
    order
    revision := ← order.word? image 4
    count := ← order.word? image 8
    idsOffset := ← order.word? image 12
    messagesOffset := ← order.word? image 16
    hashSize := ← order.word? image 20
    hashOffset := ← order.word? image 24 }

/-- A catalog has strings, and no table overlaps the header. -/
def check (header : Header) : Except Error Unit :=
  if header.count = 0 then .error (.outOfBounds "empty string table")
  else if header.idsOffset.toNat < headerSize then .error (.outOfBounds idsTable)
  else if header.messagesOffset.toNat < headerSize then .error (.outOfBounds messagesTable)
  else if noHashTable < header.hashSize ∧ header.hashOffset.toNat < headerSize then
    .error (.outOfBounds hashTable)
  else .ok ()

def ofImage (image : ByteArray) : Except Error Header := do
  if image.size < minSize then throw (.tooSmall image.size)
  if maxSize < image.size then throw (.tooLarge image.size)
  let order ← order? image
  let header ← match read? order image with
    | some header => pure header
    | none => throw (.outOfBounds "header")
  header.check
  return header

end Header

end MessageCatalog.Catalog
