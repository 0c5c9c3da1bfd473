import MessageCatalog.Catalog.Header

/-! The tables of a catalog image: string descriptors and hash slots. -/
namespace MessageCatalog.Catalog

structure Descriptor where
  length : UInt32
  offset : UInt32
deriving DecidableEq, Repr, Inhabited

namespace Descriptor

def start (d : Descriptor) : Nat := d.offset.toNat

def stop (d : Descriptor) : Nat := d.offset.toNat + d.length.toNat

def slice (image : ByteArray) (d : Descriptor) : Bytes := (image.extract d.start d.stop).data.toList

def readAt (order : ByteOrder) (image : ByteArray) (offset : Nat) : Descriptor :=
  ⟨order.wordAt image offset, order.wordAt image (offset + 4)⟩

end Descriptor

/-- The descriptors of a table that lies in the image, whose strings do too, each with one byte
after it. -/
def descriptors (order : ByteOrder) (image : ByteArray) (offset count : UInt32) (table : String) :
    Except Error (Array Descriptor) :=
  if offset.toNat + 8 * count.toNat ≤ image.size then
    let entries : Array Descriptor :=
      Array.ofFn (n := count.toNat) fun i => .readAt order image (offset.toNat + 8 * i)
    if entries.all (·.stop < image.size) then .ok entries else .error (.outOfBounds table)
  else .error (.outOfBounds table)

/-- The slots of a hash table that lies in the image; none for a table too small to count. -/
def hashSlots (order : ByteOrder) (image : ByteArray) (offset size : UInt32) :
    Except Error (Option (Array UInt32)) :=
  if size ≤ noHashTable then .ok none
  else if offset.toNat + 4 * size.toNat ≤ image.size then
    .ok (some (Array.ofFn (n := size.toNat) fun i => order.wordAt image (offset.toNat + 4 * i)))
  else .error (.outOfBounds hashTable)

end MessageCatalog.Catalog
