import MessageCatalog.Catalog.Hash
import MessageCatalog.Catalog.Header

/-!
Writing a catalog image: the header, the table of keys, the table of messages, the hash table, and
the strings, each with a NUL after it.
-/
namespace MessageCatalog.Catalog

/-- Whether an odd number has an odd divisor, from `d` on, that is not above its square root. -/
def hasDivisorFrom (n d : Nat) : Bool :=
  if d * d ≤ n then n % d == 0 || hasDivisorFrom n (d + 2) else false
termination_by n + 1 - d
decreasing_by
  have := Nat.le_mul_self d
  omega

/-- The first odd number from `candidate` on, among the next `k`, without a smaller odd divisor. -/
def primeFrom (candidate : Nat) : Nat → Nat
  | 0 => candidate
  | k + 1 => if hasDivisorFrom candidate 3 then primeFrom (candidate + 2) k else candidate

/-- The least odd prime not below a number; there is one below twice the number. -/
def nextPrime (n : Nat) : Nat := primeFrom (if n % 2 = 0 then n + 1 else n) n

/-- A table for `count` keys has the least prime size that leaves a quarter of it empty. -/
def tableSize (count : Nat) : Nat := nextPrime (max (count * 4 / 3) 3)

/-- Puts the string with index `i` into the first empty slot of its key's search. -/
def insertSlot (slots : Array UInt32) (id : Bytes) (i : Nat) : Array UInt32 :=
  let size := slots.size.toUInt32
  let empty (place : UInt32) : Option UInt32 :=
    if slots[place.toNat]? = some 0 then some place else none
  match (Probe.start (hashKey (cString id)) size).search empty (visits size) with
  | some place => slots.setIfInBounds place.toNat (UInt32.ofNat (i + 1))
  | none => slots

def buildSlots (ids : List Bytes) : Array UInt32 :=
  ids.zipIdx.foldl (fun slots (id, i) => insertSlot slots id i)
    (Array.replicate (tableSize ids.length) 0)

/-- The words of a descriptor table for strings laid out from an offset on. -/
def describe (offset : Nat) : List Bytes → List Nat
  | [] => []
  | s :: rest => s.length :: offset :: describe (offset + s.length + 1) rest

/-- The strings, each with a NUL after it. -/
def pool (strings : List Bytes) : Bytes := strings.flatMap (· ++ [0])

namespace Image

/-- Entries in the order of their keys; equal keys stay in the order given. -/
def sort (entries : List (Bytes × Bytes)) : List (Bytes × Bytes) :=
  entries.mergeSort fun a b => decide (a.1 ≤ b.1)

def words (entries : List (Bytes × Bytes)) (hashed : Bool) : List UInt32 :=
  let ids := entries.map (·.1)
  let messages := entries.map (·.2)
  let slots := if hashed then buildSlots ids else #[]
  let messagesOffset := headerSize + 8 * entries.length
  let hashOffset := messagesOffset + 8 * entries.length
  let stringsOffset := hashOffset + 4 * slots.size
  [signature, 0, UInt32.ofNat entries.length, UInt32.ofNat headerSize, UInt32.ofNat messagesOffset,
      UInt32.ofNat slots.size, UInt32.ofNat hashOffset] ++
    (describe stringsOffset ids).map UInt32.ofNat ++
    (describe (stringsOffset + (pool ids).length) messages).map UInt32.ofNat ++ slots.toList

def build (entries : List (Bytes × Bytes)) (hashed : Bool) (order : ByteOrder) : ByteArray :=
  let entries := sort entries
  ((words entries hashed).flatMap order.bytes ++
    pool (entries.map (·.1)) ++ pool (entries.map (·.2))).toByteArray

end Image

end MessageCatalog.Catalog
