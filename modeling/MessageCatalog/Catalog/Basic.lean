import MessageCatalog.Catalog.Hash
import MessageCatalog.Catalog.Table
import MessageCatalog.Plural.Forms
import MessageCatalog.Plural.Rule

/-!
Message catalogs. A catalog maps keys to messages by two parallel tables of strings, the keys in
byte order, and may hold a hash table over the keys. Keys compare as C strings.
-/
namespace MessageCatalog

structure Catalog where
  image : ByteArray
  header : Catalog.Header
  ids : Array Catalog.Descriptor
  messages : Array Catalog.Descriptor
  slots : Option (Array UInt32)
  rule : Plural.Rule

namespace Catalog

inductive Strategy
  | hashed
  | sorted
deriving DecidableEq, Repr

variable (c : Catalog)

def size : Nat := c.ids.size

def id? (i : Nat) : Option Bytes := c.ids[i]?.map (·.slice c.image)

def message? (i : Nat) : Option Bytes := c.messages[i]?.map (·.slice c.image)

/-- The key under which a string is found: what stands before its first NUL. -/
def key (i : Nat) : Bytes := cString ((c.id? i).getD [])

def strategy : Strategy := if c.slots.isSome then .hashed else .sorted

/-- What a slot says about a key: an empty one that there is no such key, one that holds the key
which it is; any other says nothing. -/
def visit (slots : Array UInt32) (key : Bytes) (place : UInt32) : Option (Option Nat) :=
  match slots[place.toNat]? with
  | none => some none
  | some slot =>
      if slot = 0 then some none
      else
        let i := slot.toNat - 1
        if i < c.size ∧ c.key i = key then some (some i) else none

def findHashed (slots : Array UInt32) (key : Bytes) : Option Nat :=
  let size := slots.size.toUInt32
  ((Probe.start (hashKey key) size).search (c.visit slots key) (visits size)).join

def findSorted (key : Bytes) : Option Nat :=
  let i := lastNotAbove (c.key · ≤ key) 0 c.size
  if i < c.size ∧ c.key i = key then some i else none

def find (strategy : Strategy) (key : Bytes) : Option Nat :=
  match strategy with
  | .hashed => c.slots.bind (c.findHashed · (cString key))
  | .sorted => c.findSorted (cString key)

def lookupUsing (strategy : Strategy) (key : Bytes) : Option Bytes :=
  (c.find strategy key).bind c.message?

def lookup (key : Bytes) : Option Bytes := c.lookupUsing c.strategy key

def select (n : Int64) (message : Bytes) : Bytes := Plural.selectForm (c.rule.index n) message

def lookupPlural (key : Bytes) (n : Int64) : Option Bytes := (c.lookup key).map (c.select n)

/-- The strings with their messages, the header entry left out. -/
def entries : List (Bytes × Bytes) :=
  (List.range c.size).filterMap fun i => do
    let id ← c.id? i
    if id.isEmpty then none else return (id, ← c.message? i)

/-- Reads an image; the rule is the one that the entry of the empty key declares. -/
def decode (image : ByteArray) : Except Error Catalog := do
  let header ← Header.ofImage image
  let ids ← descriptors header.order image header.idsOffset header.count idsTable
  let messages ← descriptors header.order image header.messagesOffset header.count messagesTable
  let slots ← hashSlots header.order image header.hashOffset header.hashSize
  let c : Catalog := { image, header, ids, messages, slots, rule := .undeclared }
  return { c with rule := .ofHeader (c.lookup []) }

end Catalog

end MessageCatalog
