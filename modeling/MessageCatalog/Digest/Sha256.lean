import MessageCatalog.ByteOrder
import MessageCatalog.Text.Basic

/-! The SHA-256 digest of a byte array, and checksums: its hexadecimal digits as text. -/
namespace MessageCatalog.Digest

structure State where
  a : UInt32
  b : UInt32
  c : UInt32
  d : UInt32
  e : UInt32
  f : UInt32
  g : UInt32
  h : UInt32
deriving DecidableEq, Repr

namespace State

/-- The first 32 bits of the fractional parts of the square roots of the first eight primes. -/
def initial : State :=
  ⟨0x6a09e667, 0xbb67ae85, 0x3c6ef372, 0xa54ff53a, 0x510e527f, 0x9b05688c, 0x1f83d9ab, 0x5be0cd19⟩

def words (s : State) : List UInt32 := [s.a, s.b, s.c, s.d, s.e, s.f, s.g, s.h]

def add (s t : State) : State :=
  ⟨s.a + t.a, s.b + t.b, s.c + t.c, s.d + t.d, s.e + t.e, s.f + t.f, s.g + t.g, s.h + t.h⟩

end State

/-- The first 32 bits of the fractional parts of the cube roots of the first 64 primes. -/
def roundConstants : List UInt32 := [
  0x428a2f98, 0x71374491, 0xb5c0fbcf, 0xe9b5dba5, 0x3956c25b, 0x59f111f1, 0x923f82a4, 0xab1c5ed5,
  0xd807aa98, 0x12835b01, 0x243185be, 0x550c7dc3, 0x72be5d74, 0x80deb1fe, 0x9bdc06a7, 0xc19bf174,
  0xe49b69c1, 0xefbe4786, 0x0fc19dc6, 0x240ca1cc, 0x2de92c6f, 0x4a7484aa, 0x5cb0a9dc, 0x76f988da,
  0x983e5152, 0xa831c66d, 0xb00327c8, 0xbf597fc7, 0xc6e00bf3, 0xd5a79147, 0x06ca6351, 0x14292967,
  0x27b70a85, 0x2e1b2138, 0x4d2c6dfc, 0x53380d13, 0x650a7354, 0x766a0abb, 0x81c2c92e, 0x92722c85,
  0xa2bfe8a1, 0xa81a664b, 0xc24b8b70, 0xc76c51a3, 0xd192e819, 0xd6990624, 0xf40e3585, 0x106aa070,
  0x19a4c116, 0x1e376c08, 0x2748774c, 0x34b0bcb5, 0x391c0cb3, 0x4ed8aa4a, 0x5b9cca4f, 0x682e6ff3,
  0x748f82ee, 0x78a5636f, 0x84c87814, 0x8cc70208, 0x90befffa, 0xa4506ceb, 0xbef9a3f7, 0xc67178f2]

def rotateRight (w n : UInt32) : UInt32 := w >>> n ||| w <<< (32 - n)

def round (s : State) (kw : UInt32) : State :=
  let s1 := rotateRight s.e 6 ^^^ rotateRight s.e 11 ^^^ rotateRight s.e 25
  let choice := s.e &&& s.f ^^^ ~~~s.e &&& s.g
  let t1 := s.h + s1 + choice + kw
  let s0 := rotateRight s.a 2 ^^^ rotateRight s.a 13 ^^^ rotateRight s.a 22
  let majority := s.a &&& s.b ^^^ s.a &&& s.c ^^^ s.b &&& s.c
  ⟨t1 + s0 + majority, s.a, s.b, s.c, s.d + t1, s.e, s.f, s.g⟩

def extendSchedule : Nat → Array UInt32 → Array UInt32
  | 0, w => w
  | k + 1, w =>
      let back (i : Nat) : UInt32 := w.getD (w.size - i) 0
      let x := back 15
      let s0 := rotateRight x 7 ^^^ rotateRight x 18 ^^^ x >>> 3
      let y := back 2
      let s1 := rotateRight y 17 ^^^ rotateRight y 19 ^^^ y >>> 10
      extendSchedule k (w.push (back 16 + s0 + back 7 + s1))

def schedule (message : ByteArray) (offset : Nat) : Array UInt32 :=
  extendSchedule 48 (Array.ofFn (n := 16) fun i => ByteOrder.big.wordAt message (offset + 4 * i))

def compress (state : State) (w : Array UInt32) : State :=
  state.add ((roundConstants.zipWith (· + ·) w.toList).foldl round state)

/-- The state after `k` blocks more, the next of which starts at an offset. -/
def digestBlocks (message : ByteArray) : Nat → Nat → State → State
  | 0, _, state => state
  | k + 1, offset, state =>
      digestBlocks message k (offset + 64) (compress state (schedule message offset))

/-- A bit of one, zeros up to eight bytes below a whole number of blocks, and the length in bits. -/
def padding (size : Nat) : Bytes :=
  let bits := 8 * size
  0x80 :: List.replicate ((119 - size % 64) % 64) 0 ++
    ByteOrder.big.bytes (UInt32.ofNat (bits / UInt32.size)) ++
    ByteOrder.big.bytes (UInt32.ofNat bits)

def sha256 (message : ByteArray) : Bytes :=
  let padded := message ++ (padding message.size).toByteArray
  (digestBlocks padded (padded.size / 64) 0 .initial).words.flatMap ByteOrder.big.bytes

def hexDigit (n : UInt8) : Char := Nat.digitChar n.toNat

def hexText (s : Bytes) : List Char := s.flatMap fun b => [hexDigit (b / 16), hexDigit (b % 16)]

def hexValue? (c : Char) : Option UInt8 :=
  if '0' ≤ c ∧ c ≤ '9' then some (c.toUInt8 - 48)
  else if 'a' ≤ c ∧ c ≤ 'f' then some (c.toUInt8 - 87)
  else if 'A' ≤ c ∧ c ≤ 'F' then some (c.toUInt8 - 55)
  else none

def readHex? : List Char → Option Bytes
  | [] => some []
  | [_] => none
  | a :: b :: rest => do return (16 * (← hexValue? a) + (← hexValue? b)) :: (← readHex? rest)

/-- The label that may stand before the digits. -/
def label : List Char := ['s', 'h', 'a', '2', '5', '6', ':']

/-- The digest that a text spells, blanks and one label aside. -/
def readChecksum? (s : String) : Option Bytes :=
  let s := Text.trimChars s.toList
  let digits := if label.isPrefixOf s then s.drop label.length else s
  (readHex? digits).filter (·.length == 32)

def checksum (image : ByteArray) : String := String.ofList (label ++ hexText (sha256 image))

end MessageCatalog.Digest
