/-!
# Byte strings

Views of and changes to byte arrays, and numbers as little-endian bytes.
-/

namespace Twofold

namespace Bytes

/-- The `count` low bytes of a number, lowest first. -/
def ofNat : (count : Nat) → Nat → List UInt8
  | 0, _ => []
  | count + 1, n => UInt8.ofNat n :: ofNat count (n / 256)

/-- The number whose bytes, lowest first, are given. -/
def toNat : List UInt8 → Nat
  | [] => 0
  | b :: bs => b.toNat + 256 * toNat bs

/-- The byte at an address; `0` outside. -/
def get (m : ByteArray) (a : Nat) : UInt8 := if h : a < m.size then m[a] else 0

/-- The `count` bytes from address `a` on. -/
def slice (m : ByteArray) : (a count : Nat) → List UInt8
  | _, 0 => []
  | a, count + 1 => get m a :: slice m (a + 1) count

/-- Replaces the byte at an address inside. -/
def set (m : ByteArray) (a : Nat) (b : UInt8) : ByteArray :=
  if h : a < m.size then m.set a b h else m

/-- Replaces the bytes from address `a` on. -/
def write (m : ByteArray) : (a : Nat) → List UInt8 → ByteArray
  | _, [] => m
  | a, b :: bs => write (set m a b) (a + 1) bs

/-- A run of zero bytes. -/
def zeros (n : Nat) : ByteArray :=
  if n = 0 then .empty
  else
    let half := zeros (n / 2)
    if n % 2 = 0 then half ++ half else (half ++ half).push 0

/-- Lays `d` over the bytes from address `a` on. -/
def overlay (m : ByteArray) (a : Nat) (d : ByteArray) : ByteArray :=
  m.extract 0 a ++ d ++ m.extract (a + d.size) m.size

/-- One byte string after another. -/
def concat (parts : List ByteArray) : ByteArray := parts.foldl (· ++ ·) .empty

end Bytes

end Twofold
