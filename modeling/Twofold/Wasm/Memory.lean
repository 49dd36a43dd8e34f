import Twofold.Bytes
import Twofold.Wasm.Module

/-!
# Linear memory

A memory is a byte string of whole pages that can grow up to a limit. An access that reaches past
its end is for the user of the memory to refuse: `holds` tells.
-/

namespace Twofold.Wasm

/-- A memory, and the number of pages it may grow to. -/
structure Memory where
  bytes : ByteArray
  limit : Nat

namespace Memory

/-- A memory of zeros with data laid over it. -/
def new (limits : Limits) (data : List DataSegment) : Memory where
  bytes := data.foldl (fun m d => Bytes.overlay m d.offset.toNat d.bytes)
    (Bytes.zeros (limits.min * pageSize))
  limit := limits.max

/-- The number of pages. -/
def pages (m : Memory) : Nat := m.bytes.size / pageSize

/-- Whether the memory may get `count` more pages. -/
def canGrow (m : Memory) (count : Nat) : Bool := decide (m.pages + count ≤ m.limit)

/-- The memory with `count` more pages of zeros. -/
def grow (m : Memory) (count : Nat) : Memory :=
  { m with bytes := m.bytes ++ Bytes.zeros (count * pageSize) }

/-- Whether the `count` bytes from address `a` on lie inside. -/
def holds (m : Memory) (a count : Nat) : Bool := decide (a + count ≤ m.bytes.size)

/-- The number in the `count` bytes from address `a` on. -/
def load (m : Memory) (a count : Nat) : Nat := Bytes.toNat (Bytes.slice m.bytes a count)

/-- The memory with a number in the `count` bytes from address `a` on. -/
def store (m : Memory) (a count n : Nat) : Memory :=
  { m with bytes := Bytes.write m.bytes a (Bytes.ofNat count n) }

end Memory

end Twofold.Wasm
