/-!
# Binary64 numbers

A number is its 64-bit pattern, so equality of numbers is equality of bits: the two zeros are
different numbers, and a NaN equals itself. The operations of the language, addition and `≤`, are
those of IEEE 754 arithmetic and look through the pattern; so does `ieeeEq`, under which the zeros
agree and a NaN agrees with nothing. All NaNs that arithmetic produces have one pattern.
-/

namespace Twofold

/-- A binary64 number, identified by its bits. -/
structure Number where
  bits : UInt64
deriving DecidableEq, Inhabited, Repr

namespace Number

/-- The arithmetic value behind a pattern. -/
def toFloat (n : Number) : Float := Float.ofBits n.bits

/-- The pattern of an arithmetic value. -/
def ofFloat (x : Float) : Number := ⟨x.toBits⟩

/-- The sum, rounded to nearest even. -/
def add (a b : Number) : Number := ofFloat (a.toFloat + b.toFloat)

/-- Whether `a ≤ b`; false as soon as one of them is a NaN. -/
def le (a b : Number) : Bool := decide (a.toFloat ≤ b.toFloat)

/-- Arithmetic equality: the zeros are equal, a NaN equals nothing. -/
def ieeeEq (a b : Number) : Bool := a.toFloat == b.toFloat

/-- Whether the sign bit is set. -/
def isNegative (n : Number) : Bool := decide (1 <<< 63 ≤ n.bits.toNat)

/-- The pattern without its sign bit. Patterns of finite numbers are ordered as their absolute
values are. -/
def magnitude (n : Number) : Nat := n.bits.toNat % 1 <<< 63

/-- The magnitude of the infinities; larger ones are NaNs. -/
def infinity : Nat := 2047 <<< 52

/-- Neither an infinity nor a NaN. -/
def isFinite (n : Number) : Bool := decide (n.magnitude < infinity)

/-- Beyond the infinities there are only NaNs. -/
def isNaN (n : Number) : Bool := decide (infinity < n.magnitude)

end Number

end Twofold
