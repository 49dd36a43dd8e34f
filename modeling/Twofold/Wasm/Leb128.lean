/-!
# LEB128

Integers as bytes of seven bits each, lowest first, every byte but the last one marked by its
eighth bit. Each integer has exactly one shortest form, and that is the one written. Signed integers
are in two's complement: the seventh bit of the last byte is their sign.
-/

namespace Twofold.Wasm.Leb128

/-- An unsigned integer. -/
def unsigned (n : Nat) : List UInt8 :=
  if n < 128 then [UInt8.ofNat n] else UInt8.ofNat (n % 128 + 128) :: unsigned (n / 128)

/-- A signed integer. -/
def signed (n : Int) : List UInt8 :=
  if -64 ≤ n ∧ n < 64 then [UInt8.ofNat (n % 128).toNat]
  else UInt8.ofNat ((n % 128).toNat + 128) :: signed (n / 128)
termination_by n.natAbs
decreasing_by omega

end Twofold.Wasm.Leb128
