import Twofold.Number
import Twofold.Decimal.Shortest

/-!
# Written numbers

A `Layout` says how the shortest decimal of a number is spelled: which leading exponents are
written positionally, and whether a whole number still shows a fraction. `plain` is the layout of
expressions and values.
-/

namespace Twofold

namespace Decimal

/-- The decimal digits of a natural number, most significant first. -/
def digitChars (n : Nat) : List Char := Nat.toDigits 10 n

/-- How a decimal is spelled. -/
structure Layout where
  /-- The choice between two equally near decimals. -/
  tie : Tie
  /-- The exponents of the first digit for which the decimal is written positionally. -/
  positional : Int → Bool
  /-- Whether a whole number is written with the fraction `0`. -/
  fraction : Bool

namespace Layout

/-- The digits before and after the point of `digits * 10 ^ exponent`. -/
def split (digits : List Char) (exponent : Int) : List Char × List Char :=
  let places := (-exponent).toNat
  if 0 ≤ exponent then (digits ++ List.replicate exponent.toNat '0', [])
  else if places < digits.length then
    (digits.take (digits.length - places), digits.drop (digits.length - places))
  else (['0'], List.replicate (places - digits.length) '0' ++ digits)

/-- `12.5`, `0.001`, `1200`. -/
def spellPositional (l : Layout) (d : Decimal) : List Char :=
  match split (digitChars d.digits) d.exponent with
  | (whole, []) => if l.fraction then whole ++ ['.', '0'] else whole
  | (whole, places) => whole ++ '.' :: places

/-- `1.25e+20`, `5e-324`: one digit before the point, and a point only before further digits. -/
def spellScientific (d : Decimal) (leading : Int) : List Char :=
  let mantissa := match digitChars d.digits with
    | first :: second :: rest => first :: '.' :: second :: rest
    | short => short
  mantissa ++ 'e' :: (if leading < 0 then '-' else '+') :: digitChars leading.natAbs

/-- The spelling of the decimal `d`. -/
def spell (l : Layout) (d : Decimal) : List Char :=
  let leading := d.exponent + (digitChars d.digits).length - 1
  if l.positional leading then l.spellPositional d else spellScientific d leading

end Layout

end Decimal

namespace Number

open Decimal (Layout)

/-- The spelling of a number. The infinities are `inf` and `-inf`, and a NaN is `NaN`. -/
def spell (l : Layout) (n : Number) : String :=
  if n.isNaN then "NaN"
  else
    let sign := if n.isNegative then ['-'] else []
    String.ofList (sign ++
      if n.isFinite then l.spell (Decimal.shortest l.tie n.magnitude) else ['i', 'n', 'f'])

/-- Numbers in expressions and values: always positional, whole numbers without a point, the upper
of two equally near decimals. -/
def plain : Layout where
  tie := .up
  positional _ := true
  fraction := false

/-- The text of a number in expressions and values. -/
def text (n : Number) : String := n.spell plain

end Number

end Twofold
