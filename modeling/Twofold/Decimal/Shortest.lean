/-!
# The shortest decimal of a binary64 magnitude

A magnitude `b` (the pattern of a number without its sign) stands for a multiple of `2 ^ -1074`.
The reals that round to it lie between the midpoints with its two neighbours `b - 1` and `b + 1`,
the midpoints themselves included exactly when `b` is even. Among the decimals `d * 10 ^ k` of that
interval `shortest` picks one with the fewest digits, the nearest of those, and leaves the choice
between two equally near ones to a `Tie` rule. All comparisons are exact, on natural numbers.
-/

namespace Twofold

/-- The decimal `digits * 10 ^ exponent`. -/
structure Decimal where
  digits : Nat
  exponent : Int
deriving DecidableEq, Repr

namespace Decimal

/-- Which of two equally near decimals is taken. -/
inductive Tie where
  | up
  | even
deriving DecidableEq, Repr

/-- The value of magnitude `b` in units of `2 ^ -1074`. -/
def units (b : Nat) : Nat :=
  if b >>> 52 = 0 then b % 1 <<< 52 else (1 <<< 52 + b % 1 <<< 52) <<< (b >>> 52 - 1)

/-- The midpoint of `b - 1` and `b`, in units of `2 ^ -1075`. -/
def lower (b : Nat) : Nat := units (b - 1) + units b

/-- The midpoint of `b` and `b + 1`, in units of `2 ^ -1075`. -/
def upper (b : Nat) : Nat := units b + units (b + 1)

/-- With `shrink`, the size of `10 ^ k` as a fraction: `10 ^ k` is `scale k / shrink k` units of
`2 ^ -1075`. -/
def scale (k : Int) : Nat := Nat.pow 10 k.toNat <<< 1075

@[inherit_doc scale]
def shrink (k : Int) : Nat := Nat.pow 10 (-k).toNat

/-- Whether a decimal rounds to the magnitude `b`. -/
def readsBack (b : Nat) (d : Decimal) : Bool :=
  let x := d.digits * scale d.exponent
  let lo := lower b * shrink d.exponent
  let hi := upper b * shrink d.exponent
  if b % 2 = 0 then decide (lo ≤ x ∧ x ≤ hi) else decide (lo < x ∧ x < hi)

/-- The multiple of `10 ^ k` that stands for `b`: of the two multiples around the value the one
that rounds to `b`, the nearer one if both do. -/
def onGrid (tie : Tie) (b : Nat) (k : Int) : Option Decimal :=
  let value := 2 * units b * shrink k
  let below := value / scale k
  match readsBack b ⟨below, k⟩, readsBack b ⟨below + 1, k⟩ with
  | true, false => some ⟨below, k⟩
  | false, true => some ⟨below + 1, k⟩
  | false, false => none
  | true, true =>
    match compare (2 * value) ((2 * below + 1) * scale k), tie with
    | .lt, _ => some ⟨below, k⟩
    | .gt, _ => some ⟨below + 1, k⟩
    | .eq, .up => some ⟨below + 1, k⟩
    | .eq, .even => some ⟨below + below % 2, k⟩

/-- The first hit on the grids of step `10 ^ k`, `10 ^ (k - 1)`, … -/
def search (tie : Tie) (b : Nat) : (grids : Nat) → (k : Int) → Option Decimal
  | 0, _ => none
  | n + 1, k =>
    match onGrid tie b k with
    | some d => some d
    | none => search tie b n (k - 1)

/-- Whether `10 ^ k` is at most the value of `b`. -/
def reaches (b : Nat) (k : Int) : Bool := decide (scale k ≤ 2 * units b * shrink k)

/-- Moves `k` up while the next power of ten still is at most the value. -/
def climb (b : Nat) : (steps : Nat) → (k : Int) → Int
  | 0, k => k
  | n + 1, k => if reaches b (k + 1) then climb b n (k + 1) else k

/-- The exponent of the first digit: `10 ^ k ≤ value < 10 ^ (k + 1)`. The binary logarithm gives
it up to one, from below. -/
def leadingExponent (b : Nat) : Int :=
  climb b 3 (((units b).log2 - 1074) * 30103 / 100000 - 1)

/-- Every digit of the value. -/
def exact (b : Nat) : Decimal := ⟨2 * units b * Nat.pow 5 1075, -1075⟩

/-- The same decimal without trailing zeros among its digits. -/
def normalize (d : Decimal) : Decimal :=
  if d.digits ≠ 0 ∧ d.digits % 10 = 0 then normalize ⟨d.digits / 10, d.exponent + 1⟩ else d
termination_by d.digits
decreasing_by grind

/-- The shortest decimal that rounds to `b`. Seventeen digits always suffice; a magnitude for which
they did not would be written out in full. -/
def shortest (tie : Tie) (b : Nat) : Decimal :=
  if b = 0 then ⟨0, 0⟩
  else
    match search tie b 17 (leadingExponent b) with
    | some d => d.normalize
    | none => (exact b).normalize

end Decimal

end Twofold
