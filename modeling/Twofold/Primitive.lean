/-!
# Checked primitives

The four operators that look at the kind of their operands.
-/

namespace Twofold

/-- An operator that checks its operands. -/
inductive Primitive where
  | add
  | le
  | head
  | tail
deriving DecidableEq, Inhabited, Repr

namespace Primitive

/-- The operator as it is written. -/
def name : Primitive → String
  | add => "+"
  | le => "<="
  | head => "head"
  | tail => "tail"

/-- Whether the operands have to be numbers; otherwise they have to be pairs. -/
def isNumeric : Primitive → Bool
  | add | le => true
  | head | tail => false

/-- What every operand has to be. -/
def expected (p : Primitive) : String := if p.isNumeric then "number?" else "pair?"

/-- The number by which compiled code names the operator. -/
def code : Primitive → UInt32
  | add => 0
  | le => 1
  | head => 2
  | tail => 3

/-- The operator with a number. -/
def ofCode? (w : UInt32) : Option Primitive :=
  if w = 0 then some add
  else if w = 1 then some le
  else if w = 2 then some head
  else if w = 3 then some tail
  else none

end Primitive

end Twofold
