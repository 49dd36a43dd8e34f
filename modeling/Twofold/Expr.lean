import Twofold.Number
import Twofold.NameSet

/-!
# Expressions

Numbers, booleans and pairs, with addition, comparison, local binding, choice and the two
projections of a pair.
-/

namespace Twofold

/-- An expression. -/
inductive Expr where
  | num (n : Number)
  | bool (b : Bool)
  | var (x : Name)
  | add (left right : Expr)
  | le (left right : Expr)
  /-- `x` stands for the value of `bound` in `body`, and only there. -/
  | letIn (x : Name) (bound body : Expr)
  | ite (test yes no : Expr)
  | pair (first second : Expr)
  | head (arg : Expr)
  | tail (arg : Expr)
deriving DecidableEq, Inhabited, Repr

namespace Expr

/-- The nesting of an expression; that of a leaf is `0`. -/
def depth : Expr → Nat
  | num _ | bool _ | var _ => 0
  | add a b | le a b | letIn _ a b | pair a b => 1 + max a.depth b.depth
  | ite a b c => 1 + max a.depth (max b.depth c.depth)
  | head a | tail a => 1 + a.depth

/-- The number of nodes. -/
def size : Expr → Nat
  | num _ | bool _ | var _ => 1
  | add a b | le a b | letIn _ a b | pair a b => 1 + a.size + b.size
  | ite a b c => 1 + a.size + b.size + c.size
  | head a | tail a => 1 + a.size

/-- The number of local bindings. -/
def lets : Expr → Nat
  | num _ | bool _ | var _ => 0
  | add a b | le a b | pair a b => a.lets + b.lets
  | letIn _ a b => 1 + a.lets + b.lets
  | ite a b c => a.lets + b.lets + c.lets
  | head a | tail a => a.lets

/-- Equality up to arithmetic equality of numbers: the zeros agree, and an expression with a NaN
does not even agree with itself. -/
def ieeeEq : Expr → Expr → Bool
  | num m, num n => m.ieeeEq n
  | bool b, bool c => b == c
  | var x, var y => x == y
  | add a b, add c d | le a b, le c d | pair a b, pair c d => a.ieeeEq c && b.ieeeEq d
  | letIn x a b, letIn y c d => x == y && a.ieeeEq c && b.ieeeEq d
  | ite a b c, ite d e f => a.ieeeEq d && b.ieeeEq e && c.ieeeEq f
  | head a, head b | tail a, tail b => a.ieeeEq b
  | _, _ => false

end Expr

end Twofold
