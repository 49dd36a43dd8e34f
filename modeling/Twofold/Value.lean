import Twofold.Expr

/-!
# Values

The results of evaluation, and the expressions that denote them.
-/

namespace Twofold

/-- A value. Equality compares numbers by their bits. -/
inductive Value where
  | num (n : Number)
  | bool (b : Bool)
  | pair (first second : Value)
deriving DecidableEq, Inhabited, Repr

/-- The expression that denotes a value. -/
def Value.toExpr : Value → Expr
  | num n => .num n
  | bool b => .bool b
  | pair a b => .pair a.toExpr b.toExpr

end Twofold
