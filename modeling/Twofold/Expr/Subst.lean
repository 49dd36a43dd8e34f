import Twofold.Value

/-!
# Substitution

Values hold no names, so replacing a name by a value captures nothing and renames nothing. The
number of local bindings stays the same, because the expression that denotes a value has none.
-/

namespace Twofold

namespace Expr

/-- Replaces the free occurrences of `x` by the expression that denotes `v`. In an inner binding of
`x` itself only the bound expression is reached. -/
def subst (x : Name) (v : Value) : Expr → Expr
  | num n => num n
  | bool b => bool b
  | var y => if y = x then v.toExpr else var y
  | add a b => add (a.subst x v) (b.subst x v)
  | le a b => le (a.subst x v) (b.subst x v)
  | letIn y a b => letIn y (a.subst x v) (if y = x then b else b.subst x v)
  | ite a b c => ite (a.subst x v) (b.subst x v) (c.subst x v)
  | pair a b => pair (a.subst x v) (b.subst x v)
  | head a => head (a.subst x v)
  | tail a => tail (a.subst x v)

end Expr

@[simp] theorem Value.lets_toExpr (v : Value) : v.toExpr.lets = 0 := by
  induction v with
  | num | bool => rfl
  | pair a b iha ihb => simp [toExpr, Expr.lets, iha, ihb]

namespace Expr

@[simp] theorem lets_subst (x : Name) (v : Value) (e : Expr) : (e.subst x v).lets = e.lets := by
  induction e with
  | var y => by_cases h : y = x <;> simp [subst, h, lets]
  | letIn y a b iha ihb => by_cases h : y = x <;> simp [subst, h, lets, iha, ihb]
  | num | bool => rfl
  | add a b iha ihb | le a b iha ihb | pair a b iha ihb => simp [subst, lets, iha, ihb]
  | ite a b c iha ihb ihc => simp [subst, lets, iha, ihb, ihc]
  | head a iha | tail a iha => simp [subst, lets, iha]

end Expr

end Twofold
