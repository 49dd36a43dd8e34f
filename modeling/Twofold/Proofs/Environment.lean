import Mathlib
import Twofold.Eval

/-!
# Evaluation in an environment

Instead of substituting the value of a bound expression, an evaluation can carry what the names in
scope stand for. Evaluation in an environment is evaluation by substitution after all names of the
environment have been replaced, so an expression on its own has the same result both ways. The
recursion is on the expression, which makes this the form for inductions.
-/

namespace Twofold

/-- What the names in scope stand for. -/
abbrev Env := Name → Option Value

namespace Env

/-- No name stands for anything. -/
def empty : Env := fun _ => none

/-- Lets a name stand for a value, in front of what it stood for. -/
def bind (ρ : Env) (x : Name) (v : Value) : Env := fun y => if y = x then some v else ρ y

/-- Takes away what a name stands for. -/
def hide (ρ : Env) (x : Name) : Env := fun y => if y = x then none else ρ y

@[simp] theorem hide_self (ρ : Env) (x : Name) : ρ.hide x x = none := by simp [hide]

theorem hide_bind_self (ρ : Env) (x : Name) (v : Value) : (ρ.bind x v).hide x = ρ.hide x := by
  funext y
  by_cases h : y = x <;> simp [hide, bind, h]

theorem hide_bind_comm (ρ : Env) {x y : Name} (v : Value) (h : y ≠ x) :
    (ρ.bind x v).hide y = (ρ.hide y).bind x v := by
  funext z
  by_cases hx : z = x
  · subst hx
    simp [hide, bind, Ne.symm h]
  · by_cases hy : z = y
    · subst hy
      simp [hide, bind, h]
    · simp [hide, bind, hx, hy]

theorem bind_hide_self (ρ : Env) (x : Name) (v : Value) : (ρ.hide x).bind x v = ρ.bind x v := by
  funext y
  by_cases h : y = x <;> simp [hide, bind, h]

end Env

namespace Expr

/-- Replaces every free occurrence of a name of the environment. -/
def substAll : Expr → Env → Expr
  | num n, _ => num n
  | bool b, _ => bool b
  | var x, ρ => match ρ x with
    | some v => v.toExpr
    | none => var x
  | add a b, ρ => add (a.substAll ρ) (b.substAll ρ)
  | le a b, ρ => le (a.substAll ρ) (b.substAll ρ)
  | letIn x a b, ρ => letIn x (a.substAll ρ) (b.substAll (ρ.hide x))
  | ite a b c, ρ => ite (a.substAll ρ) (b.substAll ρ) (c.substAll ρ)
  | pair a b, ρ => pair (a.substAll ρ) (b.substAll ρ)
  | head a, ρ => head (a.substAll ρ)
  | tail a, ρ => tail (a.substAll ρ)

/-- The value of an expression in an environment. -/
def evalIn : Expr → Env → Except EvalError Value
  | num n, _ => .ok (.num n)
  | bool b, _ => .ok (.bool b)
  | var x, ρ => match ρ x with
    | some v => .ok v
    | none => .error (.unbound x)
  | add a b, ρ => do Value.add (← a.evalIn ρ) (← b.evalIn ρ)
  | le a b, ρ => do Value.le (← a.evalIn ρ) (← b.evalIn ρ)
  | letIn x a b, ρ => do
    let v ← a.evalIn ρ
    b.evalIn (ρ.bind x v)
  | ite a b c, ρ => do
    match ← a.evalIn ρ with
    | .bool true => b.evalIn ρ
    | .bool false => c.evalIn ρ
    | _ => throw .nonBooleanTest
  | pair a b, ρ => do return .pair (← a.evalIn ρ) (← b.evalIn ρ)
  | head a, ρ => do Value.head (← a.evalIn ρ)
  | tail a, ρ => do Value.tail (← a.evalIn ρ)

end Expr

/-- The expression that denotes a value has that value. -/
@[simp] theorem Value.eval_toExpr (v : Value) : v.toExpr.eval = .ok v := by
  induction v with
  | num n => simp [toExpr, Expr.eval]
  | bool b => simp [toExpr, Expr.eval]
  | pair a b iha ihb =>
    rw [toExpr, Expr.eval, iha, ihb]
    rfl

/-- The expression that denotes a value has no names to replace. -/
@[simp] theorem Value.subst_toExpr (x : Name) (w v : Value) : v.toExpr.subst x w = v.toExpr := by
  induction v with
  | num n => rfl
  | bool b => rfl
  | pair a b iha ihb => simp [toExpr, Expr.subst, iha, ihb]

namespace Expr

/-- Nothing is replaced in the empty environment. -/
theorem substAll_eq_self (e : Expr) {ρ : Env} (h : ∀ x, ρ x = none) : e.substAll ρ = e := by
  induction e generalizing ρ with
  | num n => rfl
  | bool b => rfl
  | var x => simp [substAll, h x]
  | letIn x a b iha ihb =>
    have hide : ∀ y, ρ.hide x y = none := by
      intro y
      simp [Env.hide, h y]
    rw [substAll, iha h, ihb hide]
  | add a b iha ihb | le a b iha ihb | pair a b iha ihb => rw [substAll, iha h, ihb h]
  | ite a b c iha ihb ihc => rw [substAll, iha h, ihb h, ihc h]
  | head a iha | tail a iha => rw [substAll, iha h]

/-- Replacing one more name extends the environment by it. -/
theorem subst_substAll (x : Name) (v : Value) (e : Expr) {ρ : Env} (h : ρ x = none) :
    (e.substAll ρ).subst x v = e.substAll (ρ.bind x v) := by
  induction e generalizing ρ with
  | num n => rfl
  | bool b => rfl
  | var y =>
    by_cases hy : y = x
    · subst hy
      simp [substAll, subst, Env.bind, h]
    · cases hρ : ρ y with
      | none => simp [substAll, subst, Env.bind, hy, hρ]
      | some w => simp [substAll, Env.bind, hy, hρ]
  | letIn y a b iha ihb =>
    rw [substAll, subst, iha h]
    by_cases hy : y = x
    · -- The inner binding of `x` hides both what the environment and the substitution give it.
      subst hy
      simp [substAll, Env.hide_bind_self]
    · have hidden : ρ.hide y x = none := by simp [Env.hide, h]
      rw [if_neg hy, ihb hidden, substAll, Env.hide_bind_comm ρ v hy]
  | add a b iha ihb | le a b iha ihb | pair a b iha ihb =>
    rw [substAll, subst, iha h, ihb h, substAll]
  | ite a b c iha ihb ihc => rw [substAll, subst, iha h, ihb h, ihc h, substAll]
  | head a iha | tail a iha => rw [substAll, subst, iha h, substAll]

/-- Evaluating in an environment is evaluating after its names have been replaced. -/
theorem eval_substAll (e : Expr) (ρ : Env) : (e.substAll ρ).eval = e.evalIn ρ := by
  induction e generalizing ρ with
  | num n => rw [substAll, eval, evalIn]
  | bool b => rw [substAll, eval, evalIn]
  | var x => cases h : ρ x <;> simp [substAll, evalIn, eval, h]
  | letIn x a b iha ihb =>
    rw [substAll, eval, evalIn, iha]
    congr 1
    funext v
    rw [subst_substAll x v b (Env.hide_self ρ x), Env.bind_hide_self, ihb]
  | add a b iha ihb | le a b iha ihb | pair a b iha ihb => rw [substAll, eval, evalIn, iha, ihb]
  | ite a b c iha ihb ihc =>
    rw [substAll, eval, evalIn, iha]
    congr 1
    funext v
    cases v with
    | num n => rfl
    | bool t =>
      cases t with
      | true => exact ihb ρ
      | false => exact ihc ρ
    | pair v w => rfl
  | head a iha | tail a iha => rw [substAll, eval, evalIn, iha]

/-- An expression on its own is evaluated in the empty environment. -/
theorem eval_eq_evalIn (e : Expr) : e.eval = e.evalIn .empty := by
  have none : ∀ x, Env.empty x = .none := fun _ => rfl
  rw [← eval_substAll, substAll_eq_self e none]

end Expr

end Twofold
