import Twofold.Expr.Subst
import Twofold.Failure
import Twofold.Primitive

/-!
# Evaluation by substitution

Operands are evaluated from left to right, and the first failure ends the evaluation. The operands
of `+` and `<=` are both evaluated before either is looked at, and of two ill-typed ones the left
one is reported. A binding is evaluated by substituting the value of its bound expression, so the
recursion descends on the number of bindings first and on the size second.
-/

namespace Twofold

/-- Why an evaluation failed. -/
inductive EvalError where
  /-- A name that no enclosing binding provides. -/
  | unbound (x : Name)
  /-- A test that is not a boolean. -/
  | nonBooleanTest
  /-- An operand that is not a number, its place, and the other operand. -/
  | typeMismatch (operator : String) (position : Nat) (given other : Value)
  /-- An operand that is not a pair. -/
  | notAPair (operator : String) (given : Value)
  /-- A state that evaluation does not reach. -/
  | internal (what : String)
deriving DecidableEq, Inhabited, Repr

namespace EvalError

/-- The kind of a failure. -/
def kind : EvalError → FailureKind
  | unbound _ => .freeVariable
  | nonBooleanTest => .nonBooleanTest
  | typeMismatch .. => .typeMismatch
  | notAPair .. => .notAPair
  | internal _ => .internal

/-- The words for a failure. -/
def message : EvalError → String
  | unbound x => Wording.unbound x
  | nonBooleanTest => Wording.nonBooleanTest
  | typeMismatch operator position given other =>
    Wording.contractViolation operator (Primitive.expected .add) given
      ++ Wording.operandPosition position other
  | notAPair operator given => Wording.contractViolation operator (Primitive.expected .head) given
  | internal what => Wording.internal what

end EvalError

namespace Value

/-- Applies an operation on numbers to two values. -/
def numeric (operator : String) (op : Number → Number → Value) :
    Value → Value → Except EvalError Value
  | num m, num n => .ok (op m n)
  | num m, given => .error (.typeMismatch operator 2 given (num m))
  | given, other => .error (.typeMismatch operator 1 given other)

/-- The sum of two numbers. -/
def add : Value → Value → Except EvalError Value :=
  numeric (Primitive.name .add) fun m n => num (m.add n)

/-- The comparison of two numbers. -/
def le : Value → Value → Except EvalError Value :=
  numeric (Primitive.name .le) fun m n => bool (m.le n)

/-- The first component of a pair. -/
def head : Value → Except EvalError Value
  | pair a _ => .ok a
  | given => .error (.notAPair (Primitive.name .head) given)

/-- The second component of a pair. -/
def tail : Value → Except EvalError Value
  | pair _ b => .ok b
  | given => .error (.notAPair (Primitive.name .tail) given)

end Value

namespace Expr

/-- The value of an expression. -/
def eval : Expr → Except EvalError Value
  | num n => .ok (.num n)
  | bool b => .ok (.bool b)
  | var x => .error (.unbound x)
  | add a b => do Value.add (← a.eval) (← b.eval)
  | le a b => do Value.le (← a.eval) (← b.eval)
  | letIn x a b => do
    let v ← a.eval
    (b.subst x v).eval
  | ite a b c => do
    match ← a.eval with
    | .bool true => b.eval
    | .bool false => c.eval
    | _ => throw .nonBooleanTest
  | pair a b => do return .pair (← a.eval) (← b.eval)
  | head a => do Value.head (← a.eval)
  | tail a => do Value.tail (← a.eval)
termination_by e => (e.lets, e.size)
decreasing_by
  all_goals
    simp only [Prod.lex_def, lets, size, lets_subst, true_and]
    omega

end Expr

end Twofold
