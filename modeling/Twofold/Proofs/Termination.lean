import Twofold.Proofs.Environment

/-!
# Evaluation ends

The body of a binding is evaluated after a value has been substituted in it, and may then be larger
and deeper than the binding itself; so neither the size nor the depth of what is evaluated goes
down. The number of bindings does, because a substitution leaves it as it is, and where it stays the
same the size goes down. Hence the expressions on which evaluation calls itself are well founded,
and the equations of evaluation have one solution.
-/

namespace Twofold

namespace Expr

/-- The evaluation of an expression calls itself on another one: an operand, a test or a branch, the
bound expression of a binding, or its body with some value substituted. -/
def CalledBy (callee : Expr) : Expr → Prop
  | num _ | bool _ | var _ => False
  | add a b | le a b | pair a b => callee = a ∨ callee = b
  | letIn x a b => callee = a ∨ ∃ v, callee = b.subst x v
  | ite a b c => callee = a ∨ callee = b ∨ callee = c
  | head a | tail a => callee = a

/-- The equations of evaluation, with `call` in place of the evaluation of the expressions on which
it calls itself, and of no others. -/
def evalStep : (e : Expr) → (call : ∀ callee, CalledBy callee e → Except EvalError Value) →
    Except EvalError Value
  | num n, _ => .ok (.num n)
  | bool b, _ => .ok (.bool b)
  | var x, _ => .error (.unbound x)
  | add a b, call => do Value.add (← call a (Or.inl rfl)) (← call b (Or.inr rfl))
  | le a b, call => do Value.le (← call a (Or.inl rfl)) (← call b (Or.inr rfl))
  | letIn x a b, call => do
    let v ← call a (Or.inl rfl)
    call (b.subst x v) (Or.inr ⟨v, rfl⟩)
  | ite a b c, call => do
    match ← call a (Or.inl rfl) with
    | .bool true => call b (Or.inr (Or.inl rfl))
    | .bool false => call c (Or.inr (Or.inr rfl))
    | _ => throw .nonBooleanTest
  | pair a b, call => do return .pair (← call a (Or.inl rfl)) (← call b (Or.inr rfl))
  | head a, call => do Value.head (← call a rfl)
  | tail a, call => do Value.tail (← call a rfl)

/-- Evaluation solves its equations. -/
theorem eval_eq_evalStep (e : Expr) : e.eval = evalStep e fun callee _ => callee.eval := by
  cases e with
  | num | bool | var | add | le | letIn | pair | head | tail => rw [eval, evalStep]
  | ite a b c =>
    rw [eval]
    rfl

/-! ## The measure -/

/-- The bindings of an expression, and then its nodes. -/
def weight (e : Expr) : Nat × Nat := (e.lets, e.size)

/-- A part of an expression without more bindings weighs less. -/
theorem weight_lt_of_part {a e : Expr} (bindings : a.lets ≤ e.lets) (nodes : a.size < e.size) :
    Prod.Lex (· < ·) (· < ·) a.weight e.weight := by
  rcases Nat.lt_or_eq_of_le bindings with fewer | same
  · exact .left _ _ fewer
  · rw [weight, weight, same]
    exact .right _ nodes

/-- The body of a binding has lost that binding, whatever has been substituted. -/
theorem weight_subst_lt (x : Name) (v : Value) (a b : Expr) :
    Prod.Lex (· < ·) (· < ·) (b.subst x v).weight (letIn x a b).weight := by
  refine .left _ _ ?_
  rw [lets_subst, lets]
  omega

/-- Every call is on an expression that weighs less. -/
theorem weight_lt_of_calledBy {callee e : Expr} (h : CalledBy callee e) :
    Prod.Lex (· < ·) (· < ·) callee.weight e.weight := by
  cases e with
  | num | bool | var => exact h.elim
  | add a b | le a b | pair a b =>
    rcases h with rfl | rfl
    all_goals exact weight_lt_of_part (by simp only [lets]; omega) (by simp only [size]; omega)
  | letIn x a b =>
    rcases h with rfl | ⟨v, rfl⟩
    · exact weight_lt_of_part (by simp only [lets]; omega) (by simp only [size]; omega)
    · exact weight_subst_lt x v a b
  | ite a b c =>
    rcases h with rfl | rfl | rfl
    all_goals exact weight_lt_of_part (by simp only [lets]; omega) (by simp only [size]; omega)
  | head a | tail a =>
    cases h
    exact weight_lt_of_part (by simp only [lets]; omega) (by simp only [size]; omega)

theorem wellFounded_calledBy : WellFounded CalledBy :=
  Subrelation.wf weight_lt_of_calledBy
    (InvImage.wf weight (WellFounded.prod_lex Nat.lt_wfRel.wf Nat.lt_wfRel.wf))

/-! ## Solutions -/

/-- What solves the equations of evaluation is evaluation. -/
theorem eq_eval_of_evalStep {f : Expr → Except EvalError Value}
    (h : ∀ e, f e = evalStep e fun callee _ => f callee) : f = eval := by
  funext e
  induction e using wellFounded_calledBy.induction with
  | _ e ih =>
    have calls : (fun callee (_ : CalledBy callee e) => f callee) =
        fun callee _ => callee.eval := by
      funext callee called
      exact ih callee called
    rw [h, calls, ← eval_eq_evalStep]

/-- Three copies of a pair in place of its name, below more pairs than the binding is deep. -/
theorem exists_larger_subst :
    ∃ (x : Name) (a b : Expr) (v : Value), a.eval = .ok v ∧
      (letIn x a b).size < (b.subst x v).size ∧ (letIn x a b).depth < (b.subst x v).depth := by
  let v : Value := .pair (.pair (.num ⟨0⟩) (.num ⟨0⟩)) (.num ⟨0⟩)
  exact ⟨"p", v.toExpr, pair (pair (var "p") (var "p")) (var "p"), v, v.eval_toExpr, by decide,
    by decide⟩

/-- Evaluation ends on every expression. A substitution leaves the number of bindings as it is,
though it can make the body of a binding larger and deeper than the binding; with every call the
number of bindings and then of nodes goes down; so evaluation is what recursion along its calls
makes of its equations, and nothing else solves them. -/
theorem eval_terminates :
    (∀ (x : Name) (v : Value) (e : Expr), (e.subst x v).lets = e.lets) ∧
      (∃ (x : Name) (a b : Expr) (v : Value), a.eval = .ok v ∧
        (letIn x a b).size < (b.subst x v).size ∧ (letIn x a b).depth < (b.subst x v).depth) ∧
      (∀ callee e, CalledBy callee e →
        Prod.Lex (· < ·) (· < ·) (callee.lets, callee.size) (e.lets, e.size)) ∧
      ∃ ends : WellFounded CalledBy, eval = ends.fix evalStep ∧
        ∀ f : Expr → Except EvalError Value,
          (∀ e, f e = evalStep e fun callee _ => f callee) → f = eval := by
  refine ⟨lets_subst, exists_larger_subst, fun _ _ => weight_lt_of_calledBy, wellFounded_calledBy,
    ?_, fun _ => eq_eval_of_evalStep⟩
  exact (eq_eval_of_evalStep (WellFounded.fix_eq wellFounded_calledBy evalStep)).symm

end Expr

end Twofold
