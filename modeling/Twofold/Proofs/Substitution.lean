import Twofold.Proofs.ConstantFolding
import Twofold.Proofs.EvalFailures

/-!
# Substitution and evaluation

Substituting a value for a name and evaluating is evaluating where the name stands for the value. So
a substitution shows in the result of an expression exactly if the expression on its own fails at
that very name, be there other occurrences of it or not.
-/

namespace Twofold

namespace Expr

/-- Replacing one name is replacing the names of an environment that provides only this one. -/
theorem subst_eq_substAll (x : Name) (v : Value) (e : Expr) :
    e.subst x v = e.substAll (Env.empty.bind x v) := by
  have untouched : e.substAll .empty = e := substAll_eq_self e fun _ => rfl
  calc e.subst x v
    _ = (e.substAll .empty).subst x v := by rw [untouched]
    _ = e.substAll (Env.empty.bind x v) := subst_substAll x v e rfl

theorem eval_subst (x : Name) (v : Value) (e : Expr) :
    (e.subst x v).eval = e.evalIn (Env.empty.bind x v) := by
  rw [subst_eq_substAll, eval_substAll]

/-- After a name has been replaced, no evaluation fails at it. -/
theorem eval_subst_ne_unbound (x : Name) (v : Value) (e : Expr) :
    (e.subst x v).eval ≠ .error (.unbound x) := by
  intro failed
  rw [eval_subst] at failed
  have missing := missing_of_evalIn failed
  simp [Env.bind] at missing

/-- A substitution leaves the value or the failure of an expression as it is, unless the expression
fails at the name that is replaced; and then it does not. -/
theorem eval_subst_eq_iff (x : Name) (v : Value) (e : Expr) :
    (e.subst x v).eval = e.eval ↔ e.eval ≠ .error (.unbound x) := by
  constructor
  · intro same failed
    exact eval_subst_ne_unbound x v e (same.trans failed)
  · intro elsewhere
    rw [eval_eq_evalIn] at elsewhere
    rw [eval_subst, eval_eq_evalIn]
    rcases e.resolves_evalIn (Env.extends_empty (Env.empty.bind x v)) with
      same | ⟨y, -, provided, failed⟩
    · exact same
    · -- The environment of the substitution provides nothing but `x`.
      have here : y = x := by
        by_contra other
        exact provided (if_neg other)
      exact absurd (here ▸ failed) elsewhere

end Expr

end Twofold
