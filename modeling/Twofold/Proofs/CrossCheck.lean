import Twofold.Proofs.EvalFailures
import Twofold.Trial.Check

/-!
# Cross-checks

A cross-check looks at outcomes only: it agrees exactly if they are equal, and then reports the one
of evaluation by substitution, which is never an internal failure.
-/

namespace Twofold

namespace Trial

/-- A cross-check agrees exactly if the outcomes are equal. -/
theorem check_eq_ok_iff {e : Expr} {a : Agreement} :
    check e = .ok a ↔
      Outcome.ofResult ReferenceError.message (Reference.eval e) =
          Outcome.ofResult EvalError.message e.eval ∧
        a = ⟨Outcome.ofResult EvalError.message e.eval, kindOf EvalError.kind e.eval⟩ := by
  simp only [check, referenced, evaluated]
  by_cases same : Outcome.ofResult ReferenceError.message (Reference.eval e) =
      Outcome.ofResult EvalError.message e.eval
  · simp [same, eq_comm]
  · simp [same]

/-- A disagreement names the expression by its text. -/
theorem expr_eq_of_check_eq_error {e : Expr} {d : Disagreement} (h : check e = .error d) :
    d.expr = e.text := by
  simp only [check] at h
  split at h
  · cases h
  · cases h
    rfl

theorem kindOf_eval_ne_internal (e : Expr) : kindOf EvalError.kind e.eval ≠ some .internal := by
  cases outcome : e.eval with
  | ok v => simp [kindOf]
  | error err =>
    have regular := (Expr.truthful_of_eval outcome).kind_ne_internal
    simpa [kindOf] using regular

end Trial

end Twofold
