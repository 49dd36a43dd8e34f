import Twofold.Proofs.Limits
import Twofold.Proofs.WellTyped

/-!
# Failures of compilation

The code generator fails in three ways: at either of its limits, or because a body without locals
declares some. Every failure of compilation is one of them.
-/

namespace Twofold

/-- A failure that the code generator can raise. -/
inductive CompileError.Raised : CompileError → Prop where
  | tooManyLocals : Raised .tooManyLocals
  | dataTooLarge (x : Name) : Raised (.dataTooLarge x)
  | unexpectedLocals : Raised .unexpectedLocals

/-- The failure at a demand that is refused is one at a limit. -/
theorem Demand.raised_refusal (d : Demand) : (CompileError.limitExceeded d.refusal).Raised := by
  cases d with
  | slot => exact .tooManyLocals
  | symbol x => exact .dataTooLarge x

/-- Compilation fails in the code generator only: what it generates passes the type check. -/
theorem Expr.raised_of_compile {e : Expr} {err : CompileError} (h : e.compile = .error err) :
    err.Raised := by
  rcases compile_cases e with ⟨-, built⟩ | ⟨beyond, -⟩
  · rw [built] at h
    cases h
  · obtain ⟨d, -, failed⟩ := assemble_eq_refusal beyond
    have same : e.compile = .error (.limitExceeded d.refusal) := by
      rw [compile, failed]
      rfl
    rw [same] at h
    cases h
    exact d.raised_refusal

end Twofold
