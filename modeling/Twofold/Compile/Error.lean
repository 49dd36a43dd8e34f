import Twofold.NameSet

/-!
# Failures of compilation
-/

namespace Twofold

/-- Why an expression was not compiled. -/
inductive CompileError where
  /-- A state that compilation does not reach. -/
  | internal (what : String)
  /-- The module did not pass the type check. -/
  | invalidModule (what : String)
  /-- The expression is too large. -/
  | limitExceeded (what : String)
deriving DecidableEq, Inhabited, Repr

namespace CompileError

/-- The words for a failure of compilation. -/
def message : CompileError → String
  | internal what => "internal codegen error: " ++ what
  | invalidModule what => "WASM validation failed: " ++ what
  | limitExceeded what => "limit exceeded: " ++ what

/-- A body that was made without locals declares some. -/
def unexpectedLocals : CompileError := internal "scratch function declared unexpected locals"

/-- The expression binds more names than a function may have locals. -/
def tooManyLocals : CompileError := limitExceeded "more than 50000 locals"

/-- There is no room left for the name of a free variable. -/
def dataTooLarge (x : Name) : CompileError :=
  limitExceeded ("data segment too large to intern `" ++ x ++ "`")

end CompileError

end Twofold
