import Twofold.Expr

/-!
# Free names

One walk over the expression with a stack of the names bound around the current node collects the
names that occur outside the body of every binding of theirs.
-/

namespace Twofold

/-- The state of the walk: the names bound here, innermost first, and the free names met so far. -/
structure FreeScan where
  bound : List Name
  free : NameSet

namespace FreeScan

/-- Meets an occurrence of `x`. -/
def visit (s : FreeScan) (x : Name) : FreeScan :=
  if s.bound.contains x then s else { s with free := s.free.insert x }

/-- Enters the body of a binding of `x`. -/
def push (s : FreeScan) (x : Name) : FreeScan := { s with bound := x :: s.bound }

/-- Leaves the body of the innermost binding. -/
def pop (s : FreeScan) : FreeScan := { s with bound := s.bound.tail }

end FreeScan

namespace Expr

/-- Walks over an expression from left to right, the bound expression of a binding before its
body. -/
def scanFree : Expr → FreeScan → FreeScan
  | num _, s | bool _, s => s
  | var x, s => s.visit x
  | add a b, s | le a b, s | pair a b, s => b.scanFree (a.scanFree s)
  | letIn x a b, s => (b.scanFree ((a.scanFree s).push x)).pop
  | ite a b c, s => c.scanFree (b.scanFree (a.scanFree s))
  | head a, s | tail a, s => a.scanFree s

/-- The names with an occurrence that no binding captures. -/
def freeVars (e : Expr) : NameSet := (e.scanFree ⟨[], ∅⟩).free

/-- Whether `x` has an occurrence that no binding captures. -/
def isFree (e : Expr) (x : Name) : Bool := decide (x ∈ e.freeVars)

end Expr

end Twofold
