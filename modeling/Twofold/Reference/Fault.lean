import Twofold.Reference.Heap

/-!
# Faults

What a compiled expression reports to its host, and everything else that can go wrong with a
reference evaluation. Only a fault says something about the expression.
-/

namespace Twofold

/-- A failure that a compiled expression reports. -/
inductive Fault where
  /-- A name that nothing binds. -/
  | unbound (x : Name)
  /-- A test that is not a boolean, with the message for it. -/
  | nonBooleanTest (message : String)
  /-- An operand of the wrong kind, its place, and the other operand if there is one. -/
  | contractViolation (p : Primitive) (position : Nat) (given : Value) (other : Option Value)
deriving DecidableEq, Inhabited, Repr

namespace Fault

/-- The kind of failure that a fault reports. -/
def kind : Fault → FailureKind
  | unbound _ => .freeVariable
  | nonBooleanTest _ => .nonBooleanTest
  | contractViolation p _ _ _ => if p.isNumeric then .typeMismatch else .notAPair

/-- The words for a fault, the same as those of evaluation by substitution. -/
def message : Fault → String
  | unbound x => Wording.unbound x
  | nonBooleanTest message => message
  | contractViolation p position given other =>
    Wording.contractViolation p.name p.expected given ++
      match other with
      | some other => Wording.operandPosition position other
      | none => ""

end Fault

/-- Why a reference evaluation failed. -/
inductive ReferenceError where
  | fault (f : Fault)
  | compile (e : CompileError)
  /-- The machine refused the module. -/
  | engine (what : String)
  | read (e : Heap.ReadError)
  /-- Execution stopped without a fault. -/
  | unreportedTrap (what : String)
deriving DecidableEq, Inhabited, Repr

namespace ReferenceError

/-- The kind of a failure: anything but a fault is internal. -/
def kind : ReferenceError → FailureKind
  | fault f => f.kind
  | compile _ | engine _ | read _ | unreportedTrap _ => .internal

/-- The words for a failure. -/
def message : ReferenceError → String
  | fault f => f.message
  | compile e => Wording.internal e.message
  | engine what => Wording.internal ("wasm engine: " ++ what)
  | read e => Wording.internal e.message
  | unreportedTrap what => Wording.internal ("unreported trap: " ++ what)

end ReferenceError

end Twofold
