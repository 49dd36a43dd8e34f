import Twofold.Expr.Text

/-!
# Failures

Evaluation fails in one of five ways, the same for every evaluator, and an outcome is a value or
the text of a failure. The wording shared by the evaluators stands here.
-/

namespace Twofold

/-- The ways in which an evaluation fails. -/
inductive FailureKind where
  /-- A name that no enclosing binding provides. -/
  | freeVariable
  /-- A test that is not a boolean. -/
  | nonBooleanTest
  /-- An operand of `+` or `<=` that is not a number. -/
  | typeMismatch
  /-- An operand of `head` or `tail` that is not a pair. -/
  | notAPair
  /-- A failure of the evaluator itself. -/
  | internal
deriving DecidableEq, Inhabited, Repr

namespace FailureKind

/-- All kinds, in the order in which reports list them. -/
def all : List FailureKind := [freeVariable, nonBooleanTest, typeMismatch, notAPair, internal]

/-- The place of a kind in reports. -/
def rank : FailureKind → Nat
  | freeVariable => 0
  | nonBooleanTest => 1
  | typeMismatch => 2
  | notAPair => 3
  | internal => 4

/-- The words for a kind. -/
def label : FailureKind → String
  | freeVariable => "free variable"
  | nonBooleanTest => "non-boolean test"
  | typeMismatch => "type mismatch"
  | notAPair => "not a pair"
  | internal => "internal"

/-- The tag of a kind in JSON documents and logs. -/
def tag : FailureKind → String
  | freeVariable => "FreeVariable"
  | nonBooleanTest => "NonBooleanTest"
  | typeMismatch => "TypeMismatch"
  | notAPair => "NotAPair"
  | internal => "Internal"

end FailureKind

/-- The result of an evaluation, a failure being reduced to its text. -/
inductive Outcome where
  | value (v : Value)
  | error (message : String)
deriving DecidableEq, Inhabited, Repr

namespace Outcome

/-- The outcome of a result, given the wording of its failures. -/
def ofResult {ε : Type} (message : ε → String) : Except ε Value → Outcome
  | .ok v => value v
  | .error e => error (message e)

/-- Whether an outcome is a failure. -/
def isError : Outcome → Bool
  | value _ => false
  | error _ => true

/-- The text of an outcome. The text of a failure stands between quotes as it is. -/
def text : Outcome → String
  | value v => "value " ++ v.text
  | error message => "error \"" ++ message ++ "\""

/-- The JSON form of an outcome. -/
def toJson : Outcome → Json
  | value v => .object [("value", v.toJson)]
  | error message => .object [("error", .string message)]

end Outcome

/-! ## Wording -/

/-- A natural number in decimal. -/
def countText (n : Nat) : String := String.ofList (Decimal.digitChars n)

/-- `1st`, `2nd`, `3rd`, `4th`, …, `11th`, …, `21st`. -/
def ordinal (n : Nat) : String :=
  countText n ++
    if 11 ≤ n % 100 ∧ n % 100 ≤ 13 then "th"
    else match n % 10 with
      | 1 => "st"
      | 2 => "nd"
      | 3 => "rd"
      | _ => "th"

namespace Wording

/-- The text for a name that nothing binds. -/
def unbound (x : Name) : String := x ++ ": unbound identifier"

/-- The text for a test that is not a boolean. -/
def nonBooleanTest : String := "if: test expression must be a boolean"

/-- The text for an operand that is not what the operator takes. -/
def contractViolation (operator expected : String) (given : Value) : String :=
  operator ++ ": contract violation; expected: " ++ expected ++ "; given: " ++ given.text

/-- What follows for an operator with two operands: the place of the offending one, and the other
one. -/
def operandPosition (position : Nat) (other : Value) : String :=
  "; argument position: " ++ ordinal position ++ "; other argument: " ++ other.text

/-- The text for a failure of the evaluator itself. -/
def internal (what : String) : String := "internal error: " ++ what

end Wording

end Twofold
