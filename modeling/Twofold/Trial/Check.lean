import Twofold.Eval
import Twofold.Reference.Run

/-!
# Cross-checking

One expression evaluated in both ways. The outcomes are compared: values by their bits, failures by
their texts.
-/

namespace Twofold.Trial

/-- The common outcome, and the kind of its failure. -/
structure Agreement where
  outcome : Outcome
  kind : Option FailureKind
deriving DecidableEq, Inhabited, Repr

namespace Agreement

/-- The JSON form of an agreement. -/
def toJson (a : Agreement) : Json :=
  .object [("outcome", a.outcome.toJson), ("kind", .ofOption (fun k => .string k.tag) a.kind)]

end Agreement

/-- Two different outcomes of the expression with a text. -/
structure Disagreement where
  expr : String
  reference : Outcome
  evaluator : Outcome
deriving DecidableEq, Inhabited, Repr

namespace Disagreement

/-- The words for a disagreement. -/
def message (d : Disagreement) : String :=
  "evaluators disagree on " ++ d.expr ++ ": reference gave " ++ d.reference.text
    ++ ", evaluator gave " ++ d.evaluator.text

/-- The JSON form of a disagreement. -/
def toJson (d : Disagreement) : Json :=
  .object [("expr", .string d.expr), ("reference", d.reference.toJson),
    ("evaluator", d.evaluator.toJson)]

end Disagreement

/-- The kind of the failure in a result. -/
def kindOf {ε : Type} (kind : ε → FailureKind) : Except ε Value → Option FailureKind
  | .ok _ => none
  | .error e => some (kind e)

/-- The outcome of evaluation by substitution, and the kind of its failure. -/
def evaluated (e : Expr) : Outcome × Option FailureKind :=
  let r := e.eval
  (.ofResult EvalError.message r, kindOf EvalError.kind r)

/-- The outcome of a reference evaluation, and the kind of its failure. -/
def referenced (e : Expr) : Outcome × Option FailureKind :=
  let r := Reference.eval e
  (.ofResult ReferenceError.message r, kindOf ReferenceError.kind r)

/-- Evaluates an expression in both ways. -/
def check (e : Expr) : Except Disagreement Agreement :=
  let (reference, _) := referenced e
  let (evaluator, kind) := evaluated e
  if reference = evaluator then .ok ⟨evaluator, kind⟩
  else .error ⟨e.text, reference, evaluator⟩

end Twofold.Trial
