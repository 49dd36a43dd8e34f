import Twofold.Decimal.Layout
import Twofold.Json
import Twofold.Value

/-!
# Written expressions and values

The text of an expression is a parenthesised form with the operator first, that of a pair value is
dotted. The JSON form names each node.
-/

namespace Twofold

/-- `true` or `false`. -/
def boolText (b : Bool) : String := if b then "true" else "false"

/-- The text of an expression. -/
def Expr.text : Expr → String
  | num n => n.text
  | bool b => boolText b
  | var x => x
  | add a b => "(+ " ++ a.text ++ " " ++ b.text ++ ")"
  | le a b => "(<= " ++ a.text ++ " " ++ b.text ++ ")"
  | letIn x a b => "(let ([" ++ x ++ " " ++ a.text ++ "]) " ++ b.text ++ ")"
  | ite a b c => "(if " ++ a.text ++ " " ++ b.text ++ " " ++ c.text ++ ")"
  | pair a b => "(pair " ++ a.text ++ " " ++ b.text ++ ")"
  | head a => "(head " ++ a.text ++ ")"
  | tail a => "(tail " ++ a.text ++ ")"

/-- The text of a value. -/
def Value.text : Value → String
  | num n => n.text
  | bool b => boolText b
  | pair a b => "(" ++ a.text ++ " . " ++ b.text ++ ")"

/-- A node of an expression or value: its kind, and what it holds. -/
def Json.node (kind : String) (content : Json) : Json := .object [(kind, content)]

/-- The JSON form of an expression. -/
def Expr.toJson : Expr → Json
  | num n => .node "Number" (.ofNumber n)
  | bool b => .node "Bool" (.bool b)
  | var x => .node "Var" (.string x)
  | add a b => .node "Sum" (.array [a.toJson, b.toJson])
  | le a b => .node "Less" (.array [a.toJson, b.toJson])
  | letIn x a b =>
    .node "Bind" (.object [("name", .string x), ("bound", a.toJson), ("body", b.toJson)])
  | ite a b c =>
    .node "If"
      (.object [("test", a.toJson), ("then_branch", b.toJson), ("else_branch", c.toJson)])
  | pair a b => .node "Pair" (.array [a.toJson, b.toJson])
  | head a => .node "Head" a.toJson
  | tail a => .node "Tail" a.toJson

/-- The JSON form of a value. -/
def Value.toJson : Value → Json
  | num n => .node "Number" (.ofNumber n)
  | bool b => .node "Bool" (.bool b)
  | pair a b => .node "Pair" (.array [a.toJson, b.toJson])

end Twofold
