import Twofold.Compile.Program
import Twofold.Log
import Twofold.Reference.Fault
import Twofold.Wasm.Binary
import Twofold.Wasm.Machine

/-!
# Reference evaluation

The expression is compiled, its module is run on the machine, and the result is read from the
memory. The host keeps the first fault that the module reports; a fault counts more than what
became of the run.
-/

namespace Twofold.Reference

open Wasm Heap

/-- The first report of the module, as far as it could be read. -/
abbrev Reported := Option (Except ReadError Fault)

/-- Reads a report about an operand. -/
def readViolation (m : ByteArray) (op position given other : UInt32) : Except ReadError Fault := do
  match Primitive.ofCode? op with
  | none => throw (.unknownPrimitive (signed op))
  | some p =>
    let given ← readValue m given
    let other ← readOptional m other
    if p.isNumeric && other.isNone then throw (.missingOperand p)
    else return .contractViolation p position.toNat given other

/-- Reads a report of the module; `none` if there is no such function. -/
def readReport (m : ByteArray) (f : Nat) (args : List Val) : Option (Except ReadError Fault) :=
  match f, args with
  | 0, [.i32 ptr, .i32 len] => some ((readString m ptr len).map Fault.nonBooleanTest)
  | 1, [.i32 ptr, .i32 len] => some ((readSymbol m ptr len).map Fault.unbound)
  | 2, [.i32 op, .i32 position, .i32 given, .i32 other] =>
    some (readViolation m op position given other)
  | _, _ => none

/-- The functions of the host: each records its report unless there is one already. -/
def host : Host Reported := fun f args memory reported =>
  match reported with
  | some report => some report
  | none => readReport memory.bytes f args

/-- The result of a run that ended in the given state. -/
def result (stopped : Option Trap) (s : Machine Reported) : Except ReferenceError Value :=
  match s.host with
  | some (.ok f) => .error (.fault f)
  | some (.error e) => .error (.read e)
  | none =>
    match stopped, s.stack with
    | some t, _ => .error (.unreportedTrap t.message)
    | none, .i32 ptr :: _ =>
      match readValue s.memory.bytes ptr with
      | .ok v => .ok v
      | .error e => .error (.read e)
    | none, _ => .error (.engine Trap.invalid.message)

/-- Runs the module of a compiled expression. Every such module exports its entry and its memory
(`Program.build`), so neither is looked up by its name. -/
def execute (m : Module) : Except ReferenceError Value :=
  match Machine.invoke m host Machine.callLimit Support.entry (.boot m none) with
  | .ok () s => result none s
  | .error t s => result (some t) s

/-- The value of an expression. -/
def eval (e : Expr) : Except ReferenceError Value :=
  match e.compile with
  | .error err => .error (.compile err)
  | .ok m => execute m

/-! ## Log -/

/-- The part of the program that runs compiled expressions. -/
def target : String := "pairlang_host::context"

/-- What an evaluation with a result writes into the log: the size of the module, and the fault. -/
def log (e : Expr) (result : Except ReferenceError Value) : List Log.Entry :=
  let compiled := match e.compile with
    | .ok m => [⟨.debug, target, "compiled expression",
        [("bytes", countText (Binary.encode m).size)]⟩]
    | .error _ => []
  let fault := match result with
    | .error (.fault f) => [⟨.trace, target, "module reported fault",
        [("fault", f.message), ("kind", f.kind.label)]⟩]
    | _ => []
  compiled ++ fault

end Twofold.Reference
