import Twofold.Compile.Emit
import Twofold.Wasm.Binary
import Twofold.Wasm.Typing

/-!
# Compiled expressions

A compiled expression is a module with the support functions and a function `run` that leaves the
address of the cell of the result.
-/

namespace Twofold

open Wasm

namespace Program

/-- The most pages of memory. -/
def maxPages : Nat := 256

/-- The pages that hold the static data and one cell. -/
def initialPages (d : StaticData) : Nat :=
  max 1 ((d.heapStart + Cell.size + (pageSize - 1)) / pageSize)

/-- The functions of the host, in the order of their indices. -/
def imports : List Import :=
  [⟨"env", Support.HostCall.trap.name, Support.typeReport⟩,
   ⟨"env", Support.HostCall.unbound.name, Support.typeReport⟩,
   ⟨"env", Support.HostCall.contractViolation.name, Support.typeViolation⟩]

/-- The name under which the function that evaluates the expression is exported. -/
def runName : String := "run"

/-- The name under which the memory is exported. -/
def memoryName : String := "memory"

/-- The module for the code of an expression and its static data. -/
def build (locals : List ValType) (code : List Instr) (d : StaticData) : Module where
  types := Support.types
  imports := imports
  funcs := Support.funcs ++ [⟨Support.typeMain, locals, code ++ [.close]⟩]
  memory := ⟨initialPages d, maxPages⟩
  globals := [⟨UInt32.ofNat d.heapStart⟩]
  exports := [⟨runName, .func, Support.entry⟩, ⟨memoryName, .memory, 0⟩]
  data := [⟨0, d.bytes⟩]
  customs := [⟨"pairlang", "0.1.0"⟩]

end Program

/-- The module that evaluates an expression, before the type check. The locals of the body are known
only when all of its code is there, and have to be declared in front of it. The bytes with the
declared locals are those that the body has in the binary form of the module
(`Expr.getLast?_bodies`). -/
def Expr.assemble (e : Expr) : Except CompileError Module :=
  match e.emit (.new 0) with
  | .ok () s =>
    match Binary.declare? s.locals.toList (Binary.body [] (s.code.toList ++ [.close])) with
    | some _ => .ok (Program.build s.locals.toList s.code.toList s.data)
    | none => .error .unexpectedLocals
  | .error err _ => .error err

/-- The module that evaluates an expression. -/
def Expr.compile (e : Expr) : Except CompileError Module := do
  let m ← e.assemble
  if Typing.check m then return m else throw (.invalidModule "type mismatch")

end Twofold
