import Twofold.Wasm.Module

/-!
# Type checking

One pass over a body with a stack of open blocks. Each block has its own operands, since a block
sees none of the operands of the block around it. After `unreachable` a block is dead: missing
operands are then supplied as needed, until the block ends.
-/

namespace Twofold.Wasm.Typing

/-- An open block. -/
structure Block where
  /-- What the block leaves. -/
  results : List ValType
  /-- The operands of the block so far, the topmost one first. -/
  operands : List ValType
  /-- Whether the code at this point cannot be reached. -/
  dead : Bool
  /-- Whether this is the first branch of a choice. -/
  choice : Bool
deriving DecidableEq, Inhabited, Repr

namespace Block

/-- Takes an operand of type `t` away. -/
def pop (t : ValType) (b : Block) : Option Block :=
  match b.operands with
  | [] => if b.dead then some b else none
  | u :: rest => if u = t then some { b with operands := rest } else none

/-- Takes operands away, the last one first. -/
def popAll (ts : List ValType) (b : Block) : Option Block :=
  ts.reverse.foldlM (fun b t => b.pop t) b

/-- Leaves operands, the last one on top. -/
def push (ts : List ValType) (b : Block) : Block := { b with operands := ts.reverse ++ b.operands }

/-- Takes operands away and leaves others. -/
def apply (params results : List ValType) (b : Block) : Option Block :=
  (b.popAll params).map (·.push results)

/-- Everything up to the end of the block is dead. -/
def kill (b : Block) : Block := { b with operands := [], dead := true }

/-- Whether the block may end here: exactly its results are left. -/
def ends (b : Block) : Bool :=
  match b.popAll b.results with
  | some b => b.operands.isEmpty
  | none => false

end Block

/-- What a body may refer to. -/
structure Context where
  mod : Module
  locals : Array ValType

/-- What a choice leaves. -/
def blockResults : Option ValType → List ValType
  | none => []
  | some t => [t]

/-- The operands and results of an instruction that neither opens nor ends a block. -/
def signature (ctx : Context) : Instr → Option FuncType
  | .call f => ctx.mod.typeOf? f
  | .localGet i => ctx.locals[i]?.map fun t => ⟨[], [t]⟩
  | .localSet i => ctx.locals[i]?.map fun t => ⟨[t], []⟩
  | .globalGet i => ctx.mod.globals[i]?.map fun _ => ⟨[], [.i32]⟩
  | .globalSet i => ctx.mod.globals[i]?.map fun _ => ⟨[.i32], []⟩
  | .i32Load _ => some ⟨[.i32], [.i32]⟩
  | .f64Load _ => some ⟨[.i32], [.f64]⟩
  | .i32Store _ => some ⟨[.i32, .i32], []⟩
  | .f64Store _ => some ⟨[.i32, .f64], []⟩
  | .memorySize => some ⟨[], [.i32]⟩
  | .memoryGrow => some ⟨[.i32], [.i32]⟩
  | .i32Const _ => some ⟨[], [.i32]⟩
  | .f64Const _ => some ⟨[], [.f64]⟩
  | .i32Eq | .i32Ne | .i32GtU | .i32Add | .i32Shl => some ⟨[.i32, .i32], [.i32]⟩
  | .f64Le => some ⟨[.f64, .f64], [.i32]⟩
  | .f64Add => some ⟨[.f64, .f64], [.f64]⟩
  | .unreachable | .ifThen _ | .orElse | .close => none

/-- Checks one instruction against the open blocks, the innermost first. -/
def step (ctx : Context) (blocks : List Block) (i : Instr) : Option (List Block) :=
  match blocks with
  | [] => none
  | b :: outer =>
    match i with
    | .unreachable => some (b.kill :: outer)
    | .ifThen result =>
      (b.pop .i32).map fun b => ⟨blockResults result, [], false, true⟩ :: b :: outer
    | .orElse => if b.choice && b.ends then some (⟨b.results, [], false, false⟩ :: outer) else none
    | .close =>
      if b.ends && (!b.choice || b.results.isEmpty) then
        match outer with
        | [] => some []
        | o :: outer => some (o.push b.results :: outer)
      else none
    | i => (signature ctx i).bind fun t => (b.apply t.params t.results).map (· :: outer)

/-- Checks a sequence of instructions. -/
def run (ctx : Context) (blocks : List Block) (is : List Instr) : Option (List Block) :=
  is.foldlM (step ctx) blocks

/-- Whether a function has its type. -/
def checkFunc (m : Module) (f : Func) : Bool :=
  match m.types[f.type]? with
  | none => false
  | some t =>
    run ⟨m, (t.params ++ f.locals).toArray⟩ [⟨t.results, [], false, false⟩] f.body == some []

/-- Whether an export denotes something. -/
def checkExport (m : Module) (e : Export) : Bool :=
  match e.kind with
  | .func => decide (e.index < m.imports.length + m.funcs.length)
  | .memory => e.index == 0

/-- Whether a module is well formed. -/
def check (m : Module) : Bool :=
  m.imports.all (fun i => decide (i.type < m.types.length))
    && m.funcs.all (checkFunc m)
    && decide (m.memory.min ≤ m.memory.max ∧ m.memory.max * pageSize ≤ 1 <<< 32)
    && m.exports.all (checkExport m)

end Twofold.Wasm.Typing
