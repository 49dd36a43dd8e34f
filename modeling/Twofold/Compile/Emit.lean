import Twofold.Compile.Support
import Twofold.Expr

/-!
# Emission

The code of an expression leaves the address of one cell on the stack. Operands are emitted from
left to right. A bound name is a local of its own; a free one reports itself when, and only when,
it is reached. A failure keeps what was emitted before it.
-/

namespace Twofold

open Wasm

/-- A function under construction. -/
structure Emitter where
  /-- The index of the next local, parameters included. -/
  nextLocal : Nat
  /-- The locals declared so far. -/
  locals : Array ValType
  /-- The names in scope and their locals, the innermost first. -/
  scope : List (Name × Nat)
  data : StaticData
  code : Array Instr

/-- A step of emission. -/
abbrev Emit := EStateM CompileError Emitter

namespace Emitter

/-- A function with that many parameters. -/
def new (params : Nat) : Emitter := ⟨params, #[], [], .new, #[]⟩

/-- The most locals a function may have. -/
def maxLocals : Nat := 50000

/-- The local that a name stands for. -/
def find? (s : Emitter) (x : Name) : Option Nat := s.scope.lookup x

/-- Lets a name stand for a local, in front of what it stood for. -/
def enter (s : Emitter) (x : Name) (i : Nat) : Emitter := { s with scope := (x, i) :: s.scope }

/-- Gives a name its former meaning back. -/
def leave (s : Emitter) (x : Name) : Emitter :=
  { s with scope := s.scope.eraseP fun b => b.1 == x }

/-- Appends an instruction. -/
def instr (i : Instr) : Emit Unit := modify fun s => { s with code := s.code.push i }

/-- Declares a local. -/
def declare (t : ValType) : Emit Nat := fun s =>
  if maxLocals ≤ s.nextLocal then .error .tooManyLocals s
  else .ok s.nextLocal { s with nextLocal := s.nextLocal + 1, locals := s.locals.push t }

/-- The location of the symbol for a name. -/
def intern (x : Name) : Emit Location := fun s =>
  match s.data.intern x with
  | .ok (loc, data) => .ok loc { s with data }
  | .error e => .error e s

/-- Emits with a name standing for a local. -/
def inScope (x : Name) (i : Nat) (body : Emit Unit) : Emit Unit := fun s =>
  match body (s.enter x i) with
  | .ok () s => .ok () (s.leave x)
  | .error e s => .error e (s.leave x)

/-- Emits an occurrence of a name. -/
def occurrence (x : Name) : Emit Unit := do
  match (← get).find? x with
  | some i => instr (.localGet i)
  | none =>
    let loc ← intern x
    instr (Support.word loc.ptr)
    instr (Support.word loc.len)
    instr (.call Support.HostCall.unbound.index)
    instr .unreachable

end Emitter

open Emitter in
/-- Emits the code of an expression. -/
def Expr.emit : Expr → Emit Unit
  | num n => do instr (.f64Const n); instr (.call Support.makeNumber)
  | bool b => do instr (.i32Const (if b then 1 else 0)); instr (.call Support.makeBool)
  | var x => occurrence x
  | add a b => do a.emit; b.emit; instr (.call Support.add)
  | le a b => do a.emit; b.emit; instr (.call Support.le)
  | letIn x a b => do
    a.emit
    let i ← declare .i32
    instr (.localSet i)
    inScope x i b.emit
  | ite a b c => do
    a.emit
    instr (.call Support.test)
    instr (.ifThen (some .i32))
    b.emit
    instr .orElse
    c.emit
    instr .close
  | pair a b => do a.emit; b.emit; instr (.call Support.makePair)
  | head a => do a.emit; instr (.call Support.head)
  | tail a => do a.emit; instr (.call Support.tail)

end Twofold
