import Twofold.Wasm.Memory

/-!
# The machine

Runs the functions of a module. The code of a body is taken instruction by instruction from left to
right. There are no jumps backwards: a branch that is not chosen is skipped up to the instruction
that ends it, so executing a body is one pass over its code, and executing a concatenation is
executing its parts in turn. Calls nest up to a limit.
-/

namespace Twofold.Wasm

/-- An operand, or the content of a local or global. -/
inductive Val where
  | i32 (w : UInt32)
  | i64 (w : UInt64)
  /-- A single-precision number, by its bits. -/
  | f32 (bits : UInt32)
  | f64 (n : Number)
deriving DecidableEq, Inhabited, Repr

/-- What a local holds before it is set. -/
def Val.zero : ValType → Val
  | .i32 => i32 0
  | .i64 => i64 0
  | .f32 => f32 0
  | .f64 => f64 ⟨0⟩

/-- Why execution stopped. -/
inductive Trap where
  | unreachable
  | outOfBounds
  | callStackExhausted
  /-- The code does not fit the operands; a module that passes the type check never gets here. -/
  | invalid
deriving DecidableEq, Inhabited, Repr

/-- The words for a trap. -/
def Trap.message : Trap → String
  | unreachable => "wasm `unreachable` instruction executed"
  | outOfBounds => "out of bounds memory access"
  | callStackExhausted => "call stack exhausted"
  | invalid => "invalid code"

/-- Whether instructions are executed or skipped. -/
inductive Control where
  | run
  /-- Skips to the end of a choice, or to its second branch if `toElse`; `depth` choices that opened
  meanwhile are still to be closed. -/
  | skip (depth : Nat) (toElse : Bool)
deriving DecidableEq, Inhabited, Repr

/-- Passes over an instruction while skipping. -/
def Control.pass (depth : Nat) (toElse : Bool) : Instr → Control
  | .ifThen _ => skip (depth + 1) toElse
  | .orElse => if depth = 0 && toElse then run else skip depth toElse
  | .close => if depth = 0 then run else skip (depth - 1) toElse
  | _ => skip depth toElse

/-- The state of the machine: the running function's control, operands (the topmost first) and
locals, and what all functions share. -/
structure Machine (H : Type) where
  control : Control
  stack : List Val
  locals : Array Val
  globals : Array Val
  memory : Memory
  host : H

/-- A computation of the machine. A trap keeps the state in which it happened. -/
abbrev Exec (H : Type) := EStateM Trap (Machine H)

/-- The functions of the host: the arguments, first one first, and the memory of the caller change
the host's state. -/
abbrev Host (H : Type) := (f : Nat) → (args : List Val) → Memory → H → H

namespace Machine

variable {H : Type}

/-- Puts an operand on the stack. -/
def push (v : Val) : Exec H Unit := modify fun s => { s with stack := v :: s.stack }

/-- Takes an operand off the stack. -/
def pop : Exec H Val := fun s =>
  match s with
  | ⟨control, v :: stack, locals, globals, memory, host⟩ =>
    .ok v ⟨control, stack, locals, globals, memory, host⟩
  | s => .error .invalid s

/-- Takes a word off the stack. -/
def popI32 : Exec H UInt32 := do
  match ← pop with
  | .i32 w => return w
  | _ => throw .invalid

/-- Takes a number off the stack. -/
def popF64 : Exec H Number := do
  match ← pop with
  | .f64 n => return n
  | _ => throw .invalid

/-- A truth value as a word. -/
def truth (b : Bool) : Val := .i32 (if b then 1 else 0)

/-- Reads the `count` bytes at `base + offset`. -/
def load (base : UInt32) (offset count : Nat) : Exec H Nat := fun s =>
  if s.memory.holds (base.toNat + offset) count then
    .ok (s.memory.load (base.toNat + offset) count) s
  else .error .outOfBounds s

/-- Replaces the `count` bytes at `base + offset`. -/
def store (base : UInt32) (offset count n : Nat) : Exec H Unit := fun s =>
  if s.memory.holds (base.toNat + offset) count then
    .ok () { s with memory := s.memory.store (base.toNat + offset) count n }
  else .error .outOfBounds s

/-- Adds pages to the memory; gives the number of pages before, or all bits set if there is no room
for them. -/
def grow (count : UInt32) : Exec H UInt32 := fun s =>
  if s.memory.canGrow count.toNat then
    .ok (UInt32.ofNat s.memory.pages) { s with memory := s.memory.grow count.toNat }
  else .ok 0xffffffff s

/-- The content of a local or global. -/
def fetch (slots : Array Val) (i : Nat) : Exec H Val :=
  match slots[i]? with
  | some v => pure v
  | none => throw .invalid

/-- Sets a local. -/
def setLocal (i : Nat) (v : Val) : Exec H Unit := fun s =>
  if i < s.locals.size then .ok () { s with locals := s.locals.setIfInBounds i v }
  else .error .invalid s

/-- Sets a global. -/
def setGlobal (i : Nat) (v : Val) : Exec H Unit := fun s =>
  if i < s.globals.size then .ok () { s with globals := s.globals.setIfInBounds i v }
  else .error .invalid s

/-- Goes on executing or skipping. -/
def setControl (c : Control) : Exec H Unit := modify fun s => { s with control := c }

/-- Executes an instruction; `invoke` runs the function with an index. -/
def perform (invoke : Nat → Exec H Unit) : Instr → Exec H Unit
  | .unreachable => throw .unreachable
  | .ifThen _ => do if (← popI32) = 0 then setControl (.skip 0 true)
  | .orElse => setControl (.skip 0 false)
  | .close => pure ()
  | .call f => invoke f
  | .localGet i => do push (← fetch (← get).locals i)
  | .localSet i => do setLocal i (← pop)
  | .globalGet i => do push (← fetch (← get).globals i)
  | .globalSet i => do setGlobal i (← pop)
  | .i32Load offset => do push (.i32 (UInt32.ofNat (← load (← popI32) offset 4)))
  | .f64Load offset => do push (.f64 ⟨UInt64.ofNat (← load (← popI32) offset 8)⟩)
  | .i32Store offset => do
    let w ← popI32
    store (← popI32) offset 4 w.toNat
  | .f64Store offset => do
    let n ← popF64
    store (← popI32) offset 8 n.bits.toNat
  | .memorySize => do push (.i32 (UInt32.ofNat (← get).memory.pages))
  | .memoryGrow => do push (.i32 (← grow (← popI32)))
  | .i32Const w => push (.i32 w)
  | .f64Const n => push (.f64 n)
  | .i32Eq => do let b ← popI32; let a ← popI32; push (truth (a == b))
  | .i32Ne => do let b ← popI32; let a ← popI32; push (truth (a != b))
  | .i32GtU => do let b ← popI32; let a ← popI32; push (truth (decide (b < a)))
  | .i32Add => do let b ← popI32; let a ← popI32; push (.i32 (a + b))
  | .i32Shl => do let b ← popI32; let a ← popI32; push (.i32 (a <<< b))
  | .f64Le => do let b ← popF64; let a ← popF64; push (truth (a.le b))
  | .f64Add => do let b ← popF64; let a ← popF64; push (.f64 (a.add b))

/-- Executes an instruction, or passes over it. -/
def step (invoke : Nat → Exec H Unit) (i : Instr) : Exec H Unit := do
  match (← get).control with
  | .run => perform invoke i
  | .skip depth toElse => setControl (.pass depth toElse i)

/-- Executes a sequence of instructions. -/
def exec (invoke : Nat → Exec H Unit) (is : List Instr) : Exec H Unit := is.forM (step invoke)

/-- Takes the arguments of a function off the stack, the first one first. -/
def popArgs (count : Nat) : Exec H (List Val) := fun s =>
  let args := s.stack.take count
  if args.length = count then .ok args.reverse { s with stack := s.stack.drop count }
  else .error .invalid s

/-- Runs `body` as that of a function with the given locals, arguments included; of its operands the
topmost `results` are left. -/
def within (locals : Array Val) (results : Nat) (body : Exec H Unit) : Exec H Unit := fun s =>
  match s with
  | ⟨_, stack, callerLocals, globals, memory, host⟩ =>
    match body ⟨.run, [], locals, globals, memory, host⟩ with
    | .error t s => .error t s
    | .ok _ ⟨_, left, _, globals, memory, host⟩ =>
      .ok () ⟨.run, left.take results ++ stack, callerLocals, globals, memory, host⟩

/-- Calls a function of the host. -/
def callHost (host : Host H) (f : Nat) (args : List Val) : Exec H Unit :=
  modify fun s => { s with host := host f args s.memory s.host }

/-- Runs the function with index `f`, in at most `depth` nested calls. -/
def invoke (m : Module) (host : Host H) : (depth : Nat) → (f : Nat) → Exec H Unit
  | 0, _ => throw .callStackExhausted
  | depth + 1, f => do
    match m.typeOf? f with
    | none => throw .invalid
    | some t =>
      let args ← popArgs t.params.length
      if f < m.imports.length then callHost host f args
      else
        match m.funcs[f - m.imports.length]? with
        | none => throw .invalid
        | some fn =>
          within (args ++ fn.locals.map Val.zero).toArray t.results.length
            (exec (invoke m host depth) fn.body)

/-- The most calls that may be nested. -/
def callLimit : Nat := 1000

/-- The machine with a module loaded, before anything is run. -/
def boot (m : Module) (host : H) : Machine H where
  control := .run
  stack := []
  locals := #[]
  globals := (m.globals.map fun g => Val.i32 g.init).toArray
  memory := .new m.memory m.data
  host := host

end Machine

end Twofold.Wasm
