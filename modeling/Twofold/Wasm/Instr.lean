import Twofold.Number

/-!
# WebAssembly instructions

The part of WebAssembly that compiled expressions use. A body is a flat sequence of instructions,
as in the binary format: `ifThen`, `orElse` and `close` are instructions of their own, and every
body ends with a `close`.
-/

namespace Twofold.Wasm

/-- The types of operands, locals and globals. -/
inductive ValType where
  | i32
  | i64
  | f32
  | f64
deriving DecidableEq, Inhabited, Repr

/-- The type of a function: what it takes and what it leaves on the stack. -/
structure FuncType where
  params : List ValType
  results : List ValType
deriving DecidableEq, Inhabited, Repr

/-- An instruction. -/
inductive Instr where
  | unreachable
  /-- Takes a word; runs what follows if it is not zero, and what follows the matching `orElse`
  otherwise. Either leaves a value of the given type, if one is given. -/
  | ifThen (result : Option ValType)
  | orElse
  | close
  | call (f : Nat)
  | localGet (i : Nat)
  | localSet (i : Nat)
  | globalGet (i : Nat)
  | globalSet (i : Nat)
  | i32Load (offset : Nat)
  | f64Load (offset : Nat)
  | i32Store (offset : Nat)
  | f64Store (offset : Nat)
  | memorySize
  | memoryGrow
  | i32Const (w : UInt32)
  | f64Const (n : Number)
  | i32Eq
  | i32Ne
  | i32GtU
  | i32Add
  | i32Shl
  | f64Le
  | f64Add
deriving DecidableEq, Inhabited, Repr

/-- A function: its type, by index, the types of its locals beyond its parameters, and its body. -/
structure Func where
  type : Nat
  locals : List ValType
  body : List Instr
deriving DecidableEq, Inhabited, Repr

end Twofold.Wasm
