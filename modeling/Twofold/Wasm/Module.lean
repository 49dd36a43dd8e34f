import Twofold.Wasm.Instr

/-!
# WebAssembly modules

Imported functions come first in the index space of functions, then the functions of the module.
-/

namespace Twofold.Wasm

/-- A function that the host provides. -/
structure Import where
  moduleName : String
  name : String
  type : Nat
deriving DecidableEq, Inhabited, Repr

/-- A mutable global of type `i32`, with its first value. -/
structure Global where
  init : UInt32
deriving DecidableEq, Inhabited, Repr

/-- Sizes of a memory, in pages. -/
structure Limits where
  min : Nat
  max : Nat
deriving DecidableEq, Inhabited, Repr

/-- What an export denotes. -/
inductive ExportKind where
  | func
  | memory
deriving DecidableEq, Inhabited, Repr

/-- A function or memory that the host can reach by a name. -/
structure Export where
  name : String
  kind : ExportKind
  index : Nat
deriving DecidableEq, Inhabited, Repr

/-- Bytes laid into memory before the start. -/
structure DataSegment where
  offset : UInt32
  bytes : ByteArray

/-- A section that running the module does not look at. -/
structure Custom where
  name : String
  content : String
deriving DecidableEq, Inhabited, Repr

/-- A module. -/
structure Module where
  types : List FuncType
  imports : List Import
  funcs : List Func
  memory : Limits
  globals : List Global
  exports : List Export
  data : List DataSegment
  customs : List Custom

namespace Module

/-- The type of the function with index `f`. -/
def typeOf? (m : Module) (f : Nat) : Option FuncType :=
  match m.imports[f]? with
  | some i => m.types[i.type]?
  | none => m.funcs[f - m.imports.length]?.bind fun fn => m.types[fn.type]?

end Module

/-- The bytes of a page of memory. -/
def pageSize : Nat := 65536

end Twofold.Wasm
