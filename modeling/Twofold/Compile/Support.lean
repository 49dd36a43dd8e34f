import Twofold.Compile.StaticData
import Twofold.Primitive
import Twofold.Wasm.Module

/-!
# Support functions

Every compiled expression comes with the same functions: one that takes memory, one that makes each
kind of cell, one for each primitive, and one for the test of a choice. A primitive checks the tags
of its operands and reports the first wrong one to the host before it stops.
-/

namespace Twofold.Support

open Wasm

/-! ## Indices -/

/-- The functions that the host provides. -/
inductive HostCall where
  /-- A test is not a boolean: where the message stands. -/
  | trap
  /-- A name is unbound: where its symbol stands. -/
  | unbound
  /-- An operand is of the wrong kind: the primitive, the place of the operand, the operand, and the
  other operand or `0`. -/
  | contractViolation
deriving DecidableEq, Inhabited, Repr

namespace HostCall

/-- All functions of the host, in the order of their indices. -/
def all : List HostCall := [trap, unbound, contractViolation]

/-- The function index. -/
def index : HostCall → Nat
  | trap => 0
  | unbound => 1
  | contractViolation => 2

/-- The name under which the host provides the function. -/
def name : HostCall → String
  | trap => "trap"
  | unbound => "unbound"
  | contractViolation => "contract_violation"

end HostCall

/-- The types of all functions. -/
def types : List FuncType :=
  [⟨[], [.i32]⟩,
   ⟨[.i32], [.i32]⟩,
   ⟨[.i32, .i32], []⟩,
   ⟨[.i32, .i32], [.i32]⟩,
   ⟨[.i32, .i32, .i32, .i32], []⟩,
   ⟨[.f64], [.i32]⟩]

/-- The indices of the types. -/
def typeMain : Nat := 0

@[inherit_doc typeMain]
def typeUnary : Nat := 1

@[inherit_doc typeMain]
def typeReport : Nat := 2

@[inherit_doc typeMain]
def typeBinary : Nat := 3

@[inherit_doc typeMain]
def typeViolation : Nat := 4

@[inherit_doc typeMain]
def typeBox : Nat := 5

/-- The function index of the support function at a place among them: the host's functions come
first. -/
def funcIndex (place : Nat) : Nat := HostCall.all.length + place

/-- Takes memory. -/
def alloc : Nat := funcIndex 0

/-- Makes the cell of a number. -/
def makeNumber : Nat := funcIndex 1

/-- Makes the cell of a boolean. -/
def makeBool : Nat := funcIndex 2

/-- Makes the cell of a pair. -/
def makePair : Nat := funcIndex 3

/-- Adds two numbers. -/
def add : Nat := funcIndex 4

/-- Compares two numbers. -/
def le : Nat := funcIndex 5

/-- The first component of a pair. -/
def head : Nat := funcIndex 6

/-- The second component of a pair. -/
def tail : Nat := funcIndex 7

/-- The truth value of a boolean. -/
def test : Nat := funcIndex 8

/-- The compiled expression itself, behind the support functions. -/
def entry : Nat := funcIndex 9

/-! ## Bodies -/

/-- A size, address or position as a word. -/
def word (n : Nat) : Instr := .i32Const (UInt32.ofNat n)

/-- The global that holds the address of the next cell. -/
def heapTop : Nat := 0

/-- Gives the address of the next cell and moves it on; if the memory does not reach that far, it
grows by a page, which is more than a cell. -/
def allocFunc : Func where
  type := typeUnary
  locals := [.i32]
  body :=
    [.globalGet heapTop, .localSet 1,
     .globalGet heapTop, .localGet 0, .i32Add, .globalSet heapTop,
     .globalGet heapTop, .memorySize, .i32Const 16, .i32Shl, .i32GtU,
     .ifThen none,
       .i32Const 1, .memoryGrow, .i32Const 0xffffffff, .i32Eq,
       .ifThen none, .unreachable, .close,
     .close,
     .localGet 1, .close]

/-- Takes a cell, keeps its address in a local, and sets its tag. -/
def newCell (cell : Nat) (tag : UInt32) : List Instr :=
  [word Cell.size, .call alloc, .localSet cell, .localGet cell, .i32Const tag, .i32Store 0]

/-- Puts a parameter into a word of a cell. -/
def setWord (cell offset param : Nat) : List Instr :=
  [.localGet cell, .localGet param, .i32Store offset]

/-- Makes the cell of its parameter, a number. -/
def makeNumberFunc : Func where
  type := typeBox
  locals := [.i32]
  body :=
    newCell 1 Cell.number
      ++ [.localGet 1, .localGet 0, .f64Store Cell.first, .localGet 1, .close]

/-- Makes the cell of its parameter, a truth value as a word. -/
def makeBoolFunc : Func where
  type := typeUnary
  locals := [.i32]
  body := newCell 1 Cell.boolean ++ setWord 1 Cell.first 0 ++ [.localGet 1, .close]

/-- Makes the cell of a pair from the addresses of its components. -/
def makePairFunc : Func where
  type := typeBinary
  locals := [.i32]
  body :=
    newCell 2 Cell.pair ++ setWord 2 Cell.first 0 ++ setWord 2 Cell.second 1
      ++ [.localGet 2, .close]

/-- Reports a parameter whose tag is not the wanted one, and stops. -/
def requireTag (param : Nat) (tag : UInt32) (p : Primitive) (position : Nat) (other : Instr) :
    List Instr :=
  [.localGet param, .i32Load 0, .i32Const tag, .i32Ne,
   .ifThen none,
     .i32Const p.code, word position, .localGet param, other,
     .call HostCall.contractViolation.index, .unreachable,
   .close]

/-- Checks the operands from left to right, applies the operation and makes a cell of the result. -/
def numericFunc (p : Primitive) (op : Instr) (make : Nat) : Func where
  type := typeBinary
  locals := []
  body :=
    requireTag 0 Cell.number p 1 (.localGet 1) ++ requireTag 1 Cell.number p 2 (.localGet 0)
      ++ [.localGet 0, .f64Load Cell.first, .localGet 1, .f64Load Cell.first, op, .call make,
          .close]

/-- The sum of two numbers, as a new cell. -/
def addFunc : Func := numericFunc .add .f64Add makeNumber

/-- The comparison of two numbers, as a new cell. -/
def leFunc : Func := numericFunc .le .f64Le makeBool

/-- Checks the operand and gives one of its words. -/
def projectionFunc (p : Primitive) (offset : Nat) : Func where
  type := typeUnary
  locals := []
  body := requireTag 0 Cell.pair p 1 (.i32Const 0) ++ [.localGet 0, .i32Load offset, .close]

/-- The address of the first component of a pair. -/
def headFunc : Func := projectionFunc .head Cell.first

/-- The address of the second component of a pair. -/
def tailFunc : Func := projectionFunc .tail Cell.second

/-- Gives the word of a boolean, and reports the message at a location for anything else. -/
def testFunc (message : Location) : Func where
  type := typeUnary
  locals := []
  body :=
    [.localGet 0, .i32Load 0, .i32Const Cell.boolean, .i32Ne,
     .ifThen none,
       word message.ptr, word message.len, .call HostCall.trap.index, .unreachable,
     .close,
     .localGet 0, .i32Load Cell.first, .close]

/-- The support functions, in the order of their indices. -/
def funcs : List Func :=
  [allocFunc, makeNumberFunc, makeBoolFunc, makePairFunc, addFunc, leFunc, headFunc, tailFunc,
   testFunc StaticData.testMessage]

end Twofold.Support
