import Twofold.Bytes
import Twofold.Compile.Cell
import Twofold.Compile.Error
import Twofold.Failure

/-!
# Static data

The bytes at the start of the memory of a compiled expression: the text for a test that is not a
boolean, then one symbol for every free variable that the code refers to, in the order in which they
were first met. A symbol is the name behind a mark that keeps names apart from other texts.
-/

namespace Twofold

/-- A stretch of memory. -/
structure Location where
  ptr : Nat
  len : Nat
deriving DecidableEq, Inhabited, Repr

/-- The static data, by the names of its symbols in their order. The names determine all that is
asked of it: its bytes are the text and the symbols one behind the other (`bytes`), and the location
of a symbol follows from the names in front of it (`find?`). -/
structure StaticData where
  symbols : List Name
deriving DecidableEq, Inhabited, Repr

namespace StaticData

/-- The static data without any symbol. -/
def new : StaticData := ⟨[]⟩

/-- The mark in front of a name. -/
def mark : String := "var:"

/-- The symbol for a name. -/
def symbol (x : Name) : String := mark ++ x

/-- The bytes that the symbol for a name takes. -/
def symbolSize (x : Name) : Nat := mark.utf8ByteSize + x.utf8ByteSize

/-- Where the text for a test that is not a boolean stands. -/
def testMessage : Location := ⟨0, Wording.nonBooleanTest.utf8ByteSize⟩

/-- The number of bytes. -/
def size (d : StaticData) : Nat := testMessage.len + (d.symbols.map symbolSize).foldr (· + ·) 0

/-- The bytes. -/
def bytes (d : StaticData) : ByteArray :=
  Bytes.concat (Wording.nonBooleanTest.toUTF8 :: d.symbols.map fun x => (symbol x).toUTF8)

/-- The most bytes there may be. -/
def limit : Nat := 8388608

/-- Where the symbol for `x` stands in a list of symbols that starts at `offset`. -/
def locate? (x : Name) : (offset : Nat) → List Name → Option Location
  | _, [] => none
  | offset, y :: ys =>
    if y = x then some ⟨offset, symbolSize y⟩ else locate? x (offset + symbolSize y) ys

/-- Where the symbol for `x` stands. -/
def find? (d : StaticData) (x : Name) : Option Location := locate? x testMessage.len d.symbols

/-- The location of the symbol for `x`, which is added if there is none yet. -/
def intern (d : StaticData) (x : Name) : Except CompileError (Location × StaticData) :=
  match d.find? x with
  | some loc => .ok (loc, d)
  | none =>
    if limit < d.size + symbolSize x then .error (.dataTooLarge x)
    else .ok (⟨d.size, symbolSize x⟩, ⟨d.symbols ++ [x]⟩)

/-- The address of the first cell. -/
def heapStart (d : StaticData) : Nat := (d.size + (Cell.align - 1)) / Cell.align * Cell.align

end StaticData

end Twofold
