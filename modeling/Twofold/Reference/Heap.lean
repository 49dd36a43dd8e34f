import Twofold.Compile.StaticData
import Twofold.Primitive

/-!
# Reading a memory

Values, texts and symbols are read back from the memory of a compiled expression, whatever it
holds. The components of a pair stand below the pair, so reading ends; anything else is refused.
-/

namespace Twofold.Heap

/-- Why memory was not read. -/
inductive ReadError where
  | missingMemory
  /-- A stretch that reaches past the end of the memory. -/
  | outOfBounds (ptr len size : Nat)
  | unknownTag (tag : Int) (ptr : Nat)
  /-- A pair whose component does not stand below it. -/
  | forwardReference (ptr component : Nat)
  | invalidUtf8 (ptr : Nat)
  /-- A symbol without its mark. -/
  | missingMark (text : String)
  | unknownPrimitive (code : Int)
  /-- A numeric primitive that reported no other operand. -/
  | missingOperand (p : Primitive)
deriving DecidableEq, Inhabited, Repr

/-- An address. -/
def hexText (n : Nat) : String := "0x" ++ String.ofList (Nat.toDigits 16 n)

/-- An integer in decimal. -/
def intText (n : Int) : String := (if n < 0 then "-" else "") ++ countText n.natAbs

namespace ReadError

/-- The words for a failure to read. -/
def message : ReadError → String
  | missingMemory => "module does not export its memory"
  | outOfBounds ptr len size =>
    "read of " ++ countText len ++ " bytes at " ++ hexText ptr ++ " is outside memory of "
      ++ countText size ++ " bytes"
  | unknownTag tag ptr => "unknown value tag " ++ intText tag ++ " at " ++ hexText ptr
  | forwardReference ptr component =>
    "pair at " ++ hexText ptr ++ " refers forward to " ++ hexText component
  | invalidUtf8 ptr => "string at " ++ hexText ptr ++ " is not valid UTF-8"
  | missingMark text => "symbol `" ++ text ++ "` is missing the `" ++ StaticData.mark ++ "` prefix"
  | unknownPrimitive code => "unknown primitive code " ++ intText code
  | missingOperand p => p.name ++ " reported a fault without its other operand"

end ReadError

/-- A word as a signed integer. -/
def signed (w : UInt32) : Int := w.toBitVec.toInt

/-- The word at an address. -/
def word (m : ByteArray) (a : Nat) : UInt32 := UInt32.ofNat (Bytes.toNat (Bytes.slice m a 4))

/-- The number at an address. -/
def number (m : ByteArray) (a : Nat) : Number := ⟨UInt64.ofNat (Bytes.toNat (Bytes.slice m a 8))⟩

/-- The value whose cell stands at `ptr`. The first component of a pair is read completely before
the second one is looked at. Every word and number of a cell lies inside its `Cell.size` bytes, so
one check that the whole cell is inside the memory stands for those of its parts, which could not
fail behind it. -/
def readValue (m : ByteArray) (ptr : UInt32) : Except ReadError Value :=
  if m.size < ptr.toNat + Cell.size then .error (.outOfBounds ptr.toNat Cell.size m.size)
  else
    let tag := word m ptr.toNat
    if tag = Cell.number then .ok (.num (number m (ptr.toNat + Cell.first)))
    else if tag = Cell.boolean then .ok (.bool (word m (ptr.toNat + Cell.first) != 0))
    else if tag = Cell.pair then
      let a := word m (ptr.toNat + Cell.first)
      let b := word m (ptr.toNat + Cell.second)
      if a.toNat < ptr.toNat then do
        let first ← readValue m a
        if b.toNat < ptr.toNat then do
          let second ← readValue m b
          return .pair first second
        else throw (.forwardReference ptr.toNat b.toNat)
      else throw (.forwardReference ptr.toNat a.toNat)
    else .error (.unknownTag (signed tag) ptr.toNat)
termination_by ptr.toNat

/-- The value whose cell stands at `ptr`, or none for address `0`. -/
def readOptional (m : ByteArray) (ptr : UInt32) : Except ReadError (Option Value) :=
  if ptr = 0 then .ok none else (readValue m ptr).map some

/-- The text in a stretch of memory. -/
def readString (m : ByteArray) (ptr len : UInt32) : Except ReadError String :=
  if m.size < ptr.toNat + len.toNat then .error (.outOfBounds ptr.toNat len.toNat m.size)
  else
    match String.fromUTF8? (m.extract ptr.toNat (ptr.toNat + len.toNat)) with
    | some s => .ok s
    | none => .error (.invalidUtf8 ptr.toNat)

/-- What follows `start` at the beginning of a text. -/
def dropStart? (start s : String) : Option String :=
  if s.toUTF8.extract 0 start.utf8ByteSize == start.toUTF8 then
    String.fromUTF8? (s.toUTF8.extract start.utf8ByteSize s.utf8ByteSize)
  else none

/-- The name whose symbol is in a stretch of memory. -/
def readSymbol (m : ByteArray) (ptr len : UInt32) : Except ReadError Name := do
  let s ← readString m ptr len
  match dropStart? StaticData.mark s with
  | some x => return x
  | none => throw (.missingMark s)

end Twofold.Heap
