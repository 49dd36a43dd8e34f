import Twofold.Bytes
import Twofold.Wasm.Leb128
import Twofold.Wasm.Module

/-!
# The binary format

A module as bytes: a header, then sections in the order type, import, function, memory, global,
export, code, data, custom. All integers have their shortest form, and every local is declared in a
group of its own.
-/

namespace Twofold.Wasm.Binary

/-- The byte of a value type. -/
def valType : ValType → UInt8
  | .i32 => 0x7f
  | .i64 => 0x7e
  | .f32 => 0x7d
  | .f64 => 0x7c

/-- A memory access: the alignment as a power of two, and the offset. -/
def access (opcode align : UInt8) (offset : Nat) : List UInt8 :=
  opcode :: align :: Leb128.unsigned offset

/-- An instruction. -/
def instr : Instr → List UInt8
  | .unreachable => [0x00]
  | .ifThen none => [0x04, 0x40]
  | .ifThen (some t) => [0x04, valType t]
  | .orElse => [0x05]
  | .close => [0x0b]
  | .call f => 0x10 :: Leb128.unsigned f
  | .localGet i => 0x20 :: Leb128.unsigned i
  | .localSet i => 0x21 :: Leb128.unsigned i
  | .globalGet i => 0x23 :: Leb128.unsigned i
  | .globalSet i => 0x24 :: Leb128.unsigned i
  | .i32Load offset => access 0x28 2 offset
  | .f64Load offset => access 0x2b 3 offset
  | .i32Store offset => access 0x36 2 offset
  | .f64Store offset => access 0x39 3 offset
  | .memorySize => [0x3f, 0x00]
  | .memoryGrow => [0x40, 0x00]
  | .i32Const w => 0x41 :: Leb128.signed w.toBitVec.toInt
  | .f64Const n => 0x44 :: Bytes.ofNat 8 n.bits.toNat
  | .i32Eq => [0x46]
  | .i32Ne => [0x47]
  | .i32GtU => [0x4b]
  | .f64Le => [0x65]
  | .i32Add => [0x6a]
  | .i32Shl => [0x74]
  | .f64Add => [0xa0]

/-- A sequence of instructions. -/
def code (is : List Instr) : ByteArray := (is.flatMap instr).toByteArray

/-- A list of items, with their number in front. -/
def vec (items : List ByteArray) : ByteArray :=
  (Leb128.unsigned items.length).toByteArray ++ Bytes.concat items

/-- Bytes with their number in front. -/
def sized (content : ByteArray) : ByteArray :=
  (Leb128.unsigned content.size).toByteArray ++ content

/-- A text as sized UTF-8. -/
def name (s : String) : ByteArray := sized s.toUTF8

/-- The types of the locals of a function, each in a group of its own. -/
def locals (types : List ValType) : ByteArray :=
  vec (types.map fun t => [1, valType t].toByteArray)

/-- The locals and the code of a function. -/
def body (types : List ValType) (is : List Instr) : ByteArray := locals types ++ code is

/-- Declares locals in the bytes of a body that was made before they were known: the zero in front,
which says that there are none, gives way to them. Bytes that begin otherwise are no such body. -/
def declare? (types : List ValType) (bytes : ByteArray) : Option ByteArray :=
  if 0 < bytes.size ∧ Bytes.get bytes 0 = 0 then
    some (locals types ++ bytes.extract 1 bytes.size)
  else none

/-- The type of a function. -/
def funcType (t : FuncType) : ByteArray :=
  [0x60].toByteArray ++ vec (t.params.map fun p => [valType p].toByteArray)
    ++ vec (t.results.map fun r => [valType r].toByteArray)

/-- An imported function. -/
def importEntry (i : Import) : ByteArray :=
  name i.moduleName ++ name i.name ++ (0x00 :: Leb128.unsigned i.type).toByteArray

/-- The sizes of a memory that has a largest one. -/
def limits (l : Limits) : ByteArray :=
  (0x01 :: Leb128.unsigned l.min ++ Leb128.unsigned l.max).toByteArray

/-- A mutable global with the code for its first value. -/
def global (g : Global) : ByteArray :=
  [valType .i32, 0x01].toByteArray ++ code [.i32Const g.init, .close]

/-- An export. -/
def exportEntry (e : Export) : ByteArray :=
  let kind : UInt8 := match e.kind with
    | .func => 0x00
    | .memory => 0x02
  name e.name ++ (kind :: Leb128.unsigned e.index).toByteArray

/-- Bytes for the memory, with the code for their address. -/
def dataSegment (d : DataSegment) : ByteArray :=
  [0x00].toByteArray ++ code [.i32Const d.offset, .close] ++ sized d.bytes

/-- A section: its number, and its content with its size. -/
def numbered (id : UInt8) (content : ByteArray) : ByteArray := [id].toByteArray ++ sized content

/-- A custom section. -/
def custom (c : Custom) : ByteArray := numbered 0 (name c.name ++ c.content.toUTF8)

/-- The magic number and the version. -/
def header : ByteArray := [0x00, 0x61, 0x73, 0x6d, 0x01, 0x00, 0x00, 0x00].toByteArray

/-- The bodies of the functions of a module, each with its size. -/
def bodies (m : Module) : List ByteArray := m.funcs.map fun f => sized (body f.locals f.body)

/-- A module. -/
def encode (m : Module) : ByteArray :=
  header
    ++ numbered 1 (vec (m.types.map funcType))
    ++ numbered 2 (vec (m.imports.map importEntry))
    ++ numbered 3 (vec (m.funcs.map fun f => (Leb128.unsigned f.type).toByteArray))
    ++ numbered 5 (vec [limits m.memory])
    ++ numbered 6 (vec (m.globals.map global))
    ++ numbered 7 (vec (m.exports.map exportEntry))
    ++ numbered 10 (vec (bodies m))
    ++ numbered 11 (vec (m.data.map dataSegment))
    ++ Bytes.concat (m.customs.map custom)

end Twofold.Wasm.Binary
