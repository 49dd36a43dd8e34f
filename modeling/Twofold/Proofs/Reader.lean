import Twofold.Proofs.StaticTexts
import Twofold.Wasm.Binary

/-!
# Reading the binary format

A reader of the binary format, written from the grammar and not from the functions that write it: an
integer may have more bytes than it needs, locals may come in groups of any size, and a section may
be any of those the format has, in any order. Contents that the other definitions have no words for
are refused. Integers have a `width`, in bits, that they may not exceed.
-/

namespace Twofold.Wasm

/-- Reads a value from the front of the bytes that are left, or fails. -/
abbrev Reader := StateT (List UInt8) Option

/-- The locals of a function, in groups of one type, and its code. -/
structure Body where
  locals : List (Nat × ValType)
  code : List Instr

/-- The content of a section. -/
inductive Section where
  | custom (name : String) (content : List UInt8)
  | types (types : List FuncType)
  | imports (imports : List Import)
  /-- The types of the functions, by index. -/
  | funcs (types : List Nat)
  | memories (memories : List Limits)
  /-- The type of each global, whether it can be set, and the code for its first value. -/
  | globals (globals : List (ValType × Bool × List Instr))
  | exports (exports : List Export)
  | bodies (bodies : List Body)
  /-- The code for the address of some bytes, and the bytes. -/
  | data (segments : List (List Instr × List UInt8))

namespace Reader

/-! ## Readers -/

def byte : Reader UInt8
  | [] => none
  | b :: bs => some (b, bs)

/-- A given byte. -/
def expect (b : UInt8) : Reader Unit := do guard ((← byte) = b)

/-- An unsigned integer of at most `width` bits. -/
def unsigned (width : Nat) : Reader Nat
  | [] => none
  | b :: bs =>
    if b.toNat < 128 then
      if b.toNat < 2 ^ width then some (b.toNat, bs) else none
    else if 7 < width then
      match unsigned (width - 7) bs with
      | some (n, rest) => some (128 * n + (b.toNat - 128), rest)
      | none => none
    else none

/-- A signed integer of at most `width` bits. -/
def signed (width : Nat) : Reader Int
  | [] => none
  | b :: bs =>
    if b.toNat < 64 then
      if b.toNat < 2 ^ (width - 1) then some (b.toNat, bs) else none
    else if b.toNat < 128 then
      if 128 - b.toNat ≤ 2 ^ (width - 1) then some ((b.toNat : Int) - 128, bs) else none
    else if 7 < width then
      match signed (width - 7) bs with
      | some (n, rest) => some (128 * n + (b.toNat - 128 : Nat), rest)
      | none => none
    else none

/-- The next `count` bytes. -/
def take (count : Nat) : Reader (List UInt8) := fun bs =>
  if count ≤ bs.length then some (bs.take count, bs.drop count) else none

/-- All bytes. -/
def rest : Reader (List UInt8) := fun bs => some (bs, [])

variable {α β : Type}

def many (p : Reader α) : (count : Nat) → Reader (List α)
  | 0 => return []
  | count + 1 => do
    let a ← p
    return a :: (← many p count)

/-- A list of items, with their number in front. -/
def vec (width : Nat) (p : Reader α) : Reader (List α) := do many p (← unsigned width)

/-- Bytes with their number in front. -/
def sized (width : Nat) : Reader (List UInt8) := do take (← unsigned width)

/-- What `p` reads from bytes of which it must not leave any. -/
def exactly (p : Reader α) (bs : List UInt8) : Reader α :=
  match p bs with
  | some (a, []) => return a
  | _ => failure

/-- What `p` reads from sized bytes. -/
def inside (width : Nat) (p : Reader α) : Reader α := do exactly p (← sized width)

def name (width : Nat) : Reader String := do
  match String.fromUTF8? (← sized width).toByteArray with
  | some s => return s
  | none => failure

def valType : Reader ValType := do
  match (← byte).toNat with
  | 0x7f => return .i32
  | 0x7e => return .i64
  | 0x7d => return .f32
  | 0x7c => return .f64
  | _ => failure

/-- What the branches of a choice leave. -/
def blockType : Reader (Option ValType) := fun bs =>
  match bs with
  | 0x40 :: bs => some (none, bs)
  | bs => (some <$> valType) bs

/-- The offset of a memory access with its natural alignment. -/
def access (width align : Nat) : Reader Nat := do
  guard ((← unsigned width) = align)
  unsigned width

def instr (width : Nat) : Reader Instr := do
  match (← byte).toNat with
  | 0x00 => return .unreachable
  | 0x04 => return .ifThen (← blockType)
  | 0x05 => return .orElse
  | 0x0b => return .close
  | 0x10 => return .call (← unsigned width)
  | 0x20 => return .localGet (← unsigned width)
  | 0x21 => return .localSet (← unsigned width)
  | 0x23 => return .globalGet (← unsigned width)
  | 0x24 => return .globalSet (← unsigned width)
  | 0x28 => return .i32Load (← access width 2)
  | 0x2b => return .f64Load (← access width 3)
  | 0x36 => return .i32Store (← access width 2)
  | 0x39 => return .f64Store (← access width 3)
  | 0x3f => do expect 0; return .memorySize
  | 0x40 => do expect 0; return .memoryGrow
  | 0x41 => return .i32Const ⟨BitVec.ofInt 32 (← signed 32)⟩
  | 0x44 => return .f64Const ⟨UInt64.ofNat (Bytes.toNat (← take 8))⟩
  | 0x46 => return .i32Eq
  | 0x47 => return .i32Ne
  | 0x4b => return .i32GtU
  | 0x65 => return .f64Le
  | 0x6a => return .i32Add
  | 0x74 => return .i32Shl
  | 0xa0 => return .f64Add
  | _ => failure

/-- The choices that are open behind an instruction, innermost first, and whether the second branch
of each may still come; none where the instruction cannot stand. -/
def nest : List Bool → Instr → Option (List Bool)
  | opened, .ifThen _ => some (true :: opened)
  | true :: opened, .orElse => some (false :: opened)
  | _, .orElse => none
  | _ :: opened, .close => some opened
  | [], .close => none
  | opened, _ => some opened

/-- Instructions up to the one that closes them, of at most `count`. -/
def instrs (width : Nat) : (count : Nat) → (opened : List Bool) → Reader (List Instr)
  | 0, _ => failure
  | count + 1, opened => do
    let i ← instr width
    if i = .close ∧ opened = [] then return [i]
    else
      match nest opened i with
      | some opened => return i :: (← instrs width count opened)
      | none => failure

/-- Instructions up to the one that closes them. -/
def code (width : Nat) : Reader (List Instr) := fun bs => instrs width bs.length [] bs

def localGroup (width : Nat) : Reader (Nat × ValType) := do
  let count ← unsigned width
  return (count, ← valType)

def body (width : Nat) : Reader Body := do
  let locals ← vec width (localGroup width)
  return ⟨locals, ← code width⟩

def funcType (width : Nat) : Reader FuncType := do
  expect 0x60
  let params ← vec width valType
  return ⟨params, ← vec width valType⟩

def importEntry (width : Nat) : Reader Import := do
  let moduleName ← name width
  let entry ← name width
  expect 0x00
  return ⟨moduleName, entry, ← unsigned width⟩

def limits (width : Nat) : Reader Limits := do
  expect 0x01
  let least ← unsigned width
  return ⟨least, ← unsigned width⟩

def global (width : Nat) : Reader (ValType × Bool × List Instr) := do
  let type ← valType
  let mutability ← byte
  guard (mutability.toNat ≤ 1)
  return (type, mutability = 1, ← code width)

def exportKind : Reader ExportKind := do
  match (← byte).toNat with
  | 0x00 => return .func
  | 0x02 => return .memory
  | _ => failure

def exportEntry (width : Nat) : Reader Export := do
  let entry ← name width
  let kind ← exportKind
  return ⟨entry, kind, ← unsigned width⟩

def segment (width : Nat) : Reader (List Instr × List UInt8) := do
  expect 0x00
  let offset ← code width
  return (offset, ← sized width)

/-- The content of the section with a number. -/
def content (width : Nat) : (id : Nat) → Reader Section
  | 0 => do
    let title ← name width
    return .custom title (← rest)
  | 1 => .types <$> vec width (funcType width)
  | 2 => .imports <$> vec width (importEntry width)
  | 3 => .funcs <$> vec width (unsigned width)
  | 5 => .memories <$> vec width (limits width)
  | 6 => .globals <$> vec width (global width)
  | 7 => .exports <$> vec width (exportEntry width)
  | 10 => .bodies <$> vec width (inside width (body width))
  | 11 => .data <$> vec width (segment width)
  | _ => failure

def numbered (width : Nat) : Reader Section := do
  let id ← byte
  inside width (content width id.toNat)

/-- Values up to the end of the bytes, of at most `count`. -/
def all (p : Reader α) : (count : Nat) → List UInt8 → Option (List α)
  | _, [] => some []
  | 0, _ :: _ => none
  | count + 1, bs =>
    match p bs with
    | some (a, bs) => (a :: ·) <$> all p count bs
    | none => none

/-- The sections of a module. -/
def sections (width : Nat) (bs : List UInt8) : Option (List Section) :=
  if bs.take 8 = [0x00, 0x61, 0x73, 0x6d, 0x01, 0x00, 0x00, 0x00] then
    all (numbered width) bs.length (bs.drop 8)
  else none

end Reader

end Twofold.Wasm
