import Twofold.Compile.Program
import Twofold.Proofs.Cells
import Twofold.Proofs.Rules
import Twofold.Proofs.StaticTexts

/-!
# States of the heap

What is known of the heap at a point of an execution: how many cells have been handed out and how
many of them are complete, that the cells stand in a row behind the static data, that the complete
ones represent values, and where the next one goes. `Sound` is the property of points that an
execution of a compiled expression keeps. A point whose next instruction neither stores nor belongs
to the function that takes memory is sound as soon as the heap is in order.
-/

namespace Twofold

open Wasm Cell

/-- The results of the completed calls of some functions, the latest first. -/
def resultsOf (fs : List Nat) (rs : List Return) : List Val :=
  (rs.filter fun r => fs.contains r.func).flatMap (·.results)

/-- The addresses of the cells that have been handed out. -/
def handedOut (rs : List Return) : List Val := resultsOf [Support.alloc] rs

/-- The functions that make cells. -/
def constructors : List Nat := [Support.makeNumber, Support.makeBool, Support.makePair]

/-- The addresses of the cells that have been completed. -/
def made (rs : List Return) : List Val := resultsOf constructors rs

/-- The number of completed calls of the function that takes memory. -/
def allocations (rs : List Return) : Nat := rs.countP fun r => r.func == Support.alloc

theorem resultsOf_cons_of_mem {fs : List Nat} {r : Return} (rs : List Return) (h : r.func ∈ fs) :
    resultsOf fs (r :: rs) = r.results ++ resultsOf fs rs := by
  simp [resultsOf, h]

theorem resultsOf_cons_of_not_mem {fs : List Nat} {r : Return} (rs : List Return)
    (h : r.func ∉ fs) : resultsOf fs (r :: rs) = resultsOf fs rs := by
  simp [resultsOf, h]

/-- Only the function that takes memory hands out cells. -/
theorem allocations_cons_of_ne {r : Return} (rs : List Return) (h : r.func ≠ Support.alloc) :
    allocations (r :: rs) = allocations rs ∧ handedOut (r :: rs) = handedOut rs := by
  constructor
  · rw [allocations, List.countP_cons_of_neg (by simpa using h)]
    rfl
  · exact resultsOf_cons_of_not_mem rs fun same => h (List.mem_singleton.1 same)

/-- The addresses of the first `n` cells, the latest first. -/
def grid (base : Nat) : (n : Nat) → List Val
  | 0 => []
  | n + 1 => .i32 (UInt32.ofNat (address base n)) :: grid base n

/-- A memory with the static data and `c` complete cells. -/
structure Laid (d : StaticData) (c : Nat) (mem : Memory) : Prop where
  limit : mem.limit = Program.maxPages
  pages : mem.bytes.size = mem.pages * pageSize
  pages_le : mem.pages ≤ Program.maxPages
  data : d.Below mem.bytes
  cells : ∀ i < c, ∃ v, Stored mem.bytes d.heapStart i v

namespace Laid

variable {d : StaticData} {c : Nat} {mem mem' : Memory}

/-- A memory never gets larger than a word can address. -/
theorem size_lt (laid : Laid d c mem) : mem.bytes.size ≤ Program.maxPages * pageSize := by
  rw [laid.pages]
  exact Nat.mul_le_mul_right pageSize laid.pages_le

theorem keeps (laid : Laid d c mem) (hk : Bytes.Keeps (address d.heapStart c) mem.bytes mem'.bytes)
    (hl : mem'.limit = mem.limit) (hs : mem'.bytes.size = mem'.pages * pageSize)
    (hp : mem'.pages ≤ Program.maxPages) : Laid d c mem' where
  limit := hl.trans laid.limit
  pages := hs
  pages_le := hp
  data := laid.data.trans (hk.mono (by
    rw [d.size_bytes]
    exact Nat.le_trans d.size_le_heapStart (base_le_address _ _)))
  cells i hi := by
    obtain ⟨v, stored⟩ := laid.cells i hi
    exact ⟨v, stored.keeps (address_le _ hi) hk⟩

/-- A store behind the complete cells. -/
theorem store (laid : Laid d c mem) {a count value : Nat} (ha : address d.heapStart c ≤ a) :
    Laid d c (mem.store a count value) := by
  have pages : (mem.store a count value).pages = mem.pages := by
    rw [Memory.pages, Memory.size_store, Memory.pages]
  refine laid.keeps (mem.keeps_store ha) rfl ?_ ?_
  · rw [pages, Memory.size_store, laid.pages]
  · rw [pages]
    exact laid.pages_le

/-- One more page, if there is room for it. -/
theorem grow (laid : Laid d c mem) (inside : address d.heapStart c ≤ mem.bytes.size)
    (room : mem.canGrow 1 = true) : Laid d c (mem.grow 1) := by
  have pages : (mem.grow 1).pages = mem.pages + 1 := by
    rw [Memory.pages, Memory.size_grow, Nat.one_mul, Nat.add_div_right _ (by decide), Memory.pages]
  have fits : mem.pages + 1 ≤ Program.maxPages := by
    rw [← laid.limit]
    exact of_decide_eq_true room
  refine laid.keeps (mem.keeps_grow _ 1 inside) rfl ?_ ?_
  · rw [pages, Memory.size_grow, laid.pages, Nat.add_mul]
  · rw [pages]
    exact fits

end Laid

/-- The heap with `k` cells handed out, `c` of them complete. -/
structure HeapAt (d : StaticData) (k c : Nat) (rs : List Return) (gs : Array Val) (mem : Memory) :
    Prop where
  count : allocations rs = k
  handedOut_eq : handedOut rs = grid d.heapStart k
  made_eq : made rs = grid d.heapStart c
  made_le : c ≤ k
  inside : address d.heapStart k ≤ mem.bytes.size
  laid : Laid d c mem
  top : gs = #[.i32 (UInt32.ofNat (address d.heapStart k))]

variable {H : Type}

/-- A store that comes next does not reach below `n`. -/
def Wasm.Point.StoresFrom (n : Nat) (p : Point H) : Prop :=
  match p.next, p.state.stack with
  | some (.i32Store offset), .i32 _ :: .i32 a :: _ => n ≤ a.toNat + offset
  | some (.f64Store offset), .f64 _ :: .i32 a :: _ => n ≤ a.toNat + offset
  | _, _ => True

/-- The arithmetic of the function that takes memory is exact, and it gives up only if the memory
may not grow any more. -/
def Wasm.Point.Allocates (base k : Nat) (p : Point H) : Prop :=
  match p.next with
  | some .i32Add => ∃ a b st, p.state.stack = .i32 b :: .i32 a :: st ∧
      a.toNat = address base k ∧ b.toNat = Cell.size ∧ a.toNat + b.toNat < 2 ^ 32
  | some .i32Shl => ∃ a b st, p.state.stack = .i32 b :: .i32 a :: st ∧
      a.toNat = p.state.memory.pages ∧ b.toNat = 16 ∧ a.toNat * 2 ^ b.toNat < 2 ^ 32
  | some .i32GtU => ∃ a b st, p.state.stack = .i32 b :: .i32 a :: st ∧
      a.toNat = address base (k + 1) ∧ b.toNat = p.state.memory.pages * pageSize
  | some .unreachable => Program.maxPages * pageSize < address base (k + 1)
  | _ => True

/-- A point at which the heap is in order. -/
structure SoundAt (d : StaticData) (k c : Nat) (p : Point H) : Prop where
  count : allocations p.returns = k
  handedOut_eq : handedOut p.returns = grid d.heapStart k
  made_eq : made p.returns = grid d.heapStart c
  made_le : c ≤ k
  complete : (∀ f ∈ constructors, f ∉ p.calls) → c = k
  inside : address d.heapStart k ≤ p.state.memory.bytes.size
  laid : Laid d c p.state.memory
  top : Support.alloc ∉ p.calls →
    p.state.globals = #[.i32 (UInt32.ofNat (address d.heapStart k))]
  stores : p.StoresFrom (address d.heapStart c)
  allocates : p.calls.head? = some Support.alloc → p.Allocates d.heapStart k

/-- A point at which the heap is in order, for some numbers of cells. -/
def Sound (d : StaticData) (p : Point H) : Prop := ∃ k c, SoundAt d k c p

/-- The instructions at which nothing has to be shown but that the heap is in order. -/
inductive Wasm.Instr.Quiet : Instr → Prop
  | ifThen (r : Option ValType) : Quiet (.ifThen r)
  | orElse : Quiet .orElse
  | close : Quiet .close
  | call (f : Nat) : Quiet (.call f)
  | localGet (i : Nat) : Quiet (.localGet i)
  | localSet (i : Nat) : Quiet (.localSet i)
  | globalGet (i : Nat) : Quiet (.globalGet i)
  | globalSet (i : Nat) : Quiet (.globalSet i)
  | i32Load (offset : Nat) : Quiet (.i32Load offset)
  | f64Load (offset : Nat) : Quiet (.f64Load offset)
  | memorySize : Quiet .memorySize
  | memoryGrow : Quiet .memoryGrow
  | i32Const (w : UInt32) : Quiet (.i32Const w)
  | f64Const (n : Number) : Quiet (.f64Const n)
  | i32Eq : Quiet .i32Eq
  | i32Ne : Quiet .i32Ne
  | f64Le : Quiet .f64Le
  | f64Add : Quiet .f64Add

attribute [simp] Instr.Quiet.ifThen Instr.Quiet.orElse Instr.Quiet.close Instr.Quiet.call
  Instr.Quiet.localGet Instr.Quiet.localSet Instr.Quiet.globalGet Instr.Quiet.globalSet
  Instr.Quiet.i32Load Instr.Quiet.f64Load Instr.Quiet.memorySize Instr.Quiet.memoryGrow
  Instr.Quiet.i32Const Instr.Quiet.f64Const Instr.Quiet.i32Eq Instr.Quiet.i32Ne Instr.Quiet.f64Le
  Instr.Quiet.f64Add

theorem Wasm.Instr.Quiet.storesFrom {p : Point H} {i : Instr} {n : Nat} (hi : i.Quiet)
    (hp : p.next = some i) : p.StoresFrom n := by
  unfold Point.StoresFrom
  rw [hp]
  cases hi <;> trivial

theorem Wasm.Instr.Quiet.allocates {p : Point H} {i : Instr} {base k : Nat} (hi : i.Quiet)
    (hp : p.next = some i) : p.Allocates base k := by
  unfold Point.Allocates
  rw [hp]
  cases hi <;> trivial

namespace HeapAt

variable {d : StaticData} {k c : Nat} {rs : List Return} {gs : Array Val} {mem : Memory}

theorem soundAt (heap : HeapAt d k c rs gs mem) {p : Point H} (hr : p.returns = rs)
    (hm : p.state.memory = mem) (hc : (∀ f ∈ constructors, f ∉ p.calls) → c = k)
    (hg : Support.alloc ∉ p.calls → p.state.globals = gs)
    (hs : p.StoresFrom (address d.heapStart c))
    (ha : p.calls.head? = some Support.alloc → p.Allocates d.heapStart k) : SoundAt d k c p where
  count := hr ▸ heap.count
  handedOut_eq := hr ▸ heap.handedOut_eq
  made_eq := hr ▸ heap.made_eq
  made_le := heap.made_le
  complete := hc
  inside := hm ▸ heap.inside
  laid := hm ▸ heap.laid
  top h := (hg h).trans heap.top
  stores := hs
  allocates := ha

/-- A quiet point at which all cells are complete. -/
theorem sound (heap : HeapAt d c c rs gs mem) {i : Instr} {calls : List Nat} {ctl : Control}
    {st : List Val} {ls : Array Val} {h : H} (hi : i.Quiet) :
    Sound d (⟨calls, rs, some i, ⟨ctl, st, ls, gs, mem, h⟩⟩ : Point H) :=
  ⟨c, c, heap.soundAt rfl rfl (fun _ => rfl) (fun _ => rfl) (hi.storesFrom rfl)
    fun _ => hi.allocates rfl⟩

theorem sound_end (heap : HeapAt d c c rs gs mem) {calls : List Nat} {ctl : Control}
    {st : List Val} {ls : Array Val} {h : H} :
    Sound d (⟨calls, rs, none, ⟨ctl, st, ls, gs, mem, h⟩⟩ : Point H) :=
  ⟨c, c, heap.soundAt rfl rfl (fun _ => rfl) (fun _ => rfl) trivial fun _ => trivial⟩

end HeapAt

end Twofold
