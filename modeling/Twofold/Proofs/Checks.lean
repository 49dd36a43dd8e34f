import Twofold.Proofs.Construction

/-!
# Primitives and their checks

A primitive looks at the tags of its operands before it does anything else. An operand of the wrong
kind is reported to the host, and the report reads as the failure that evaluation has for it; with
operands of the right kind the primitive has the value that evaluation gives.
-/

namespace Twofold

open Wasm Cell Machine Heap

/-! ## Looking at cells -/

/-- The tag of the cell of a value. -/
def Cell.tagOf : Value → UInt32
  | .num _ => Cell.number
  | .bool _ => Cell.boolean
  | .pair .. => Cell.pair

theorem Cell.Stored.tag_eq {m : ByteArray} {base i : Nat} {v : Value} (h : Stored m base i v) :
    word m (address base i) = tagOf v := by
  cases h <;> assumption

theorem tagOf_eq_number {v : Value} : tagOf v = Cell.number ↔ ∃ n, v = .num n := by
  cases v <;> simp [tagOf, Cell.number, Cell.boolean, Cell.pair]

theorem tagOf_eq_boolean {v : Value} : tagOf v = Cell.boolean ↔ ∃ b, v = .bool b := by
  cases v <;> simp [tagOf, Cell.number, Cell.boolean, Cell.pair]

theorem tagOf_eq_pair {v : Value} : tagOf v = Cell.pair ↔ ∃ a b, v = .pair a b := by
  cases v <;> simp [tagOf, Cell.number, Cell.boolean, Cell.pair]

variable {H : Type} {d : StaticData} {k c : Nat} {rs : List Return} {gs : Array Val} {mem : Memory}

namespace HeapAt

variable {P : Point H → Prop} {Q : List Return → Machine H → Prop}
  {T : Trap → List Return → Machine H → Prop} {call : Nat → List Return → Machine H → Run H}
  {ctl : Control} {st : List Val} {ls : Array Val} {h : H} {i : Nat}

theorem cell_le (heap : HeapAt d k c rs gs mem) (hi : i < k) :
    address d.heapStart i + Cell.size ≤ mem.bytes.size :=
  Nat.le_trans (address_lt _ hi) heap.inside

theorem meets_i32Load (heap : HeapAt d k c rs gs mem) {offset : Nat} (hi : i < k)
    (ho : offset + 4 ≤ Cell.size) :
    (traceStep call (.i32Load offset) rs ⟨ctl, .i32 (UInt32.ofNat (address d.heapStart i)) :: st,
      ls, gs, mem, h⟩).Meets P Q T ↔
      Q rs ⟨ctl, .i32 (word mem.bytes (address d.heapStart i + offset)) :: st, ls, gs, mem, h⟩ := by
  have place := heap.toNat_pointer (Nat.le_succ_of_le (Nat.le_of_lt hi))
  have inside := heap.cell_le hi
  rw [Machine.meets_i32Load (by omega), place]
  rfl

theorem meets_f64Load (heap : HeapAt d k c rs gs mem) {offset : Nat} (hi : i < k)
    (ho : offset + 8 ≤ Cell.size) :
    (traceStep call (.f64Load offset) rs ⟨ctl, .i32 (UInt32.ofNat (address d.heapStart i)) :: st,
      ls, gs, mem, h⟩).Meets P Q T ↔
      Q rs ⟨ctl, .f64 (Heap.number mem.bytes (address d.heapStart i + offset)) :: st, ls, gs, mem,
        h⟩ := by
  have place := heap.toNat_pointer (Nat.le_succ_of_le (Nat.le_of_lt hi))
  have inside := heap.cell_le hi
  rw [Machine.meets_f64Load (by omega), place]
  rfl

theorem readValue_eq (heap : HeapAt d k c rs gs mem) {v : Value} (hi : i < k)
    (stored : Stored mem.bytes d.heapStart i v) :
    readValue mem.bytes (UInt32.ofNat (address d.heapStart i)) = .ok v := by
  have inside := heap.cell_le hi
  rw [← address_succ] at inside
  exact stored.readValue_eq inside (Nat.le_trans heap.laid.size_lt (by decide))

/-- No cell stands at address `0`: the static data is never empty. -/
theorem pointer_ne_zero (heap : HeapAt d k c rs gs mem) (hi : i < k) :
    UInt32.ofNat (address d.heapStart i) ≠ 0 := by
  intro zero
  have place := heap.toNat_pointer (Nat.le_succ_of_le (Nat.le_of_lt hi))
  have start := d.heapStart_pos
  have behind := base_le_address d.heapStart i
  rw [zero] at place
  simp only [UInt32.toNat_zero] at place
  omega

/-- The functions behind those that make cells do not take memory themselves. -/
theorem ne_alloc_of_lt {f : Nat} (hf : Support.makePair < f) : f ≠ Support.alloc := by
  rintro rfl
  exact absurd hf (by decide)

/-- A return from a function that is not concerned with the heap. -/
theorem returned (heap : HeapAt d k c rs gs mem) {f : Nat} {results : List Val}
    (hf : Support.makePair < f) : HeapAt d k c (⟨f, results⟩ :: rs) gs mem where
  count := (allocations_cons_of_ne rs (ne_alloc_of_lt hf)).1.trans heap.count
  handedOut_eq := (allocations_cons_of_ne rs (ne_alloc_of_lt hf)).2.trans heap.handedOut_eq
  made_eq := by
    have others : ∀ g ∈ constructors, g ≤ Support.makePair := by decide
    have other : f ∉ constructors := fun member => absurd (others f member) (Nat.not_le.2 hf)
    rw [made, resultsOf_cons_of_not_mem rs other]
    exact heap.made_eq
  made_le := heap.made_le
  inside := heap.inside
  laid := heap.laid
  top := heap.top

theorem sound_unreachable (heap : HeapAt d c c rs gs mem) {calls : List Nat}
    (hcalls : calls.head? ≠ some Support.alloc) :
    Sound d (⟨calls, rs, some .unreachable, ⟨ctl, st, ls, gs, mem, h⟩⟩ : Point H) :=
  ⟨c, c, heap.soundAt rfl rfl (fun _ => rfl) (fun _ => rfl) trivial
    fun inner => absurd inner hcalls⟩

end HeapAt

/-! ## Reports -/

theorem Primitive.ofCode?_code (p : Primitive) : Primitive.ofCode? p.code = some p := by
  cases p <;> rfl

/-- A report about an operand of `+` or `<=`. -/
theorem reports_typeMismatch (heap : HeapAt d k c rs gs mem) {p : Primitive} {i j position : Nat}
    {given other : Value} (hi : i < k) (hj : j < k) (hg : Stored mem.bytes d.heapStart i given)
    (ho : Stored mem.bytes d.heapStart j other) (hp : p.isNumeric = true)
    (hpos : position < 2 ^ 32) :
    Reports Support.HostCall.contractViolation.index
      [.i32 p.code, .i32 (UInt32.ofNat position), .i32 (UInt32.ofNat (address d.heapStart i)),
        .i32 (UInt32.ofNat (address d.heapStart j))] mem
      (.typeMismatch p.name position given other) := by
  have place : (UInt32.ofNat position).toNat = position := UInt32.toNat_ofNat_of_lt' hpos
  have wanted : p.expected = Primitive.expected .add := by rw [Primitive.expected, hp]; rfl
  refine ⟨.contractViolation p position given (some other), ?_, ?_, ?_⟩
  · simp [Reference.readReport, Support.HostCall.index, Reference.readViolation, p.ofCode?_code,
      readOptional, heap.readValue_eq hi hg, heap.readValue_eq hj ho, heap.pointer_ne_zero hj,
      Except.map, bind, Except.bind, pure, Except.pure, place]
  · simp [Fault.kind, EvalError.kind, hp]
  · simp [Fault.message, EvalError.message, wanted]

/-- A report about the operand of `head` or `tail`. -/
theorem reports_notAPair (heap : HeapAt d k c rs gs mem) {p : Primitive} {i : Nat} {given : Value}
    (hi : i < k) (hg : Stored mem.bytes d.heapStart i given) (hp : p.isNumeric = false) :
    Reports Support.HostCall.contractViolation.index
      [.i32 p.code, .i32 (UInt32.ofNat 1), .i32 (UInt32.ofNat (address d.heapStart i)), .i32 0] mem
      (.notAPair p.name given) := by
  have wanted : p.expected = Primitive.expected .head := by rw [Primitive.expected, hp]; rfl
  refine ⟨.contractViolation p 1 given none, ?_, ?_, ?_⟩
  · simp [Reference.readReport, Support.HostCall.index, Reference.readViolation, p.ofCode?_code,
      readOptional, heap.readValue_eq hi hg, bind, Except.bind, pure, Except.pure, hp]
  · simp [Fault.kind, EvalError.kind, hp]
  · simp [Fault.message, EvalError.message, wanted]

/-- A report about a test. -/
theorem reports_nonBooleanTest (heap : HeapAt d k c rs gs mem) :
    Reports Support.HostCall.trap.index [.i32 (UInt32.ofNat StaticData.testMessage.ptr),
      .i32 (UInt32.ofNat StaticData.testMessage.len)] mem .nonBooleanTest := by
  have small := Nat.lt_of_le_of_lt heap.laid.size_lt (by decide : _ < 2 ^ 32)
  refine ⟨.nonBooleanTest Wording.nonBooleanTest, ?_, rfl, rfl⟩
  show some ((readString mem.bytes _ _).map Fault.nonBooleanTest) = _
  rw [readString_testMessage heap.laid.data (Nat.lt_of_le_of_lt heap.laid.data.size_le small)]
  rfl

/-- A report about a name. -/
theorem reports_unbound (heap : HeapAt d k c rs gs mem) {x : Name} (hx : x ∈ d.symbols) :
    Reports Support.HostCall.unbound.index [.i32 (UInt32.ofNat (d.location x).ptr),
      .i32 (UInt32.ofNat (d.location x).len)] mem (.unbound x) := by
  have small := Nat.lt_of_le_of_lt heap.laid.size_lt (by decide : _ < 2 ^ 32)
  refine ⟨.unbound x, ?_, rfl, rfl⟩
  show some ((readSymbol mem.bytes _ _).map Fault.unbound) = _
  rw [readSymbol_location hx heap.laid.data (Nat.lt_of_le_of_lt heap.laid.data.size_le small)]
  rfl

end Twofold
