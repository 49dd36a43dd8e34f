import Twofold.Proofs.HeapState

/-!
# Taking memory

The function that takes memory hands out the next cell of the row and keeps the heap in order on the
way: its arithmetic on addresses is exact, the memory grows by at most one page, and it gives up
only if the cell would end behind the last page that the memory may have.
-/

namespace Twofold

open Wasm Cell Machine

variable {H : Type} {d : StaticData} {k c : Nat} {rs : List Return} {gs : Array Val} {mem : Memory}

namespace HeapAt

/-! ## Addresses as words -/

theorem next_lt (heap : HeapAt d k c rs gs mem) : address d.heapStart (k + 1) < 2 ^ 32 := by
  have inside := heap.inside
  have small := heap.laid.size_lt
  simp only [Program.maxPages, pageSize] at small
  rw [address_succ]
  simp only [Cell.size]
  omega

theorem toNat_pointer (heap : HeapAt d k c rs gs mem) {i : Nat} (hi : i ≤ k + 1) :
    (UInt32.ofNat (address d.heapStart i)).toNat = address d.heapStart i :=
  UInt32.toNat_ofNat_of_lt' (Nat.lt_of_le_of_lt (address_le _ hi) heap.next_lt)

theorem toNat_pages (heap : HeapAt d k c rs gs mem) :
    (UInt32.ofNat mem.pages).toNat = mem.pages := by
  have few := heap.laid.pages_le
  simp only [Program.maxPages] at few
  exact UInt32.toNat_ofNat_of_lt' (by simp only [UInt32.size]; omega)

theorem toNat_end (heap : HeapAt d k c rs gs mem) :
    (UInt32.ofNat mem.pages <<< 16).toNat = mem.bytes.size := by
  have few := heap.laid.pages_le
  simp only [Program.maxPages] at few
  rw [UInt32.toNat_shiftLeft, heap.toNat_pages, heap.laid.pages, Nat.shiftLeft_eq]
  simp only [pageSize]
  exact Nat.mod_eq_of_lt (by simp; omega)

/-! ## Points of the function -/

/-- Inside the function the global may have been moved on already. -/
theorem sound_alloc (heap : HeapAt d c c rs gs mem) {i : Instr} {calls : List Nat} {ctl : Control}
    {st : List Val} {ls gs' : Array Val} {h : H} (hi : i.Quiet) :
    Sound d (⟨Support.alloc :: calls, rs, some i, ⟨ctl, st, ls, gs', mem, h⟩⟩ : Point H) :=
  ⟨c, c, heap.soundAt rfl rfl (fun _ => rfl) (fun out => absurd List.mem_cons_self out)
    (hi.storesFrom rfl) fun _ => hi.allocates rfl⟩

/-- What is left to show where the function calculates or gives up. -/
theorem sound_alloc_of (heap : HeapAt d c c rs gs mem) {i : Option Instr} {calls : List Nat}
    {s : Machine H} (hm : s.memory = mem)
    (hs : Point.StoresFrom (address d.heapStart c) ⟨Support.alloc :: calls, rs, i, s⟩)
    (ha : Point.Allocates d.heapStart c ⟨Support.alloc :: calls, rs, i, s⟩) :
    Sound d ⟨Support.alloc :: calls, rs, i, s⟩ :=
  ⟨c, c, heap.soundAt rfl hm (fun _ => rfl) (fun out => absurd List.mem_cons_self out) hs
    fun _ => ha⟩

theorem replace (heap : HeapAt d k c rs gs mem) {mem' : Memory} (laid : Laid d c mem')
    (inside : address d.heapStart k ≤ mem'.bytes.size) : HeapAt d k c rs gs mem' :=
  { heap with inside := inside, laid := laid }

/-- Handing out one more cell. -/
theorem alloc (heap : HeapAt d k c rs gs mem) {mem' : Memory} (laid : Laid d c mem')
    (inside : address d.heapStart (k + 1) ≤ mem'.bytes.size) :
    HeapAt d (k + 1) c (⟨Support.alloc, [.i32 (UInt32.ofNat (address d.heapStart k))]⟩ :: rs)
      #[.i32 (UInt32.ofNat (address d.heapStart (k + 1)))] mem' where
  count := by
    rw [allocations, List.countP_cons_of_pos (by simp)]
    exact congrArg (· + 1) heap.count
  handedOut_eq := by
    rw [handedOut, resultsOf_cons_of_mem rs (by simp)]
    exact congrArg _ heap.handedOut_eq
  made_eq := by
    have other : Support.alloc ∉ constructors := by decide
    rw [made, resultsOf_cons_of_not_mem rs other]
    exact heap.made_eq
  made_le := Nat.le_succ_of_le heap.made_le
  inside := inside
  laid := laid
  top := rfl

end HeapAt

variable {host : Host H} {locs : List ValType} {code : List Instr} {depth : Nat}
  {calls : List Nat} {ctl : Control} {st : List Val} {ls : Array Val} {h : H}
  {Q : List Return → Machine H → Prop} {T : Trap → List Return → Machine H → Prop}

/-- The second half of the function, after the end of the next cell was compared with the end of the
memory: a page is added if the cell does not fit. -/
def Support.reserve : List Instr :=
  [.i32Const 1, .memoryGrow, .i32Const 0xffffffff, .i32Eq, .ifThen none, .unreachable, .close,
   .close, .localGet 1, .close]

theorem meets_reserve {call : Nat → List Return → Machine H → Run H} {w : Val} {gs' : Array Val}
    (heap : HeapAt d c c rs gs mem) (hw : ls[1]? = some w)
    (done : ∀ mem', Laid d c mem' → address d.heapStart (c + 1) ≤ mem'.bytes.size →
      Bytes.Keeps mem.bytes.size mem.bytes mem'.bytes → Q rs ⟨.run, [w], ls, gs', mem', h⟩)
    (full : Program.maxPages * pageSize < address d.heapStart (c + 1) →
      ∀ s, s.host = h → T .unreachable rs s) :
    (traceCode call (Support.alloc :: calls) Support.reserve rs
      ⟨if mem.bytes.size < address d.heapStart (c + 1) then .run else .skip 0 true, [], ls, gs',
        mem, h⟩).Meets (Sound d) Q T := by
  by_cases fits : address d.heapStart (c + 1) ≤ mem.bytes.size
  · have ends := done mem heap.laid fits (Bytes.Keeps.refl _ _)
    simpa [Support.reserve, Nat.not_lt.2 fits, Control.pass, meets_cons, heap.sound_alloc, hw]
      using ends
  have short : mem.bytes.size < address d.heapStart (c + 1) := Nat.lt_of_not_le fits
  by_cases room : mem.canGrow 1 = true
  · have complete : address d.heapStart c ≤ mem.bytes.size :=
      Nat.le_trans (address_le _ heap.made_le) heap.inside
    have laid := heap.laid.grow complete room
    have reached : address d.heapStart (c + 1) ≤ (mem.grow 1).bytes.size := by
      have inside := heap.inside
      rw [address_succ, Memory.size_grow]
      simp only [Cell.size, pageSize]
      omega
    have grown := heap.replace laid (Nat.le_trans (address_le _ (Nat.le_succ c)) reached)
    have answer : (UInt32.ofNat mem.pages == 0xffffffff) = false := by
      have few := heap.laid.pages_le
      simp only [Program.maxPages] at few
      rw [beq_eq_false_iff_ne]
      intro eq
      have pages := heap.toNat_pages
      rw [eq] at pages
      rw [← pages] at few
      exact absurd few (by decide)
    have ends := done _ laid reached (mem.keeps_grow _ 1 (Nat.le_refl _))
    simpa [Support.reserve, short, Control.pass, meets_cons, heap.sound_alloc, grown.sound_alloc,
      hw, room, answer] using ends
  · have exhausted : Program.maxPages * pageSize < address d.heapStart (c + 1) := by
      have last : mem.limit < mem.pages + 1 := by
        simpa [Memory.canGrow] using room
      rw [heap.laid.limit] at last
      have most : mem.pages = Program.maxPages :=
        Nat.le_antisymm heap.laid.pages_le (Nat.le_of_lt_succ last)
      rwa [heap.laid.pages, most] at short
    have stops {ctl : Control} {st : List Val} : Sound d (⟨Support.alloc :: calls, rs,
        some .unreachable, ⟨ctl, st, ls, gs', mem, h⟩⟩ : Point H) :=
      heap.sound_alloc_of rfl trivial exhausted
    have ends {ctl : Control} {st : List Val} := full exhausted ⟨ctl, st, ls, gs', mem, h⟩ rfl
    simp [Support.reserve, short, meets_cons, heap.sound_alloc, room, stops, ends]

/-- The first half of the function moves the global on, without any overflow. -/
theorem meets_bump {call : Nat → List Return → Machine H → Run H} (heap : HeapAt d c c rs gs mem) :
    (traceCode call (Support.alloc :: calls) Support.allocFunc.body rs
      ⟨.run, [], #[.i32 12, .i32 0], gs, mem, h⟩).Meets (Sound d) Q T ↔
    (traceCode call (Support.alloc :: calls) Support.reserve rs
      ⟨if mem.bytes.size < address d.heapStart (c + 1) then .run else .skip 0 true, [],
        #[.i32 12, .i32 (UInt32.ofNat (address d.heapStart c))],
        #[.i32 (UInt32.ofNat (address d.heapStart (c + 1)))], mem, h⟩).Meets (Sound d) Q T := by
  have top := heap.toNat_pointer (Nat.le_succ c)
  have ending := heap.toNat_pointer (Nat.le_refl (c + 1))
  have next : UInt32.ofNat (address d.heapStart c) + 12 =
      UInt32.ofNat (address d.heapStart (c + 1)) := by
    rw [address_succ, UInt32.ofNat_add]
    rfl
  have adds {st : List Val} {ls gs : Array Val} : Sound d (⟨Support.alloc :: calls, rs,
      some .i32Add, ⟨.run, .i32 12 :: .i32 (UInt32.ofNat (address d.heapStart c)) :: st, ls, gs,
        mem, h⟩⟩ : Point H) := by
    have exact_sum := heap.next_lt
    rw [address_succ] at exact_sum
    exact heap.sound_alloc_of rfl trivial
      ⟨_, _, _, rfl, top, rfl, by rw [top]; exact exact_sum⟩
  have shifts {st : List Val} {ls gs : Array Val} : Sound d (⟨Support.alloc :: calls, rs,
      some .i32Shl, ⟨.run, .i32 16 :: .i32 (UInt32.ofNat mem.pages) :: st, ls, gs, mem, h⟩⟩ :
      Point H) := by
    have small := heap.laid.size_lt
    rw [heap.laid.pages] at small
    refine heap.sound_alloc_of rfl trivial ⟨_, _, _, rfl, heap.toNat_pages, rfl, ?_⟩
    rw [heap.toNat_pages]
    exact Nat.lt_of_le_of_lt small (by decide)
  have compares {st : List Val} {ls gs : Array Val} : Sound d (⟨Support.alloc :: calls, rs,
      some .i32GtU, ⟨.run, .i32 (UInt32.ofNat mem.pages <<< 16) ::
        .i32 (UInt32.ofNat (address d.heapStart (c + 1))) :: st, ls, gs, mem, h⟩⟩ : Point H) :=
    heap.sound_alloc_of rfl trivial
      ⟨_, _, _, rfl, ending, heap.toNat_end.trans heap.laid.pages⟩
  rw [heap.top]
  simp [Support.allocFunc, Support.reserve, Support.heapTop, meets_cons, heap.sound_alloc, next,
    adds, shifts, compares, UInt32.lt_iff_toNat_lt, heap.toNat_end, ending]

/-- A call of the function hands out the next cell, or the memory is exhausted. -/
theorem meets_alloc (heap : HeapAt d c c rs gs mem)
    (done : ∀ mem', HeapAt d (c + 1) c
        (⟨Support.alloc, [.i32 (UInt32.ofNat (address d.heapStart c))]⟩ :: rs)
        #[.i32 (UInt32.ofNat (address d.heapStart (c + 1)))] mem' →
      Bytes.Keeps mem.bytes.size mem.bytes mem'.bytes →
      Q (⟨Support.alloc, [.i32 (UInt32.ofNat (address d.heapStart c))]⟩ :: rs)
        ⟨.run, .i32 (UInt32.ofNat (address d.heapStart c)) :: st, ls,
          #[.i32 (UInt32.ofNat (address d.heapStart (c + 1)))], mem', h⟩)
    (full : Program.maxPages * pageSize < address d.heapStart (c + 1) →
      ∀ s, s.host = h → T .unreachable rs s) :
    (traceCall (Program.build locs code d) host (depth + 1) Support.alloc calls rs
      ⟨ctl, .i32 12 :: st, ls, gs, mem, h⟩).Meets (Sound d) Q T := by
  refine (meets_traceCall [.i32 12] rfl (Nat.not_lt.2 (by decide : 3 ≤ 3)) rfl rfl).2 ?_
  refine (meets_bump heap).2 (meets_reserve heap rfl ?_ full)
  intro mem' laid inside kept
  have before := heap.replace laid (Nat.le_trans (address_le _ (Nat.le_succ c)) inside)
  exact ⟨before.sound_alloc_of rfl trivial trivial, done mem' (heap.alloc laid inside) kept⟩

end Twofold
