import Twofold.Proofs.Outcomes

/-!
# Making cells

Each function that makes a cell takes the next one, fills it in with stores behind all complete
cells, and leaves its address. The cell represents the value it was made for.
-/

namespace Twofold

open Wasm Cell Machine Heap

variable {H : Type} {d : StaticData} {k c : Nat} {rs : List Return} {gs : Array Val} {mem : Memory}

namespace HeapAt

/-- A store behind the complete cells. -/
theorem store (heap : HeapAt d k c rs gs mem) {a count value : Nat}
    (ha : address d.heapStart c ≤ a) : HeapAt d k c rs gs (mem.store a count value) :=
  heap.replace (heap.laid.store ha) (by rw [Memory.size_store]; exact heap.inside)

/-! ## Stores into the last cell -/

theorem ne_alloc {f : Nat} (hf : f ∈ constructors) : f ≠ Support.alloc := by
  rintro rfl
  exact absurd hf (by decide)

theorem room (heap : HeapAt d (c + 1) c rs gs mem) :
    address d.heapStart c + first + 8 ≤ mem.bytes.size := by
  have inside := heap.inside
  rwa [address_succ] at inside

/-- While a constructor fills a cell in, it is the only one that is not complete. -/
theorem sound_filling (heap : HeapAt d (c + 1) c rs gs mem) {f : Nat} {calls : List Nat}
    {s : Machine H} {i : Option Instr} (hf : f ∈ constructors) (hm : s.memory = mem)
    (hg : s.globals = gs)
    (hs : Point.StoresFrom (address d.heapStart c) ⟨f :: calls, rs, i, s⟩) :
    Sound d ⟨f :: calls, rs, i, s⟩ := by
  refine ⟨c + 1, c, heap.soundAt rfl hm (fun out => ?_) (fun _ => hg) hs fun inner => ?_⟩
  · exact absurd List.mem_cons_self (out f hf)
  · rw [List.head?_cons, Option.some.injEq] at inner
    exact absurd inner (ne_alloc hf)

theorem sound_quiet (heap : HeapAt d (c + 1) c rs gs mem) {f : Nat} (hf : f ∈ constructors)
    {i : Instr} {calls : List Nat} {ctl : Control} {st : List Val} {ls : Array Val} {h : H}
    (hi : i.Quiet) :
    Sound d (⟨f :: calls, rs, some i, ⟨ctl, st, ls, gs, mem, h⟩⟩ : Point H) :=
  heap.sound_filling hf rfl rfl (hi.storesFrom rfl)

theorem sound_filled (heap : HeapAt d (c + 1) c rs gs mem) {f : Nat} (hf : f ∈ constructors)
    {calls : List Nat} {s : Machine H} (hm : s.memory = mem) (hg : s.globals = gs) :
    Sound d ⟨f :: calls, rs, none, s⟩ :=
  heap.sound_filling hf hm hg trivial

theorem le_pointer_add (heap : HeapAt d (c + 1) c rs gs mem) (offset : Nat) :
    address d.heapStart c ≤ (UInt32.ofNat (address d.heapStart c)).toNat + offset := by
  rw [heap.toNat_pointer (by omega)]
  exact Nat.le_add_right _ _

theorem sound_i32Store (heap : HeapAt d (c + 1) c rs gs mem) {f : Nat} (hf : f ∈ constructors)
    {calls : List Nat} {ctl : Control} {st : List Val} {ls : Array Val} {h : H} {w : UInt32}
    {offset : Nat} :
    Sound d (⟨f :: calls, rs, some (.i32Store offset), ⟨ctl,
      .i32 w :: .i32 (UInt32.ofNat (address d.heapStart c)) :: st, ls, gs, mem, h⟩⟩ : Point H) :=
  heap.sound_filling hf rfl rfl (heap.le_pointer_add offset)

theorem sound_f64Store (heap : HeapAt d (c + 1) c rs gs mem) {f : Nat} (hf : f ∈ constructors)
    {calls : List Nat} {ctl : Control} {st : List Val} {ls : Array Val} {h : H} {n : Number}
    {offset : Nat} :
    Sound d (⟨f :: calls, rs, some (.f64Store offset), ⟨ctl,
      .f64 n :: .i32 (UInt32.ofNat (address d.heapStart c)) :: st, ls, gs, mem, h⟩⟩ : Point H) :=
  heap.sound_filling hf rfl rfl (heap.le_pointer_add offset)

variable {P : Point H → Prop} {Q : List Return → Machine H → Prop}
  {T : Trap → List Return → Machine H → Prop} {call : Nat → List Return → Machine H → Run H}
  {ctl : Control} {st : List Val} {ls : Array Val} {h : H}

theorem meets_i32Store (heap : HeapAt d (c + 1) c rs gs mem) {offset : Nat} {w : UInt32}
    (ho : offset + 4 ≤ Cell.size) :
    (traceStep call (.i32Store offset) rs ⟨ctl,
      .i32 w :: .i32 (UInt32.ofNat (address d.heapStart c)) :: st, ls, gs, mem, h⟩).Meets P Q T ↔
      Q rs ⟨ctl, st, ls, gs, mem.store (address d.heapStart c + offset) 4 w.toNat, h⟩ := by
  have place := heap.toNat_pointer (i := c) (by omega)
  have inside := heap.inside
  rw [address_succ] at inside
  rw [Machine.meets_i32Store (by omega), place]

theorem meets_f64Store (heap : HeapAt d (c + 1) c rs gs mem) {offset : Nat} {n : Number}
    (ho : offset + 8 ≤ Cell.size) :
    (traceStep call (.f64Store offset) rs ⟨ctl,
      .f64 n :: .i32 (UInt32.ofNat (address d.heapStart c)) :: st, ls, gs, mem, h⟩).Meets P Q T ↔
      Q rs ⟨ctl, st, ls, gs, mem.store (address d.heapStart c + offset) 8 n.bits.toNat, h⟩ := by
  have place := heap.toNat_pointer (i := c) (by omega)
  have inside := heap.inside
  rw [address_succ] at inside
  rw [Machine.meets_f64Store (by omega), place]

/-- The cell that was taken last is complete. -/
theorem make (heap : HeapAt d (c + 1) c rs gs mem) {f : Nat} {v : Value}
    (hf : f ∈ constructors) (stored : Stored mem.bytes d.heapStart c v) :
    HeapAt d (c + 1) (c + 1) (⟨f, [.i32 (UInt32.ofNat (address d.heapStart c))]⟩ :: rs) gs mem where
  count := (allocations_cons_of_ne rs (ne_alloc hf)).1.trans heap.count
  handedOut_eq := (allocations_cons_of_ne rs (ne_alloc hf)).2.trans heap.handedOut_eq
  made_eq := by
    rw [made, resultsOf_cons_of_mem rs hf]
    exact congrArg _ heap.made_eq
  made_le := Nat.le_refl _
  inside := heap.inside
  laid := { heap.laid with
    cells := by
      intro i hi
      rcases Nat.lt_succ_iff_lt_or_eq.1 hi with before | rfl
      · exact heap.laid.cells i before
      · exact ⟨v, stored⟩ }
  top := heap.top

end HeapAt

variable {host : Host H} {locs : List ValType} {code : List Instr} {depth : Nat}
  {calls : List Nat} {ctl : Control} {st : List Val} {ls : Array Val} {h : H}
  {Q : List Return → Machine H → Prop} {T : Trap → List Return → Machine H → Prop}

/-- A new cell has its tag, and stands behind all others. -/
theorem meets_newCell {f cell : Nat} {tag : UInt32} (heap : HeapAt d c c rs gs mem)
    (hf : f ∈ constructors) (hc : cell < ls.size)
    (done : ∀ rs' gs' mem', HeapAt d (c + 1) c rs' gs' mem' →
      Bytes.Keeps (address d.heapStart c) mem.bytes mem'.bytes →
      word mem'.bytes (address d.heapStart c) = tag →
      Q rs' ⟨.run, [], ls.setIfInBounds cell (.i32 (UInt32.ofNat (address d.heapStart c))), gs',
        mem', h⟩)
    (full : Program.maxPages * pageSize < address d.heapStart (c + 1) →
      ∀ rs s, s.host = h → T .unreachable rs s) :
    (traceCode (traceCall (Program.build locs code d) host (depth + 1) · (f :: calls)) (f :: calls)
      (Support.newCell cell tag) rs ⟨.run, [], ls, gs, mem, h⟩).Meets (Sound d) Q T := by
  have taken : (traceCall (Program.build locs code d) host (depth + 1) Support.alloc (f :: calls) rs
      ⟨.run, [.i32 12], ls, gs, mem, h⟩).Meets (Sound d) (fun rs s => (traceCode
        (traceCall (Program.build locs code d) host (depth + 1) · (f :: calls)) (f :: calls)
        [.localSet cell, .localGet cell, .i32Const tag, .i32Store 0] rs s).Meets (Sound d) Q T)
      T := by
    refine meets_alloc heap ?_ (fun exhausted => full exhausted _)
    intro mem' heap' kept
    have room : address d.heapStart c + 4 ≤ mem'.bytes.size := by
      have inside := heap'.inside
      rw [address_succ] at inside
      simp only [Cell.size] at inside
      omega
    have behind := Nat.le_refl (address d.heapStart c)
    have ends := done _ _ _ (heap'.store behind) ((kept.mono heap.inside).trans
      (mem'.keeps_store behind)) (mem'.word_store_self tag room)
    simpa [meets_cons, heap'.sound_quiet hf, hc, heap'.sound_i32Store hf,
      heap'.meets_i32Store (by decide : 0 + 4 ≤ Cell.size)] using ends
  simpa [Support.newCell, Support.word, Cell.size, meets_cons, heap.sound] using taken

/-- What is known when a cell has been filled in and its address is returned. -/
theorem leaves_made {f : Nat} {v : Value} (s₀ : Machine H) (next : Nat)
    (heap : HeapAt d (c + 1) c rs gs mem) (stored : Stored mem.bytes d.heapStart c v)
    (kept : Bytes.Keeps (address d.heapStart c) s₀.memory.bytes mem.bytes)
    (hf : f ∈ constructors) :
    Leaves d c 1 next s₀ v (⟨f, [.i32 (UInt32.ofNat (address d.heapStart c))]⟩ :: rs)
      ⟨.run, .i32 (UInt32.ofNat (address d.heapStart c)) :: s₀.stack, s₀.locals, gs, mem,
        s₀.host⟩ :=
  .mk (Nat.le_succ c) (Nat.le_refl _) (Nat.lt_succ_self c) (heap.make hf stored) stored kept rfl
    fun _ _ => rfl

theorem stopped_of_exhausted {o : Except EvalError Value} {s : Machine H}
    (full : Program.maxPages * pageSize < address d.heapStart (c + 1)) (hs : s.host = h) :
    Stopped d host (c + 1) h o s.host := by
  rw [hs]
  exact .exhausted full

theorem realizes_makeNumber {next : Nat} {n : Number} (heap : HeapAt d c c rs gs mem) :
    (traceCall (Program.build locs code d) host (depth + 2) Support.makeNumber calls rs
      ⟨ctl, .f64 n :: st, ls, gs, mem, h⟩).Realizes d host c 1 next ⟨ctl, st, ls, gs, mem, h⟩
      (.ok (.num n)) := by
  refine (meets_traceCall [.f64 n] rfl (Nat.not_lt.2 (by decide : 3 ≤ 4)) rfl rfl).2 ?_
  simp only [Support.makeNumberFunc, meets_append]
  have maker : Support.makeNumber ∈ constructors := by decide
  refine meets_newCell heap maker (by decide : 1 < 2) ?_ fun full _ s hs =>
    ⟨rfl, stopped_of_exhausted full hs⟩
  intro rs' gs' mem' heap' kept tag
  have behind : address d.heapStart c ≤ address d.heapStart c + first := Nat.le_add_right _ _
  have filled : HeapAt d (c + 1) c rs' gs'
      (mem'.store (address d.heapStart c + first) 8 n.bits.toNat) := heap'.store behind
  have stored : Stored (mem'.store (address d.heapStart c + first) 8 n.bits.toNat).bytes
      d.heapStart c (.num n) := by
    refine .num ?_ (mem'.number_store_self n heap'.room)
    rw [mem'.word_store_of_le, tag]
    exact Nat.le_refl _
  have made := leaves_made ⟨ctl, st, ls, gs, mem, h⟩ next filled stored
    (kept.trans (mem'.keeps_store behind)) maker
  simpa [meets_cons, Val.zero, heap'.sound_quiet maker, heap'.sound_f64Store maker,
    heap'.meets_f64Store (by decide : first + 8 ≤ Cell.size), filled.sound_quiet maker,
    filled.sound_filled maker] using made

theorem realizes_makeBool {next : Nat} {b : Bool} (heap : HeapAt d c c rs gs mem) :
    (traceCall (Program.build locs code d) host (depth + 2) Support.makeBool calls rs
      ⟨ctl, truth b :: st, ls, gs, mem, h⟩).Realizes d host c 1 next ⟨ctl, st, ls, gs, mem, h⟩
      (.ok (.bool b)) := by
  refine (meets_traceCall [truth b] rfl (Nat.not_lt.2 (by decide : 3 ≤ 5)) rfl rfl).2 ?_
  simp only [Support.makeBoolFunc, meets_append]
  have maker : Support.makeBool ∈ constructors := by decide
  refine meets_newCell heap maker (by decide : 1 < 2) ?_ fun full _ s hs =>
    ⟨rfl, stopped_of_exhausted full hs⟩
  intro rs' gs' mem' heap' kept tag
  generalize hw : (if b then 1 else 0 : UInt32) = w
  have behind : address d.heapStart c ≤ address d.heapStart c + first := Nat.le_add_right _ _
  have filled : HeapAt d (c + 1) c rs' gs'
      (mem'.store (address d.heapStart c + first) 4 w.toNat) := heap'.store behind
  have stored : Stored (mem'.store (address d.heapStart c + first) 4 w.toNat).bytes
      d.heapStart c (.bool b) := by
    have room := heap'.room
    refine .bool ?_ ((mem'.word_store_self w (by omega)).trans hw.symm)
    rw [mem'.word_store_of_le, tag]
    exact Nat.le_refl _
  have made := leaves_made ⟨ctl, st, ls, gs, mem, h⟩ next filled stored
    (kept.trans (mem'.keeps_store behind)) maker
  simpa [meets_cons, Val.zero, Support.setWord, truth, hw, heap'.sound_quiet maker,
    heap'.sound_i32Store maker, heap'.meets_i32Store (by decide : first + 4 ≤ Cell.size),
    filled.sound_quiet maker, filled.sound_filled maker] using made

theorem realizes_makePair {next i j : Nat} {a b : Value} (heap : HeapAt d c c rs gs mem)
    (hi : i < c) (hj : j < c) (ha : Stored mem.bytes d.heapStart i a)
    (hb : Stored mem.bytes d.heapStart j b) :
    (traceCall (Program.build locs code d) host (depth + 2) Support.makePair calls rs
      ⟨ctl, .i32 (UInt32.ofNat (address d.heapStart j)) ::
        .i32 (UInt32.ofNat (address d.heapStart i)) :: st, ls, gs, mem, h⟩).Realizes d host c 1 next
      ⟨ctl, st, ls, gs, mem, h⟩ (.ok (.pair a b)) := by
  generalize hv : UInt32.ofNat (address d.heapStart i) = v
  generalize hw : UInt32.ofNat (address d.heapStart j) = w
  refine (meets_traceCall [.i32 w, .i32 v] rfl (Nat.not_lt.2 (by decide : 3 ≤ 6)) rfl rfl).2 ?_
  simp only [Support.makePairFunc, meets_append]
  have maker : Support.makePair ∈ constructors := by decide
  refine meets_newCell heap maker (by decide : 2 < 3) ?_ fun full _ s hs =>
    ⟨rfl, stopped_of_exhausted full hs⟩
  intro rs' gs' mem' heap' kept tag
  have behind : address d.heapStart c ≤ address d.heapStart c + first := Nat.le_add_right _ _
  have behind' : address d.heapStart c ≤ address d.heapStart c + second := Nat.le_add_right _ _
  have half : HeapAt d (c + 1) c rs' gs'
      (mem'.store (address d.heapStart c + first) 4 v.toNat) := heap'.store behind
  have filled : HeapAt d (c + 1) c rs' gs'
      ((mem'.store (address d.heapStart c + first) 4 v.toNat).store
        (address d.heapStart c + second) 4 w.toNat) := half.store behind'
  have kept' : Bytes.Keeps (address d.heapStart c) mem.bytes
      ((mem'.store (address d.heapStart c + first) 4 v.toNat).store
        (address d.heapStart c + second) 4 w.toNat).bytes :=
    (kept.trans (mem'.keeps_store behind)).trans (Memory.keeps_store _ behind')
  have stored : Stored ((mem'.store (address d.heapStart c + first) 4 v.toNat).store
      (address d.heapStart c + second) 4 w.toNat).bytes d.heapStart c (.pair a b) := by
    have room := heap'.room
    simp only [first] at room
    refine .pair ?_ hi hj ?_ ?_ (ha.keeps (address_le _ hi) kept')
      (hb.keeps (address_le _ hj) kept')
    · rw [Memory.word_store_of_le, Memory.word_store_of_le, tag]
      · exact Nat.le_refl _
      · simp only [second]
        omega
    · rw [Memory.word_store_of_le, mem'.word_store_self, hv]
      · simp only [first]
        omega
      · exact Nat.le_refl _
    · rw [Memory.word_store_self, hw]
      rw [Memory.size_store]
      simp only [second]
      omega
  have made := leaves_made ⟨ctl, st, ls, gs, mem, h⟩ next filled stored kept' maker
  simpa [meets_cons, Val.zero, Support.setWord, heap'.sound_quiet maker, heap'.sound_i32Store maker,
    heap'.meets_i32Store (by decide : first + 4 ≤ Cell.size), half.sound_quiet maker,
    half.sound_i32Store maker, half.meets_i32Store (by decide : second + 4 ≤ Cell.size),
    filled.sound_quiet maker, filled.sound_filled maker] using made

end Twofold
