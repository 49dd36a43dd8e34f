import Twofold.Proofs.Checks

/-!
# The primitives

Every primitive realizes the operation of evaluation that it stands for, on operands given by the
addresses of their cells.
-/

namespace Twofold

open Wasm Cell Machine Heap

variable {H : Type} {d : StaticData} {c : Nat} {rs : List Return} {gs : Array Val} {mem : Memory}
  {host : Host H} {locs : List ValType} {code : List Instr} {depth : Nat} {calls : List Nat}
  {ctl : Control} {st : List Val} {ls : Array Val} {h : H}
  {Q : List Return → Machine H → Prop} {T : Trap → List Return → Machine H → Prop}

theorem not_lt_imports {f : Nat} (hf : Support.makePair < f) :
    ¬ f < (Program.build locs code d).imports.length :=
  Nat.not_lt.2 (Nat.le_of_lt (Nat.lt_of_le_of_lt (by decide : 3 ≤ Support.makePair) hf))

/-- A check of an operand is passed over, or ends in a report. -/
theorem meets_requireTag {f param i position : Nat} {tag : UInt32} {p : Primitive}
    {other : Instr} {v : Value} (w : UInt32) (heap : HeapAt d c c rs gs mem)
    (hf : f ≠ Support.alloc) (hi : i < c) (stored : Stored mem.bytes d.heapStart i v)
    (hparam : ls[param]? = some (.i32 (UInt32.ofNat (address d.heapStart i)))) (quiet : other.Quiet)
    (skips : Control.pass 0 true other = .skip 0 true)
    (pushes : ∀ {Q : List Return → Machine H → Prop} {st : List Val},
      (traceStep (traceCall (Program.build locs code d) host (depth + 1) · (f :: calls)) other rs
        ⟨.run, st, ls, gs, mem, h⟩).Meets (Sound d) Q T ↔ Q rs ⟨.run, .i32 w :: st, ls, gs, mem, h⟩)
    (pass : tagOf v = tag → Q rs ⟨.run, [], ls, gs, mem, h⟩)
    (fail : tagOf v ≠ tag → ∀ rs s, s.host = host Support.HostCall.contractViolation.index
      [.i32 p.code, .i32 (UInt32.ofNat position), .i32 (UInt32.ofNat (address d.heapStart i)),
        .i32 w] mem h → T .unreachable rs s) :
    (traceCode (traceCall (Program.build locs code d) host (depth + 1) · (f :: calls)) (f :: calls)
      (Support.requireTag param tag p position other) rs ⟨.run, [], ls, gs, mem, h⟩).Meets
      (Sound d) Q T := by
  have found : word mem.bytes (address d.heapStart i) = tagOf v := stored.tag_eq
  by_cases same : tagOf v = tag
  · have ends := pass same
    simp only [Control.pass, decide_true, Bool.and_self, if_true, Nat.zero_add] at skips
    simpa [Support.requireTag, Support.word, meets_cons, heap.sound, hparam, Control.pass, skips,
      found, same, heap.meets_i32Load hi (by decide : 0 + 4 ≤ Cell.size)] using ends
  · have reported {Q : List Return → Machine H → Prop} :
        (traceCall (Program.build locs code d) host (depth + 1)
          Support.HostCall.contractViolation.index (f :: calls) rs ⟨.run,
            [.i32 w, .i32 (UInt32.ofNat (address d.heapStart i)), .i32 (UInt32.ofNat position),
              .i32 p.code], ls, gs, mem, h⟩).Meets (Sound d) Q T ↔ Q rs ⟨.run, [], ls, gs, mem,
            host Support.HostCall.contractViolation.index [.i32 p.code,
              .i32 (UInt32.ofNat position), .i32 (UInt32.ofNat (address d.heapStart i)), .i32 w]
              mem h⟩ :=
      meets_hostCall [_, _, _, _] rfl (by decide : 2 < 3) rfl
    have ends := fail same rs ⟨.run, [], ls, gs, mem, _⟩ rfl
    have outside : (f :: calls).head? ≠ some Support.alloc :=
      fun inner => hf (Option.some.inj inner)
    simp [Support.requireTag, Support.word, meets_cons, heap.sound, heap.sound_unreachable outside,
      quiet, pushes, reported, ends, hparam, found, same,
      heap.meets_i32Load hi (by decide : 0 + 4 ≤ Cell.size)]

/-- A value that a function leaves is left for its caller. -/
theorem Leaves.returned {f n next next' : Nat} {s₀ : Machine H} {v : Value} {s : Machine H}
    (hf : Support.makePair < f) (left : Leaves d c n next s₀ v rs s) (hs : s₀.stack = []) :
    Leaves d c n next' ⟨ctl, st, ls, gs, s₀.memory, s₀.host⟩ v (⟨f, s.stack.take 1⟩ :: rs)
      ⟨.run, s.stack.take 1 ++ st, ls, s.globals, s.memory, s.host⟩ := by
  obtain ⟨first, few, hi, heap, stored, kept, -, -⟩ := left
  rw [hs]
  exact .mk first few hi (heap.returned hf) stored kept rfl fun _ _ => rfl

/-- The end of a function whose last instruction before `close` was a call with an outcome. -/
theorem Wasm.Run.Realizes.meets_return {r : Run H} {f n next next' : Nat} {s₀ : Machine H}
    {o : Except EvalError Value} {call : Nat → List Return → Machine H → Run H}
    (realizes : r.Realizes d host c n next s₀ o) (hf : Support.makePair < f) (hs : s₀.stack = []) :
    r.Meets (Sound d) (fun rs s => (traceCode call (f :: calls) [.close] rs s).Meets (Sound d)
      (fun rs s => Sound d ⟨f :: calls, rs, none, s⟩ ∧ ∃ v, o = .ok v ∧
        Leaves d c n next' ⟨ctl, st, ls, gs, s₀.memory, s₀.host⟩ v (⟨f, s.stack.take 1⟩ :: rs)
          ⟨.run, s.stack.take 1 ++ st, ls, s.globals, s.memory, s.host⟩)
      (Halts d host (c + n) s₀.host o)) (Halts d host (c + n) s₀.host o) := by
  refine realizes.imp (fun _ hp => hp) ?_ fun _ _ _ ht => ht
  rintro rs s ⟨v, hv, left⟩
  have back : Leaves d c n next' ⟨ctl, st, ls, gs, s₀.memory, s₀.host⟩ v _ _ := left.returned hf hs
  obtain ⟨-, -, -, heap, -, -, -, -⟩ := left
  simpa [meets_cons, heap.sound, heap.sound_end, hv] using back

/-- The end of a function on two numbers: they are taken from their cells, and a cell is made of
what the operation gives. -/
theorem meets_operands {f i j make : Nat} {op : Instr} {m n : Number} {w : Val}
    {call : Nat → List Return → Machine H → Run H} (heap : HeapAt d c c rs gs mem) (hi : i < c)
    (hj : j < c) (hm : Stored mem.bytes d.heapStart i (.num m))
    (hn : Stored mem.bytes d.heapStart j (.num n)) (quiet : op.Quiet)
    (applies : ∀ {Q : List Return → Machine H → Prop} {ls : Array Val},
      (traceStep call op rs ⟨.run, [.f64 n, .f64 m], ls, gs, mem, h⟩).Meets (Sound d) Q T ↔
        Q rs ⟨.run, [w], ls, gs, mem, h⟩) :
    (traceCode call (f :: calls) [.localGet 0, .f64Load first, .localGet 1, .f64Load first, op,
      .call make, .close] rs ⟨.run, [], #[.i32 (UInt32.ofNat (address d.heapStart i)),
        .i32 (UInt32.ofNat (address d.heapStart j))], gs, mem, h⟩).Meets (Sound d) Q T ↔
      (call make rs ⟨.run, [w], #[.i32 (UInt32.ofNat (address d.heapStart i)),
        .i32 (UInt32.ofNat (address d.heapStart j))], gs, mem, h⟩).Meets (Sound d)
        (fun rs s => (traceCode call (f :: calls) [.close] rs s).Meets (Sound d) Q T) T := by
  have left : Heap.number mem.bytes (address d.heapStart i + first) = m := by
    cases hm
    assumption
  have right : Heap.number mem.bytes (address d.heapStart j + first) = n := by
    cases hn
    assumption
  have fits : first + 8 ≤ Cell.size := by decide
  simp [meets_cons, heap.sound, heap.meets_f64Load hi fits, heap.meets_f64Load hj fits, left, right,
    quiet, applies]

/-- The functions for `+` and `<=`: both operands are checked, the left one first. -/
theorem realizes_numeric {f next i j : Nat} {p : Primitive} {op : Instr} {make : Nat}
    {result : Number → Number → Value} {value : Number → Number → Val} {a b : Value}
    (heap : HeapAt d c c rs gs mem) (hi : i < c) (hj : j < c)
    (ha : Stored mem.bytes d.heapStart i a) (hb : Stored mem.bytes d.heapStart j b)
    (hp : p.isNumeric = true) (hf : Support.makePair < f)
    (ht : (Program.build locs code d).typeOf? f = some ⟨[.i32, .i32], [.i32]⟩)
    (hfn : (Program.build locs code d).funcs[f - 3]? = some (Support.numericFunc p op make))
    (quiet : op.Quiet)
    (applies : ∀ {call : Nat → List Return → Machine H → Run H}
        {Q : List Return → Machine H → Prop} {T : Trap → List Return → Machine H → Prop}
        {m n : Number} {ls : Array Val},
      (traceStep call op rs ⟨.run, [.f64 n, .f64 m], ls, gs, mem, h⟩).Meets (Sound d) Q T ↔
        Q rs ⟨.run, [value m n], ls, gs, mem, h⟩)
    (makes : ∀ m n ls, (traceCall (Program.build locs code d) host (depth + 2) make (f :: calls) rs
      ⟨.run, [value m n], ls, gs, mem, h⟩).Realizes d host c 1 0 ⟨.run, [], ls, gs, mem, h⟩
      (.ok (result m n))) :
    (traceCall (Program.build locs code d) host (depth + 3) f calls rs
      ⟨ctl, .i32 (UInt32.ofNat (address d.heapStart j)) ::
        .i32 (UInt32.ofNat (address d.heapStart i)) :: st, ls, gs, mem, h⟩).Realizes d host c 1 next
      ⟨ctl, st, ls, gs, mem, h⟩ (Value.numeric p.name result a b) := by
  have other := HeapAt.ne_alloc_of_lt hf
  refine (meets_traceCall [_, _] ht (not_lt_imports hf) hfn rfl).2 ?_
  simp only [Support.numericFunc, meets_append]
  refine meets_requireTag (UInt32.ofNat (address d.heapStart j)) heap other hi ha rfl (.localGet 1)
    rfl (by simp) ?_ ?_
  · intro left
    obtain ⟨m, rfl⟩ := tagOf_eq_number.1 left
    refine meets_requireTag (UInt32.ofNat (address d.heapStart i)) heap other hj hb rfl
      (.localGet 0) rfl (by simp) ?_ ?_
    · intro right
      obtain ⟨n, rfl⟩ := tagOf_eq_number.1 right
      exact (meets_operands heap hi hj ha hb quiet applies).2 ((makes m n _).meets_return hf rfl)
    · intro right rs' s reported
      have fails : Value.numeric p.name result (.num m) b =
          .error (.typeMismatch p.name 2 b (.num m)) := by
        cases b with
        | num n => exact absurd rfl right
        | bool b => rfl
        | pair b b' => rfl
      refine ⟨rfl, ?_⟩
      rw [reported]
      exact .reported fails (reports_typeMismatch heap hj hi hb ha hp (by decide))
  · intro left rs' s reported
    have fails : Value.numeric p.name result a b = .error (.typeMismatch p.name 1 a b) := by
      cases a with
      | num m => exact absurd rfl left
      | bool a => rfl
      | pair a a' => rfl
    refine ⟨rfl, ?_⟩
    rw [reported]
    exact .reported fails (reports_typeMismatch heap hi hj ha hb hp (by decide))

theorem realizes_add {next i j : Nat} {a b : Value} (heap : HeapAt d c c rs gs mem) (hi : i < c)
    (hj : j < c) (ha : Stored mem.bytes d.heapStart i a) (hb : Stored mem.bytes d.heapStart j b) :
    (traceCall (Program.build locs code d) host (depth + 3) Support.add calls rs
      ⟨ctl, .i32 (UInt32.ofNat (address d.heapStart j)) ::
        .i32 (UInt32.ofNat (address d.heapStart i)) :: st, ls, gs, mem, h⟩).Realizes d host c 1 next
      ⟨ctl, st, ls, gs, mem, h⟩ (Value.add a b) :=
  realizes_numeric heap hi hj ha hb rfl (by decide) rfl rfl .f64Add meets_f64Add
    fun _ _ _ => realizes_makeNumber heap

theorem realizes_le {next i j : Nat} {a b : Value} (heap : HeapAt d c c rs gs mem) (hi : i < c)
    (hj : j < c) (ha : Stored mem.bytes d.heapStart i a) (hb : Stored mem.bytes d.heapStart j b) :
    (traceCall (Program.build locs code d) host (depth + 3) Support.le calls rs
      ⟨ctl, .i32 (UInt32.ofNat (address d.heapStart j)) ::
        .i32 (UInt32.ofNat (address d.heapStart i)) :: st, ls, gs, mem, h⟩).Realizes d host c 1 next
      ⟨ctl, st, ls, gs, mem, h⟩ (Value.le a b) :=
  realizes_numeric heap hi hj ha hb rfl (by decide) rfl rfl .f64Le meets_f64Le
    fun _ _ _ => realizes_makeBool heap

/-- The functions for `head` and `tail`: the operand is checked, and one of its words is the
address of a component. -/
theorem realizes_projection {f next i offset : Nat} {p : Primitive} {v : Value}
    {outcome : Value → Except EvalError Value} {component : Value → Value → Value}
    (heap : HeapAt d c c rs gs mem) (hi : i < c) (hv : Stored mem.bytes d.heapStart i v)
    (hp : p.isNumeric = false) (hf : Support.makePair < f)
    (ht : (Program.build locs code d).typeOf? f = some ⟨[.i32], [.i32]⟩)
    (hfn : (Program.build locs code d).funcs[f - 3]? = some (Support.projectionFunc p offset))
    (ho : offset + 4 ≤ Cell.size) (succeeds : ∀ a b, outcome (.pair a b) = .ok (component a b))
    (fails : tagOf v ≠ Cell.pair → outcome v = .error (.notAPair p.name v))
    (points : ∀ a b, Stored mem.bytes d.heapStart i (.pair a b) → ∃ j < i,
      word mem.bytes (address d.heapStart i + offset) = UInt32.ofNat (address d.heapStart j) ∧
        Stored mem.bytes d.heapStart j (component a b)) :
    (traceCall (Program.build locs code d) host (depth + 2) f calls rs
      ⟨ctl, .i32 (UInt32.ofNat (address d.heapStart i)) :: st, ls, gs, mem, h⟩).Realizes d host c 0
      next ⟨ctl, st, ls, gs, mem, h⟩ (outcome v) := by
  have other := HeapAt.ne_alloc_of_lt hf
  refine (meets_traceCall [_] ht (not_lt_imports hf) hfn rfl).2 ?_
  simp only [Support.projectionFunc, meets_append]
  refine meets_requireTag 0 heap other hi hv rfl (.i32Const 0) rfl (by simp) ?_ ?_
  · intro tag
    obtain ⟨a, b, rfl⟩ := tagOf_eq_pair.1 tag
    obtain ⟨j, hj, found, stored⟩ := points a b hv
    have left : Leaves d c 0 next ⟨ctl, st, ls, gs, mem, h⟩ (component a b)
        (⟨f, [.i32 (UInt32.ofNat (address d.heapStart j))]⟩ :: rs)
        ⟨.run, .i32 (UInt32.ofNat (address d.heapStart j)) :: st, ls, gs, mem, h⟩ :=
      .mk (Nat.le_refl c) (Nat.le_refl c) (Nat.lt_trans hj hi) (heap.returned hf) stored
        (Bytes.Keeps.refl _ _) rfl fun _ _ => rfl
    simpa [meets_cons, heap.sound, heap.meets_i32Load hi ho, found, heap.sound_end, succeeds]
      using left
  · intro tag rs' s reported
    refine ⟨rfl, ?_⟩
    rw [reported]
    exact .reported (fails tag) (reports_notAPair heap hi hv hp)

theorem realizes_head {next i : Nat} {v : Value} (heap : HeapAt d c c rs gs mem) (hi : i < c)
    (hv : Stored mem.bytes d.heapStart i v) :
    (traceCall (Program.build locs code d) host (depth + 2) Support.head calls rs
      ⟨ctl, .i32 (UInt32.ofNat (address d.heapStart i)) :: st, ls, gs, mem, h⟩).Realizes d host c 0
      next ⟨ctl, st, ls, gs, mem, h⟩ v.head := by
  refine realizes_projection heap hi hv rfl (by decide) rfl rfl (by decide) (fun _ _ => rfl) ?_ ?_
  · intro tag
    cases v with
    | pair a b => exact absurd rfl tag
    | num n => rfl
    | bool b => rfl
  · rintro a b (⟨⟩ | ⟨⟩ | ⟨_, hj, _, left, _, ha, _⟩)
    exact ⟨_, hj, left, ha⟩

theorem realizes_tail {next i : Nat} {v : Value} (heap : HeapAt d c c rs gs mem) (hi : i < c)
    (hv : Stored mem.bytes d.heapStart i v) :
    (traceCall (Program.build locs code d) host (depth + 2) Support.tail calls rs
      ⟨ctl, .i32 (UInt32.ofNat (address d.heapStart i)) :: st, ls, gs, mem, h⟩).Realizes d host c 0
      next ⟨ctl, st, ls, gs, mem, h⟩ v.tail := by
  refine realizes_projection heap hi hv rfl (by decide) rfl rfl (by decide) (fun _ _ => rfl) ?_ ?_
  · intro tag
    cases v with
    | pair a b => exact absurd rfl tag
    | num n => rfl
    | bool b => rfl
  · rintro a b (⟨⟩ | ⟨⟩ | ⟨_, _, hk, _, right, _, hb⟩)
    exact ⟨_, hk, right, hb⟩

/-- A test has the truth value of its operand, or reports that it is not a boolean. -/
theorem meets_test {i : Nat} {v : Value} (heap : HeapAt d c c rs gs mem) (hi : i < c)
    (hv : Stored mem.bytes d.heapStart i v)
    (pass : ∀ b rs', v = .bool b → HeapAt d c c rs' gs mem →
      Q rs' ⟨.run, truth b :: st, ls, gs, mem, h⟩)
    (fail : tagOf v ≠ Cell.boolean → ∀ rs s, s.host = host Support.HostCall.trap.index
      [.i32 (UInt32.ofNat StaticData.testMessage.ptr),
        .i32 (UInt32.ofNat StaticData.testMessage.len)] mem h → T .unreachable rs s) :
    (traceCall (Program.build locs code d) host (depth + 2) Support.test calls rs
      ⟨ctl, .i32 (UInt32.ofNat (address d.heapStart i)) :: st, ls, gs, mem, h⟩).Meets (Sound d) Q
      T := by
  refine (meets_traceCall [_] rfl (Nat.not_lt.2 (by decide : 3 ≤ 11)) rfl rfl).2 ?_
  have found : word mem.bytes (address d.heapStart i) = tagOf v := hv.tag_eq
  have tagged : 0 + 4 ≤ Cell.size := by decide
  by_cases same : tagOf v = Cell.boolean
  · obtain ⟨b, rfl⟩ := tagOf_eq_boolean.1 same
    have content : word mem.bytes (address d.heapStart i + first) = if b then 1 else 0 := by
      cases hv
      assumption
    have ends := pass b (⟨Support.test, [truth b]⟩ :: rs) rfl (heap.returned (by decide))
    simpa [Support.testFunc, Support.word, meets_cons, heap.sound, heap.meets_i32Load hi tagged,
      found, same, Control.pass, heap.meets_i32Load hi (by decide : first + 4 ≤ Cell.size), content,
      heap.sound_end, truth] using ends
  · have reported {Q : List Return → Machine H → Prop} {ls : Array Val} :
        (traceCall (Program.build locs code d) host (depth + 1) Support.HostCall.trap.index
          (Support.test :: calls) rs ⟨.run, [.i32 (UInt32.ofNat StaticData.testMessage.len),
            .i32 (UInt32.ofNat StaticData.testMessage.ptr)], ls, gs, mem, h⟩).Meets (Sound d) Q T ↔
          Q rs ⟨.run, [], ls, gs, mem, host Support.HostCall.trap.index
            [.i32 (UInt32.ofNat StaticData.testMessage.ptr),
              .i32 (UInt32.ofNat StaticData.testMessage.len)] mem h⟩ :=
      meets_hostCall [_, _] rfl (by decide : 0 < 3) rfl
    have ends {ls : Array Val} := fail same rs ⟨.run, [], ls, gs, mem, _⟩ rfl
    have outside : (Support.test :: calls).head? ≠ some Support.alloc :=
      fun inner => absurd (Option.some.inj inner) (by decide)
    simp [Support.testFunc, Support.word, meets_cons, heap.sound, heap.meets_i32Load hi tagged,
      found, same, heap.sound_unreachable outside, reported, ends]

end Twofold
