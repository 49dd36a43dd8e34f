import Twofold.Proofs.HeapState

/-!
# What stays in memory

Stores and growth are all that changes a memory. If every store of an execution goes behind a bound
that only moves up as calls return, then the bytes below the bound at one point are the same at all
later points (`Steady`).
-/

namespace Twofold

open Wasm

variable {H : Type}

/-! ## Instructions -/

/-- The state in which a computation ended. -/
def finalState {ε σ α : Type} : EStateM.Result ε σ α → σ
  | .ok _ s => s
  | .error _ s => s

namespace Wasm.Exec

/-- A computation that leaves the memory alone. -/
def Tame {α : Type} (x : Exec H α) : Prop := ∀ s, (finalState (x s)).memory = s.memory

namespace Tame

theorem memory_bind {α β : Type} {x : Exec H α} {f : α → Exec H β} (hf : ∀ a, (f a).Tame)
    (s : Machine H) : (finalState ((x >>= f) s)).memory = (finalState (x s)).memory := by
  show (finalState (EStateM.bind x f s)).memory = _
  rw [EStateM.bind]
  cases x s with
  | ok a t => exact hf a t
  | error e t => rfl

theorem bind {α β : Type} {x : Exec H α} {f : α → Exec H β} (hx : x.Tame) (hf : ∀ a, (f a).Tame) :
    Tame (x >>= f) := fun s => (memory_bind hf s).trans (hx s)

theorem pop : Tame (Machine.pop : Exec H Val) := by
  rintro ⟨ctl, _ | ⟨v, st⟩, ls, gs, mem, h⟩ <;> rfl

theorem popI32 : Tame (Machine.popI32 : Exec H UInt32) :=
  bind pop fun v => by cases v <;> exact fun _ => rfl

theorem popF64 : Tame (Machine.popF64 : Exec H Number) :=
  bind pop fun v => by cases v <;> exact fun _ => rfl

theorem push (v : Val) : Tame (Machine.push v : Exec H Unit) := fun _ => rfl

theorem fetch (slots : Array Val) (i : Nat) : Tame (Machine.fetch slots i : Exec H Val) := by
  unfold Machine.fetch
  cases slots[i]? <;> exact fun _ => rfl

theorem setLocal (i : Nat) (v : Val) : Tame (Machine.setLocal i v : Exec H Unit) := by
  intro s
  unfold Machine.setLocal
  by_cases hi : i < s.locals.size <;> simp [hi, finalState]

theorem setGlobal (i : Nat) (v : Val) : Tame (Machine.setGlobal i v : Exec H Unit) := by
  intro s
  unfold Machine.setGlobal
  by_cases hi : i < s.globals.size <;> simp [hi, finalState]

theorem load (a : UInt32) (offset count : Nat) :
    Tame (Machine.load a offset count : Exec H Nat) := by
  intro s
  unfold Machine.load
  by_cases ha : s.memory.holds (a.toNat + offset) count <;> simp [ha, finalState]

/-- Only stores and growth concern the memory. -/
theorem perform {i : Instr} (hi : ∀ offset, i ≠ .i32Store offset)
    (hf : ∀ offset, i ≠ .f64Store offset)
    (hg : i ≠ .memoryGrow) :
    Tame (Machine.perform (fun _ => throw .invalid) i : Exec H Unit) := by
  cases i with
  | unreachable | orElse | close | call | i32Const | f64Const | memorySize => exact fun _ => rfl
  | ifThen r =>
    refine popI32.bind fun w => ?_
    by_cases hw : w = 0 <;> (simp only [hw]; exact fun _ => rfl)
  | localGet k | globalGet k => exact bind (fun _ => rfl) fun s => (fetch _ k).bind push
  | localSet k => exact pop.bind (setLocal k)
  | globalSet k => exact pop.bind (setGlobal k)
  | i32Load offset | f64Load offset =>
    exact popI32.bind fun a => (load a offset _).bind fun _ => push _
  | i32Eq | i32Ne | i32GtU | i32Add | i32Shl =>
    exact popI32.bind fun _ => popI32.bind fun _ => push _
  | f64Le | f64Add => exact popF64.bind fun _ => popF64.bind fun _ => push _
  | i32Store offset => exact absurd rfl (hi offset)
  | f64Store offset => exact absurd rfl (hf offset)
  | memoryGrow => exact absurd rfl hg

end Tame

end Wasm.Exec

/-- A store keeps what stands before it. -/
theorem keeps_store {a : UInt32} {offset n : Nat} (count value : Nat) (s : Machine H)
    (hn : n ≤ a.toNat + offset) :
    Bytes.Keeps n s.memory.bytes
      (finalState (Machine.store a offset count value s)).memory.bytes := by
  rw [Machine.store]
  by_cases ha : s.memory.holds (a.toNat + offset) count
  · rw [if_pos ha]
    exact s.memory.keeps_store hn
  · rw [if_neg ha]
    exact Bytes.Keeps.refl _ _

theorem keeps_grow {count : UInt32} {n : Nat} (s : Machine H) (hn : n ≤ s.memory.bytes.size) :
    Bytes.Keeps n s.memory.bytes (finalState (Machine.grow count s)).memory.bytes := by
  rw [Machine.grow]
  by_cases room : s.memory.canGrow count.toNat
  · rw [if_pos room]
    exact s.memory.keeps_grow n count.toNat hn
  · rw [if_neg room]
    exact Bytes.Keeps.refl _ _

/-- An instruction keeps the bytes below the place where it stores. -/
theorem keeps_perform {i : Instr} {calls : List Nat} {rs : List Return} {s : Machine H} {n : Nat}
    (stores : Point.StoresFrom n ⟨calls, rs, some i, s⟩) (hn : n ≤ s.memory.bytes.size) :
    Bytes.Keeps n s.memory.bytes
      (finalState (Machine.perform (fun _ => throw .invalid) i s)).memory.bytes := by
  have untouched (hi : ∀ offset, i ≠ .i32Store offset) (hf : ∀ offset, i ≠ .f64Store offset)
      (hg : i ≠ .memoryGrow) : Bytes.Keeps n s.memory.bytes
        (finalState (Machine.perform (fun _ => throw .invalid) i s)).memory.bytes := by
    rw [Exec.Tame.perform hi hf hg s]
    exact Bytes.Keeps.refl _ _
  cases i with
  | i32Store offset =>
    obtain ⟨ctl, _ | ⟨w | _ | _ | _, _ | ⟨a | _ | _ | _, st⟩⟩, ls, gs, mem, h⟩ := s
    case i32Store.cons.i32.cons.i32 =>
      exact keeps_store 4 w.toNat ⟨ctl, st, ls, gs, mem, h⟩ stores
    all_goals exact Bytes.Keeps.refl n mem.bytes
  | f64Store offset =>
    obtain ⟨ctl, _ | ⟨_ | _ | _ | x, _ | ⟨a | _ | _ | _, st⟩⟩, ls, gs, mem, h⟩ := s
    case f64Store.cons.f64.cons.i32 =>
      exact keeps_store 8 x.bits.toNat ⟨ctl, st, ls, gs, mem, h⟩ stores
    all_goals exact Bytes.Keeps.refl n mem.bytes
  | memoryGrow =>
    obtain ⟨ctl, _ | ⟨w | _ | _ | _, st⟩, ls, gs, mem, h⟩ := s
    case memoryGrow.cons.i32 =>
      show Bytes.Keeps n mem.bytes (finalState ((Machine.grow w >>= fun v => Machine.push (.i32 v))
        ⟨ctl, st, ls, gs, mem, h⟩)).memory.bytes
      rw [Exec.Tame.memory_bind fun v => Exec.Tame.push (.i32 v)]
      exact keeps_grow ⟨ctl, st, ls, gs, mem, h⟩ hn
    all_goals exact Bytes.Keeps.refl n mem.bytes
  | _ => exact untouched nofun nofun nofun

/-! ## Executions -/

/-- The calls that have returned by a moment, and the memory at that moment. -/
structure Moment where
  returns : List Return
  memory : Memory

/-- Where a point of an execution stands in time. -/
def Wasm.Point.moment (p : Point H) : Moment := ⟨p.returns, p.state.memory⟩

/-- The last moment of an execution. -/
def Wasm.Run.finish (r : Run H) : Moment := ⟨r.returns, (finalState r.result).memory⟩

/-- From one moment to another the bound has not moved down, and the bytes below it have stayed. -/
structure Moment.Before (bound : List Return → Nat) (x y : Moment) : Prop where
  bound_le : bound x.returns ≤ bound y.returns
  keeps : Bytes.Keeps (bound x.returns) x.memory.bytes y.memory.bytes

theorem Moment.Before.refl {bound : List Return → Nat} (x : Moment) : x.Before bound x :=
  ⟨Nat.le_refl _, Bytes.Keeps.refl _ _⟩

theorem Moment.Before.trans {bound : List Return → Nat} {x y z : Moment} (h : x.Before bound y)
    (h' : y.Before bound z) : x.Before bound z :=
  ⟨Nat.le_trans h.bound_le h'.bound_le, h.keeps.trans (h'.keeps.mono h.bound_le)⟩

/-- The points of an execution, from its start to its end, are one after another. -/
structure Wasm.Run.Steady (bound : List Return → Nat) (start : Moment) (r : Run H) : Prop where
  whole : start.Before bound r.finish
  after : ∀ p ∈ r.points, start.Before bound p.moment
  before : ∀ p ∈ r.points, p.moment.Before bound r.finish
  pairwise : r.points.Pairwise fun p q => p.moment.Before bound q.moment

namespace Wasm.Run.Steady

variable {bound : List Return → Nat} {start : Moment}

theorem quiet {rs : List Return} {result : EStateM.Result Trap (Machine H) Unit}
    (h : start.Before bound ⟨rs, (finalState result).memory⟩) :
    Steady bound start ⟨[], rs, result⟩ :=
  ⟨h, nofun, nofun, .nil⟩

theorem passing {p : Point H} {r : Run H} (hp : p.moment = start) (h : r.Steady bound start) :
    (r.passing p).Steady bound start where
  whole := h.whole
  after q hq := by
    rcases List.mem_cons.1 hq with rfl | later
    · exact hp ▸ .refl _
    · exact h.after q later
  before q hq := by
    rcases List.mem_cons.1 hq with rfl | later
    · exact hp ▸ h.whole
    · exact h.before q later
  pairwise := List.pairwise_cons.2 ⟨hp ▸ h.after, h.pairwise⟩

theorem andThen {r : Run H} {k : List Return → Machine H → Run H} (h : r.Steady bound start)
    (hk : ∀ s, r.result = .ok () s → (k r.returns s).Steady bound ⟨r.returns, s.memory⟩) :
    (r.andThen k).Steady bound start := by
  unfold Run.andThen
  cases hr : r.result with
  | error t s => exact h
  | ok _ s =>
    have middle : r.finish = ⟨r.returns, s.memory⟩ := by rw [Run.finish, hr]; rfl
    have next := hk s hr
    rw [← middle] at next
    refine ⟨h.whole.trans next.whole, ?_, ?_, ?_⟩
    · intro p hp
      rcases List.mem_append.1 hp with first | second
      · exact h.after p first
      · exact h.whole.trans (next.after p second)
    · intro p hp
      rcases List.mem_append.1 hp with first | second
      · exact (h.before p first).trans next.whole
      · exact next.before p second
    · refine List.pairwise_append.2 ⟨h.pairwise, next.pairwise, fun p hp q hq => ?_⟩
      exact (h.before p hp).trans (next.after q hq)

end Wasm.Run.Steady

/-- A store that comes next is behind the bound, and the bound lies in the memory. -/
structure Wasm.Point.Careful (bound : List Return → Nat) (p : Point H) : Prop where
  stores : p.StoresFrom (bound p.returns)
  inside : bound p.returns ≤ p.state.memory.bytes.size

theorem mem_points_andThen {r : Run H} {k : List Return → Machine H → Run H} {p : Point H} :
    p ∈ (r.andThen k).points ↔
      p ∈ r.points ∨ ∃ s, r.result = .ok () s ∧ p ∈ (k r.returns s).points := by
  unfold Run.andThen
  cases r.result with
  | ok _ s => simp
  | error t s => simp

section

variable {bound : List Return → Nat}

open Machine

theorem steady_traceStep {call : Nat → List Return → Machine H → Run H}
    (hcall : ∀ f rs s, (∀ p ∈ (call f rs s).points, p.Careful bound) →
      (call f rs s).Steady bound ⟨rs, s.memory⟩)
    {calls : List Nat} {i : Instr} {rs : List Return} {s : Machine H}
    (careful : Point.Careful bound ⟨calls, rs, some i, s⟩)
    (h : ∀ p ∈ (traceStep call i rs s).points, p.Careful bound) :
    (traceStep call i rs s).Steady bound ⟨rs, s.memory⟩ := by
  cases i with
  | call f => exact hcall f rs s h
  | _ => exact .quiet ⟨Nat.le_refl _, keeps_perform careful.stores careful.inside⟩

theorem steady_traceCode {call : Nat → List Return → Machine H → Run H}
    (hcall : ∀ f rs s, (∀ p ∈ (call f rs s).points, p.Careful bound) →
      (call f rs s).Steady bound ⟨rs, s.memory⟩)
    {calls : List Nat} {is : List Instr} {rs : List Return} {s : Machine H}
    (h : ∀ p ∈ (traceCode call calls is rs s).points, p.Careful bound) :
    (traceCode call calls is rs s).Steady bound ⟨rs, s.memory⟩ := by
  induction is generalizing rs s with
  | nil => exact .quiet (.refl _)
  | cons i is ih =>
    rw [traceCode] at h ⊢
    cases hc : s.control with
    | run =>
      simp only [hc] at h ⊢
      have here : Point.Careful bound ⟨calls, rs, some i, s⟩ :=
        h _ (mem_points_andThen.2 (Or.inl List.mem_cons_self))
      have step := steady_traceStep hcall here fun p hp =>
        h p (mem_points_andThen.2 (Or.inl (List.mem_cons_of_mem _ hp)))
      refine Run.Steady.andThen (Run.Steady.passing rfl step) fun t ht => ih fun p hp => ?_
      exact h p (mem_points_andThen.2 (Or.inr ⟨t, ht, hp⟩))
    | skip depth toElse =>
      simp only [hc] at h ⊢
      exact ih h

/-- The bytes below the bound stay as they are during a call. -/
theorem steady_traceCall (hmono : ∀ r rs, bound rs ≤ bound (r :: rs)) {m : Module} {host : Host H}
    {depth f : Nat} {calls : List Nat} {rs : List Return} {s : Machine H}
    (h : ∀ p ∈ (traceCall m host depth f calls rs s).points, p.Careful bound) :
    (traceCall m host depth f calls rs s).Steady bound ⟨rs, s.memory⟩ := by
  induction depth generalizing f calls rs s with
  | zero => exact .quiet (.refl _)
  | succ depth ih =>
    rw [traceCall] at h ⊢
    cases ht : m.typeOf? f with
    | none => exact .quiet (.refl _)
    | some t =>
      have popped : (finalState (popArgs t.params.length s)).memory = s.memory := by
        rw [popArgs]
        by_cases enough : (s.stack.take t.params.length).length = t.params.length
        · simp only [enough, if_true]
          rfl
        · simp only [enough, if_false]
          rfl
      simp only [ht] at h ⊢
      cases ha : popArgs t.params.length s with
      | error e u =>
        rw [ha] at popped
        exact .quiet ⟨Nat.le_refl _, by rw [← popped]; exact Bytes.Keeps.refl _ _⟩
      | ok args u =>
        rw [ha] at popped
        change u.memory = s.memory at popped
        simp only [ha] at h ⊢
        rw [← popped]
        by_cases himport : f < m.imports.length
        · simp only [himport, if_true]
          exact .quiet (.refl _)
        · simp only [himport, if_false] at h ⊢
          cases hfn : m.funcs[f - m.imports.length]? with
          | none => exact .quiet (.refl _)
          | some fn =>
            simp only [hfn] at h ⊢
            refine Run.Steady.andThen (steady_traceCode (fun g rs s hg => ih hg) fun p hp =>
              h p (mem_points_andThen.2 (Or.inl hp))) fun v hv => ?_
            refine Run.Steady.passing (r := ⟨[], _, _⟩) rfl (.quiet ⟨hmono _ _, ?_⟩)
            exact Bytes.Keeps.refl _ _

end

end Twofold
