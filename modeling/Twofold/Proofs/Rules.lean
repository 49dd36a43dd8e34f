import Twofold.Proofs.Trace

/-!
# Rules for executions

`r.Meets P Q T` says that all points of the execution `r` have the property `P`, and that it ends
in a state with `Q`, or with a trap in a state with `T`. There is one rule for each way to compose
executions and one for each instruction, so that the execution of known code is followed by
rewriting from left to right.
-/

namespace Twofold.Wasm

variable {H : Type}

/-- All points have the property `P`, and the end has `Q` or, after a trap, `T`. -/
def Run.Meets (r : Run H) (P : Point H → Prop) (Q : List Return → Machine H → Prop)
    (T : Trap → List Return → Machine H → Prop) : Prop :=
  (∀ p ∈ r.points, P p) ∧
    match r.result with
    | .ok _ s => Q r.returns s
    | .error t s => T t r.returns s

theorem Run.Meets.imp {r : Run H} {P P' : Point H → Prop} {Q Q' : List Return → Machine H → Prop}
    {T T' : Trap → List Return → Machine H → Prop} (h : r.Meets P Q T) (hp : ∀ p, P p → P' p)
    (hq : ∀ rs s, Q rs s → Q' rs s) (ht : ∀ t rs s, T t rs s → T' t rs s) : r.Meets P' Q' T' := by
  refine ⟨fun p hm => hp p (h.1 p hm), ?_⟩
  have ends := h.2
  cases hr : r.result with
  | ok _ s =>
    rw [hr] at ends
    exact hq _ _ ends
  | error t s =>
    rw [hr] at ends
    exact ht _ _ _ ends

namespace Machine

variable {P : Point H → Prop} {Q : List Return → Machine H → Prop}
  {T : Trap → List Return → Machine H → Prop}
  {call : Nat → List Return → Machine H → Run H} {calls : List Nat} {rs : List Return}

/-! ## Composition -/

theorem meets_andThen {r : Run H} {k : List Return → Machine H → Run H} :
    (r.andThen k).Meets P Q T ↔ r.Meets P (fun rs s => (k rs s).Meets P Q T) T := by
  unfold Run.Meets Run.andThen
  cases h : r.result with
  | ok _ s =>
    simp only [List.forall_mem_append]
    exact and_assoc
  | error t s => simp only [h]

theorem meets_passing {r : Run H} {p : Point H} :
    (r.passing p).Meets P Q T ↔ P p ∧ r.Meets P Q T := by
  unfold Run.Meets Run.passing
  simp only [List.forall_mem_cons]
  exact and_assoc

/-- An execution that passes no points. -/
theorem meets_ok {r : Run H} {s : Machine H} (h : r = ⟨[], rs, .ok () s⟩) :
    r.Meets P Q T ↔ Q rs s := by
  subst h
  simp [Run.Meets]

/-- An execution that passes no points and stops. -/
theorem meets_error {r : Run H} {t : Trap} {s : Machine H} (h : r = ⟨[], rs, .error t s⟩) :
    r.Meets P Q T ↔ T t rs s := by
  subst h
  simp [Run.Meets]

@[simp] theorem meets_nil {s : Machine H} :
    (traceCode call calls [] rs s).Meets P Q T ↔ Q rs s := meets_ok rfl

theorem meets_cons {i : Instr} {is : List Instr} {s : Machine H} (h : s.control = .run) :
    (traceCode call calls (i :: is) rs s).Meets P Q T ↔
      P ⟨calls, rs, some i, s⟩ ∧
        (traceStep call i rs s).Meets P (fun rs s => (traceCode call calls is rs s).Meets P Q T)
          T := by
  rw [traceCode, h]
  simp only [meets_andThen, meets_passing]

theorem andThen_assoc (r : Run H) (k l : List Return → Machine H → Run H) :
    (r.andThen k).andThen l = r.andThen fun rs s => (k rs s).andThen l := by
  unfold Run.andThen
  cases h : r.result with
  | error t s => simp only [h]
  | ok _ s =>
    cases hk : (k r.returns s).result with
    | error t u => simp [hk]
    | ok _ u => simp [hk]

theorem traceCode_append (is js : List Instr) (rs : List Return) (s : Machine H) :
    traceCode call calls (is ++ js) rs s =
      (traceCode call calls is rs s).andThen (traceCode call calls js) := by
  induction is generalizing rs s with
  | nil => simp [traceCode, Run.andThen]
  | cons i is ih =>
    rw [List.cons_append, traceCode, traceCode]
    cases s.control with
    | run =>
      simp only [andThen_assoc]
      congr 1
      funext rs s
      exact ih rs s
    | skip depth toElse => exact ih _ _

theorem meets_append {is js : List Instr} {s : Machine H} :
    (traceCode call calls (is ++ js) rs s).Meets P Q T ↔
      (traceCode call calls is rs s).Meets P
        (fun rs s => (traceCode call calls js rs s).Meets P Q T) T := by
  rw [traceCode_append, meets_andThen]

/-! ## Instructions -/

section Instructions

variable {c : Control} {st : List Val} {ls gs : Array Val} {mem : Memory} {h : H}

@[simp] theorem meets_unreachable :
    (traceStep call .unreachable rs ⟨c, st, ls, gs, mem, h⟩).Meets P Q T ↔
      T .unreachable rs ⟨c, st, ls, gs, mem, h⟩ := meets_error rfl

@[simp] theorem meets_ifThen {r : Option ValType} {w : UInt32} :
    (traceStep call (.ifThen r) rs ⟨.run, .i32 w :: st, ls, gs, mem, h⟩).Meets P Q T ↔
      Q rs ⟨if w = 0 then .skip 0 true else .run, st, ls, gs, mem, h⟩ := by
  apply meets_ok
  by_cases hw : w = 0
  · subst hw
    rfl
  · simp [traceStep, perform, popI32, pop, bind, EStateM.bind, hw, pure, EStateM.pure]

@[simp] theorem meets_ifThen_truth {r : Option ValType} {b : Bool} :
    (traceStep call (.ifThen r) rs ⟨.run, truth b :: st, ls, gs, mem, h⟩).Meets P Q T ↔
      Q rs ⟨if b then .run else .skip 0 true, st, ls, gs, mem, h⟩ := by
  cases b <;> simp [truth]

@[simp] theorem meets_orElse :
    (traceStep call .orElse rs ⟨c, st, ls, gs, mem, h⟩).Meets P Q T ↔
      Q rs ⟨.skip 0 false, st, ls, gs, mem, h⟩ := meets_ok rfl

@[simp] theorem meets_close :
    (traceStep call .close rs ⟨c, st, ls, gs, mem, h⟩).Meets P Q T ↔
      Q rs ⟨c, st, ls, gs, mem, h⟩ := meets_ok rfl

@[simp] theorem meets_call {f : Nat} {s : Machine H} :
    (traceStep call (.call f) rs s).Meets P Q T ↔ (call f rs s).Meets P Q T := Iff.rfl

@[simp] theorem meets_localGet {i : Nat} :
    (traceStep call (.localGet i) rs ⟨c, st, ls, gs, mem, h⟩).Meets P Q T ↔
      match ls[i]? with
      | some v => Q rs ⟨c, v :: st, ls, gs, mem, h⟩
      | none => T .invalid rs ⟨c, st, ls, gs, mem, h⟩ := by
  cases hv : ls[i]? with
  | some v =>
    apply meets_ok
    simp [traceStep, perform, fetch, push, bind, EStateM.bind, hv, get, getThe, MonadStateOf.get,
      EStateM.get, pure, EStateM.pure, modify, modifyGet, MonadStateOf.modifyGet,
      EStateM.modifyGet]
  | none =>
    apply meets_error
    simp [traceStep, perform, fetch, bind, EStateM.bind, hv, get, getThe, MonadStateOf.get,
      EStateM.get, throw, throwThe, MonadExceptOf.throw, EStateM.throw]

@[simp] theorem meets_localSet {i : Nat} {v : Val} (hi : i < ls.size) :
    (traceStep call (.localSet i) rs ⟨c, v :: st, ls, gs, mem, h⟩).Meets P Q T ↔
      Q rs ⟨c, st, ls.setIfInBounds i v, gs, mem, h⟩ := by
  apply meets_ok
  simp [traceStep, perform, pop, setLocal, bind, EStateM.bind, hi]

@[simp] theorem meets_globalGet {i : Nat} :
    (traceStep call (.globalGet i) rs ⟨c, st, ls, gs, mem, h⟩).Meets P Q T ↔
      match gs[i]? with
      | some v => Q rs ⟨c, v :: st, ls, gs, mem, h⟩
      | none => T .invalid rs ⟨c, st, ls, gs, mem, h⟩ := by
  cases hv : gs[i]? with
  | some v =>
    apply meets_ok
    simp [traceStep, perform, fetch, push, bind, EStateM.bind, hv, get, getThe, MonadStateOf.get,
      EStateM.get, pure, EStateM.pure, modify, modifyGet, MonadStateOf.modifyGet,
      EStateM.modifyGet]
  | none =>
    apply meets_error
    simp [traceStep, perform, fetch, bind, EStateM.bind, hv, get, getThe, MonadStateOf.get,
      EStateM.get, throw, throwThe, MonadExceptOf.throw, EStateM.throw]

@[simp] theorem meets_globalSet {i : Nat} {v : Val} (hi : i < gs.size) :
    (traceStep call (.globalSet i) rs ⟨c, v :: st, ls, gs, mem, h⟩).Meets P Q T ↔
      Q rs ⟨c, st, ls, gs.setIfInBounds i v, mem, h⟩ := by
  apply meets_ok
  simp [traceStep, perform, pop, setGlobal, bind, EStateM.bind, hi]

theorem meets_i32Load {offset : Nat} {a : UInt32} (ha : a.toNat + offset + 4 ≤ mem.bytes.size) :
    (traceStep call (.i32Load offset) rs ⟨c, .i32 a :: st, ls, gs, mem, h⟩).Meets P Q T ↔
      Q rs ⟨c, .i32 (UInt32.ofNat (mem.load (a.toNat + offset) 4)) :: st, ls, gs, mem, h⟩ := by
  apply meets_ok
  simp [traceStep, perform, popI32, pop, load, push, Memory.holds, bind, EStateM.bind, ha, pure,
    EStateM.pure, modify, modifyGet, MonadStateOf.modifyGet, EStateM.modifyGet]

theorem meets_f64Load {offset : Nat} {a : UInt32} (ha : a.toNat + offset + 8 ≤ mem.bytes.size) :
    (traceStep call (.f64Load offset) rs ⟨c, .i32 a :: st, ls, gs, mem, h⟩).Meets P Q T ↔
      Q rs ⟨c, .f64 ⟨UInt64.ofNat (mem.load (a.toNat + offset) 8)⟩ :: st, ls, gs, mem, h⟩ := by
  apply meets_ok
  simp [traceStep, perform, popI32, pop, load, push, Memory.holds, bind, EStateM.bind, ha, pure,
    EStateM.pure, modify, modifyGet, MonadStateOf.modifyGet, EStateM.modifyGet]

theorem meets_i32Store {offset : Nat} {a w : UInt32}
    (ha : a.toNat + offset + 4 ≤ mem.bytes.size) :
    (traceStep call (.i32Store offset) rs ⟨c, .i32 w :: .i32 a :: st, ls, gs, mem, h⟩).Meets P Q T ↔
      Q rs ⟨c, st, ls, gs, mem.store (a.toNat + offset) 4 w.toNat, h⟩ := by
  apply meets_ok
  simp [traceStep, perform, popI32, pop, store, Memory.holds, bind, EStateM.bind, ha, pure,
    EStateM.pure]

theorem meets_f64Store {offset : Nat} {a : UInt32} {n : Number}
    (ha : a.toNat + offset + 8 ≤ mem.bytes.size) :
    (traceStep call (.f64Store offset) rs ⟨c, .f64 n :: .i32 a :: st, ls, gs, mem, h⟩).Meets P Q T ↔
      Q rs ⟨c, st, ls, gs, mem.store (a.toNat + offset) 8 n.bits.toNat, h⟩ := by
  apply meets_ok
  simp [traceStep, perform, popI32, popF64, pop, store, Memory.holds, bind, EStateM.bind, ha, pure,
    EStateM.pure]

@[simp] theorem meets_memorySize :
    (traceStep call .memorySize rs ⟨c, st, ls, gs, mem, h⟩).Meets P Q T ↔
      Q rs ⟨c, .i32 (UInt32.ofNat mem.pages) :: st, ls, gs, mem, h⟩ := meets_ok rfl

@[simp] theorem meets_memoryGrow {w : UInt32} :
    (traceStep call .memoryGrow rs ⟨c, .i32 w :: st, ls, gs, mem, h⟩).Meets P Q T ↔
      if mem.canGrow w.toNat then
        Q rs ⟨c, .i32 (UInt32.ofNat mem.pages) :: st, ls, gs, mem.grow w.toNat, h⟩
      else Q rs ⟨c, .i32 0xffffffff :: st, ls, gs, mem, h⟩ := by
  by_cases room : mem.canGrow w.toNat = true
  · rw [if_pos room]
    apply meets_ok
    simp [traceStep, perform, popI32, pop, grow, push, bind, EStateM.bind, room, pure,
      EStateM.pure, modify, modifyGet, MonadStateOf.modifyGet, EStateM.modifyGet]
  · rw [if_neg room]
    apply meets_ok
    simp [traceStep, perform, popI32, pop, grow, push, bind, EStateM.bind, room, pure,
      EStateM.pure, modify, modifyGet, MonadStateOf.modifyGet, EStateM.modifyGet]

@[simp] theorem meets_i32Const {w : UInt32} :
    (traceStep call (.i32Const w) rs ⟨c, st, ls, gs, mem, h⟩).Meets P Q T ↔
      Q rs ⟨c, .i32 w :: st, ls, gs, mem, h⟩ := meets_ok rfl

@[simp] theorem meets_f64Const {n : Number} :
    (traceStep call (.f64Const n) rs ⟨c, st, ls, gs, mem, h⟩).Meets P Q T ↔
      Q rs ⟨c, .f64 n :: st, ls, gs, mem, h⟩ := meets_ok rfl

@[simp] theorem meets_i32Eq {a b : UInt32} :
    (traceStep call .i32Eq rs ⟨c, .i32 b :: .i32 a :: st, ls, gs, mem, h⟩).Meets P Q T ↔
      Q rs ⟨c, truth (a == b) :: st, ls, gs, mem, h⟩ := meets_ok rfl

@[simp] theorem meets_i32Ne {a b : UInt32} :
    (traceStep call .i32Ne rs ⟨c, .i32 b :: .i32 a :: st, ls, gs, mem, h⟩).Meets P Q T ↔
      Q rs ⟨c, truth (a != b) :: st, ls, gs, mem, h⟩ := meets_ok rfl

@[simp] theorem meets_i32GtU {a b : UInt32} :
    (traceStep call .i32GtU rs ⟨c, .i32 b :: .i32 a :: st, ls, gs, mem, h⟩).Meets P Q T ↔
      Q rs ⟨c, truth (decide (b < a)) :: st, ls, gs, mem, h⟩ := meets_ok rfl

@[simp] theorem meets_i32Add {a b : UInt32} :
    (traceStep call .i32Add rs ⟨c, .i32 b :: .i32 a :: st, ls, gs, mem, h⟩).Meets P Q T ↔
      Q rs ⟨c, .i32 (a + b) :: st, ls, gs, mem, h⟩ := meets_ok rfl

@[simp] theorem meets_i32Shl {a b : UInt32} :
    (traceStep call .i32Shl rs ⟨c, .i32 b :: .i32 a :: st, ls, gs, mem, h⟩).Meets P Q T ↔
      Q rs ⟨c, .i32 (a <<< b) :: st, ls, gs, mem, h⟩ := meets_ok rfl

@[simp] theorem meets_f64Le {a b : Number} :
    (traceStep call .f64Le rs ⟨c, .f64 b :: .f64 a :: st, ls, gs, mem, h⟩).Meets P Q T ↔
      Q rs ⟨c, truth (a.le b) :: st, ls, gs, mem, h⟩ := meets_ok rfl

@[simp] theorem meets_f64Add {a b : Number} :
    (traceStep call .f64Add rs ⟨c, .f64 b :: .f64 a :: st, ls, gs, mem, h⟩).Meets P Q T ↔
      Q rs ⟨c, .f64 (a.add b) :: st, ls, gs, mem, h⟩ := meets_ok rfl

/-- A skipped instruction changes the control and nothing else. -/
@[simp] theorem traceCode_skip {depth : Nat} {toElse : Bool} {i : Instr} {is : List Instr} :
    traceCode call calls (i :: is) rs ⟨.skip depth toElse, st, ls, gs, mem, h⟩ =
      traceCode call calls is rs ⟨.pass depth toElse i, st, ls, gs, mem, h⟩ := rfl

end Instructions

/-! ## Calls -/

/-- A call of a function of the module executes its body on locals of its own. -/
theorem meets_traceCall {m : Module} {host : Host H} {depth f : Nat} {t : FuncType} {fn : Func}
    (top : List Val) {st : List Val} {c : Control} {ls gs : Array Val} {mem : Memory} {h : H}
    (ht : m.typeOf? f = some t) (hf : ¬ f < m.imports.length)
    (hfn : m.funcs[f - m.imports.length]? = some fn) (hn : top.length = t.params.length) :
    (traceCall m host (depth + 1) f calls rs ⟨c, top ++ st, ls, gs, mem, h⟩).Meets P Q T ↔
      (traceCode (traceCall m host depth · (f :: calls)) (f :: calls) fn.body rs
        ⟨.run, [], (top.reverse ++ fn.locals.map Val.zero).toArray, gs, mem, h⟩).Meets P
        (fun rs s => P ⟨f :: calls, rs, none, s⟩ ∧
          Q (⟨f, s.stack.take t.results.length⟩ :: rs)
            ⟨.run, s.stack.take t.results.length ++ st, ls, s.globals, s.memory, s.host⟩) T := by
  have popped : popArgs t.params.length (⟨c, top ++ st, ls, gs, mem, h⟩ : Machine H) =
      .ok top.reverse ⟨c, st, ls, gs, mem, h⟩ := by
    simp [popArgs, ← hn]
  simp only [traceCall, ht, popped, hf, if_false, hfn, meets_andThen]
  constructor
  · intro met
    exact met.imp (fun _ hp => hp) (fun rs s hq => ⟨hq.1 _ (by simp [traceReturn]), hq.2⟩)
      fun _ _ _ ht => ht
  · intro met
    exact met.imp (fun _ hp => hp) (fun rs s hq => ⟨by simpa [traceReturn] using hq.1, hq.2⟩)
      fun _ _ _ ht => ht

/-- A call of the host changes the state of the host and nothing else. -/
theorem meets_hostCall {m : Module} {host : Host H} {depth f : Nat} {t : FuncType}
    (top : List Val) {st : List Val} {c : Control} {ls gs : Array Val} {mem : Memory} {h : H}
    (ht : m.typeOf? f = some t) (hf : f < m.imports.length) (hn : top.length = t.params.length) :
    (traceCall m host (depth + 1) f calls rs ⟨c, top ++ st, ls, gs, mem, h⟩).Meets P Q T ↔
      Q rs ⟨c, st, ls, gs, mem, host f top.reverse mem h⟩ := by
  have popped : popArgs t.params.length (⟨c, top ++ st, ls, gs, mem, h⟩ : Machine H) =
      .ok top.reverse ⟨c, st, ls, gs, mem, h⟩ := by
    simp [popArgs, ← hn]
  apply meets_ok
  simp only [traceCall, ht, popped, hf, if_true]
  rfl

end Machine

end Twofold.Wasm
