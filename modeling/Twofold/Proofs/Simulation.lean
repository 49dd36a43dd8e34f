import Twofold.Proofs.Emission
import Twofold.Proofs.Environment
import Twofold.Proofs.Primitives

/-!
# Compiled code and evaluation

The code of an expression realizes the outcome of evaluating it, in an environment that the locals
of the names in scope represent. The induction is on the expression; the cells of bound values stay
as they are while the code runs, because all stores go behind the complete cells.
-/

namespace Twofold

open Wasm Cell Machine

/-- The most cells that the evaluation of an expression takes: one for every number, boolean, sum,
comparison and pair. -/
def Expr.cells : Expr → Nat
  | num _ | bool _ => 1
  | var _ => 0
  | add a b | le a b | pair a b => a.cells + b.cells + 1
  | letIn _ a b => a.cells + b.cells
  | ite a b c => a.cells + b.cells + c.cells
  | head a | tail a => a.cells

variable {H : Type} {d : StaticData} {c : Nat} {rs : List Return} {gs : Array Val} {mem : Memory}
  {host : Host H} {calls : List Nat} {st : List Val} {ls : Array Val} {h : H}
  {call : Nat → List Return → Machine H → Run H} {Q : List Return → Machine H → Prop}
  {T : Trap → List Return → Machine H → Prop}

/-! ## Environments in the locals -/

/-- The locals of the names in scope hold the addresses of what the environment says. -/
structure Represents (d : StaticData) (c next : Nat) (scope : List (Name × Nat)) (ls : Array Val)
    (mem : Memory) (ρ : Env) : Prop where
  bound : ∀ x i, scope.lookup x = some i → i < next ∧ ∃ v j, ρ x = some v ∧ j < c ∧
    ls[i]? = some (.i32 (UInt32.ofNat (address d.heapStart j))) ∧ Stored mem.bytes d.heapStart j v
  free : ∀ x, scope.lookup x = none → ρ x = none

namespace Represents

variable {next : Nat} {scope : List (Name × Nat)} {ρ : Env}

theorem empty : Represents d c next [] ls mem .empty where
  bound x i found := by cases found
  free _ _ := rfl

/-- An environment stays represented while its locals and cells stay. -/
theorem keeps (env : Represents d c next scope ls mem ρ) {c' next' : Nat} {ls' : Array Val}
    {mem' : Memory} (hc : c ≤ c') (hn : next ≤ next') (hl : ∀ j < next, ls'[j]? = ls[j]?)
    (hm : Bytes.Keeps (address d.heapStart c) mem.bytes mem'.bytes) :
    Represents d c' next' scope ls' mem' ρ where
  bound x i found := by
    obtain ⟨hi, v, j, hv, hj, slot, stored⟩ := env.bound x i found
    refine ⟨Nat.lt_of_lt_of_le hi hn, v, j, hv, Nat.lt_of_lt_of_le hj hc, ?_, ?_⟩
    · rw [hl i hi, slot]
    · exact stored.keeps (address_le _ hj) hm
  free := env.free

/-- A new name stands for the value whose address is in the next local. -/
theorem bind (env : Represents d c next scope ls mem ρ) {x : Name} {v : Value} {i j : Nat}
    (hi : next ≤ i) (hj : j < c)
    (slot : ls[i]? = some (.i32 (UInt32.ofNat (address d.heapStart j))))
    (stored : Stored mem.bytes d.heapStart j v) :
    Represents d c (i + 1) ((x, i) :: scope) ls mem (ρ.bind x v) where
  bound y k found := by
    by_cases same : y = x
    · subst same
      simp only [List.lookup_cons, beq_self_eq_true, Option.some.injEq] at found
      subst found
      exact ⟨Nat.lt_succ_self i, v, j, by simp [Env.bind], hj, slot, stored⟩
    · rw [List.lookup_cons, beq_eq_false_iff_ne.2 same] at found
      obtain ⟨hk, rest⟩ := env.bound y k found
      refine ⟨Nat.lt_succ_of_lt (Nat.lt_of_lt_of_le hk hi), ?_⟩
      simpa [Env.bind, same] using rest
  free y found := by
    by_cases same : y = x
    · subst same
      simp at found
    · rw [List.lookup_cons, beq_eq_false_iff_ne.2 same] at found
      simpa [Env.bind, same] using env.free y found

end Represents

theorem traceCode_skip_code {symbol : Name → Location} (e : Expr) (scope : List (Name × Nat))
    (next depth : Nat) (toElse : Bool) (is : List Instr) :
    traceCode call calls (e.code symbol scope next ++ is) rs
        ⟨.skip depth toElse, st, ls, gs, mem, h⟩ =
      traceCode call calls is rs ⟨.skip depth toElse, st, ls, gs, mem, h⟩ :=
  e.skip_code (fun c is => traceCode call calls is rs ⟨c, st, ls, gs, mem, h⟩)
    (fun _ _ _ _ => rfl) scope next depth toElse is

/-! ## One expression after another -/

/-- What was done from a later state was done from an earlier one, if only cells and locals that
the earlier state does not know of were used between them. -/
structure Reaches (d : StaticData) (c n next : Nat) (s₀ : Machine H) (c₁ : Nat) (s₁ : Machine H) :
    Prop where
  first : c ≤ c₁
  few : c₁ ≤ c + n
  kept : Bytes.Keeps (address d.heapStart c) s₀.memory.bytes s₁.memory.bytes
  size : s₁.locals.size = s₀.locals.size
  locals : ∀ j < next, s₁.locals[j]? = s₀.locals[j]?
  stack : s₁.stack = s₀.stack
  host : s₁.host = s₀.host

theorem Wasm.Run.Realizes.since {r : Run H} {c₁ n n₁ m next next₁ : Nat} {s₀ s₁ : Machine H}
    {o o₁ : Except EvalError Value} (realizes : r.Realizes d host c₁ n₁ next₁ s₁ o₁)
    (reached : Reaches d c m next s₀ c₁ s₁) (hn : m + n₁ ≤ n) (hnext : next ≤ next₁)
    (ho : o = o₁) : r.Realizes d host c n next s₀ o := by
  subst ho
  have budget : c₁ + n₁ ≤ c + n := by
    have := reached.few
    omega
  refine realizes.imp (fun _ hp => hp) ?_ ?_
  · rintro rs s ⟨v, hv, left⟩
    obtain ⟨first, few, hi, heap, stored, kept, size, locals⟩ := left
    refine ⟨v, hv, ?_⟩
    rw [reached.stack, reached.host]
    refine .mk (Nat.le_trans reached.first first) (Nat.le_trans few budget) hi heap stored ?_ ?_ ?_
    · exact reached.kept.trans (kept.mono (address_le _ reached.first))
    · rw [size, reached.size]
    · intro j hj
      rw [locals j (Nat.lt_of_lt_of_le hj hnext), reached.locals j hj]
  · intro t rs s halts
    rw [← reached.host]
    exact halts.mono budget fun _ he => he

namespace Expr

/-- The code of an expression realizes the outcome of evaluating it, wherever it stands. -/
def Simulated (e : Expr) (d : StaticData) (host : Host H)
    (call : Nat → List Return → Machine H → Run H) (calls : List Nat) : Prop :=
  ∀ ⦃c next : Nat⦄ ⦃scope : List (Name × Nat)⦄ ⦃ρ : Env⦄ ⦃rs : List Return⦄ ⦃st : List Val⦄
    ⦃ls gs : Array Val⦄ ⦃mem : Memory⦄ ⦃h : H⦄, HeapAt d c c rs gs mem →
    Represents d c next scope ls mem ρ → next + e.lets ≤ ls.size →
    (∀ x ∈ e.freeOccurrences (scope.map Prod.fst), x ∈ d.symbols) →
    (traceCode call calls (e.code d.location scope next) rs ⟨.run, st, ls, gs, mem, h⟩).Realizes d
      host c e.cells next ⟨.run, st, ls, gs, mem, h⟩ (e.evalIn ρ)

/-- One operand, then a function on its value. -/
theorem Simulated.unary {a e : Expr} {f n : Nat} {op : Value → Except EvalError Value}
    (ha : a.Simulated d host call calls)
    (hcode : ∀ scope next, e.code d.location scope next =
      a.code d.location scope next ++ [.call f])
    (hlets : e.lets = a.lets) (hcells : e.cells = a.cells + n)
    (hfree : ∀ bound, e.freeOccurrences bound = a.freeOccurrences bound)
    (heval : ∀ ρ, e.evalIn ρ = a.evalIn ρ >>= op)
    (applies : ∀ {c next i : Nat} {v : Value} {rs : List Return} {st : List Val} {ls gs : Array Val}
        {mem : Memory} {h : H}, HeapAt d c c rs gs mem → i < c → Stored mem.bytes d.heapStart i v →
      (call f rs ⟨.run, .i32 (UInt32.ofNat (address d.heapStart i)) :: st, ls, gs, mem,
        h⟩).Realizes d host c n next ⟨.run, st, ls, gs, mem, h⟩ (op v)) :
    e.Simulated d host call calls := by
  intro c next scope ρ rs st ls gs mem h heap env room symbols
  rw [hlets] at room
  rw [hfree] at symbols
  rw [hcode, Run.Realizes, meets_append, heval, hcells]
  refine (ha heap env room symbols).imp (fun _ hp => hp) ?_ ?_
  · rintro rs' s ⟨v, hv, first, few, hi, heap', stored, kept, size, locals⟩
    rw [meets_cons rfl, meets_call, hv]
    refine ⟨heap'.sound (.call f), ?_⟩
    simp only [meets_nil]
    exact (applies heap' hi stored).since ⟨first, few, kept, size, locals, rfl, rfl⟩ (Nat.le_refl _)
      (Nat.le_refl next) rfl
  · intro t rs' s halts
    exact halts.mono (by omega) fun err he => by rw [he]; rfl

/-- Two operands from left to right, then a function on their values. -/
theorem Simulated.binary {a b e : Expr} {f : Nat} (ha : a.Simulated d host call calls)
    (hb : b.Simulated d host call calls) (op : Value → Value → Except EvalError Value)
    (hcode : ∀ scope next, e.code d.location scope next =
      a.code d.location scope next ++ b.code d.location scope (next + a.lets) ++ [.call f])
    (hlets : e.lets = a.lets + b.lets) (hcells : e.cells = a.cells + b.cells + 1)
    (hfree : ∀ bound, e.freeOccurrences bound = a.freeOccurrences bound ++ b.freeOccurrences bound)
    (heval : ∀ ρ, e.evalIn ρ = a.evalIn ρ >>= fun v => b.evalIn ρ >>= op v)
    (applies : ∀ {c next i j : Nat} {v w : Value} {rs : List Return} {st : List Val}
        {ls gs : Array Val} {mem : Memory} {h : H}, HeapAt d c c rs gs mem → i < c → j < c →
      Stored mem.bytes d.heapStart i v → Stored mem.bytes d.heapStart j w →
      (call f rs ⟨.run, .i32 (UInt32.ofNat (address d.heapStart j)) ::
        .i32 (UInt32.ofNat (address d.heapStart i)) :: st, ls, gs, mem, h⟩).Realizes d host c 1 next
        ⟨.run, st, ls, gs, mem, h⟩ (op v w)) :
    e.Simulated d host call calls := by
  intro c next scope ρ rs st ls gs mem h heap env room symbols
  rw [hlets] at room
  simp only [hfree, List.mem_append] at symbols
  rw [hcode, Run.Realizes, meets_append, meets_append, heval, hcells]
  refine (ha heap env (by omega) fun x hx => symbols x (Or.inl hx)).imp (fun _ hp => hp) ?_ ?_
  · rintro rs₁ _ ⟨v, hv, @⟨c₁, i, _, ls₁, gs₁, mem₁, first, few, hi, heap₁, stored, kept, size,
      locals⟩⟩
    have env₁ := env.keeps first (Nat.le_add_right next a.lets) locals kept
    have room₁ : next + a.lets + b.lets ≤ ls₁.size := by
      rw [size, Nat.add_assoc]
      exact room
    refine (hb heap₁ env₁ room₁ fun x hx => symbols x (Or.inr hx)).imp (fun _ hp => hp) ?_ ?_
    · rintro rs₂ _ ⟨w, hw, @⟨c₂, j, _, ls₂, gs₂, mem₂, first', few', hj, heap₂, stored', kept',
        size', locals'⟩⟩
      have stored₂ : Stored mem₂.bytes d.heapStart i v := stored.keeps (address_le _ hi) kept'
      have reached : Reaches d c (a.cells + b.cells) next ⟨.run, st, ls, gs, mem, h⟩ c₂
          ⟨.run, st, ls₂, gs₂, mem₂, h⟩ :=
        { first := Nat.le_trans first first'
          few := by omega
          kept := kept.trans (kept'.mono (address_le _ first))
          size := size'.trans size
          locals := fun j hj => (locals' j (by omega)).trans (locals j hj)
          stack := rfl
          host := rfl }
      rw [meets_cons rfl, meets_call, hv]
      refine ⟨heap₂.sound (.call f), ?_⟩
      simp only [meets_nil]
      refine (applies heap₂ (Nat.lt_of_lt_of_le hi first') hj stored₂ stored').since reached
        (Nat.le_refl _) (Nat.le_refl next) ?_
      exact congrArg (· >>= op v) hw
    · intro t rs₂ s₂ halts
      exact halts.mono (by omega) fun err he => by rw [hv]; exact congrArg (· >>= op v) he
  · intro t rs₁ s₁ halts
    exact halts.mono (by omega) fun err he => by rw [he]; rfl

/-- The value of the bound expression goes into a local of its own. -/
theorem Simulated.letIn {a b : Expr} {x : Name} (ha : a.Simulated d host call calls)
    (hb : b.Simulated d host call calls) : (Expr.letIn x a b).Simulated d host call calls := by
  intro c next scope ρ rs st ls gs mem h heap env room symbols
  rw [lets] at room
  simp only [freeOccurrences, List.mem_append] at symbols
  rw [code, List.append_assoc, Run.Realizes, meets_append]
  refine (ha heap env (by omega) fun y hy => symbols y (Or.inl hy)).imp (fun _ hp => hp) ?_ ?_
  · rintro rs₁ _ ⟨v, hv, @⟨c₁, i, _, ls₁, gs₁, mem₁, first, few, hi, heap₁, stored, kept, size,
      locals⟩⟩
    have slot : next + a.lets < ls₁.size := by
      rw [size]
      show next + a.lets < ls.size
      omega
    generalize hls : ls₁.setIfInBounds (next + a.lets)
      (.i32 (UInt32.ofNat (address d.heapStart i))) = ls₂
    have locals₂ : ∀ j < next, ls₂[j]? = ls[j]? := by
      intro j hj
      rw [← hls, Array.getElem?_setIfInBounds_ne (by omega)]
      exact locals j hj
    have set : ls₂[next + a.lets]? = some (.i32 (UInt32.ofNat (address d.heapStart i))) := by
      rw [← hls]
      exact Array.getElem?_setIfInBounds_self_of_lt slot
    have size₂ : ls₂.size = ls.size := by
      rw [← hls, Array.size_setIfInBounds]
      exact size
    have env₂ := (env.keeps first (Nat.le_refl next) locals₂ kept).bind (x := x)
      (Nat.le_add_right next a.lets) hi set stored
    rw [List.singleton_append, meets_cons rfl, meets_localSet slot, hls, evalIn, hv]
    refine ⟨heap₁.sound (.localSet _), ?_⟩
    exact (hb heap₁ env₂ (by rw [size₂]; omega) fun y hy => symbols y (Or.inr hy)).since
      ⟨first, few, kept, size₂, locals₂, rfl, rfl⟩ (Nat.le_refl _) (by omega) rfl
  · intro t rs₁ s₁ halts
    refine halts.mono (by rw [cells]; omega) fun err he => ?_
    rw [evalIn, he]
    rfl

/-- One of the branches is executed and the other one is skipped. -/
theorem Simulated.ite {a b e : Expr} (ha : a.Simulated d host call calls)
    (hb : b.Simulated d host call calls) (he : e.Simulated d host call calls)
    (tests : ∀ {c i : Nat} {v : Value} {rs : List Return} {st : List Val} {ls gs : Array Val}
        {mem : Memory} {h : H} {Q : List Return → Machine H → Prop}
        {T : Trap → List Return → Machine H → Prop}, HeapAt d c c rs gs mem → i < c →
      Stored mem.bytes d.heapStart i v →
      (∀ b rs', v = .bool b → HeapAt d c c rs' gs mem →
        Q rs' ⟨.run, truth b :: st, ls, gs, mem, h⟩) →
      (tagOf v ≠ Cell.boolean → ∀ rs s, s.host = host Support.HostCall.trap.index
        [.i32 (UInt32.ofNat StaticData.testMessage.ptr),
          .i32 (UInt32.ofNat StaticData.testMessage.len)] mem h → T .unreachable rs s) →
      (call Support.test rs ⟨.run, .i32 (UInt32.ofNat (address d.heapStart i)) :: st, ls, gs, mem,
        h⟩).Meets (Sound d) Q T) :
    (Expr.ite a b e).Simulated d host call calls := by
  intro c next scope ρ rs st ls gs mem h heap env room symbols
  rw [lets] at room
  simp only [freeOccurrences, List.mem_append] at symbols
  rw [code, Run.Realizes, cells]
  simp only [List.append_assoc, List.cons_append, List.nil_append, meets_append]
  refine (ha heap env (by omega) fun y hy => symbols y (Or.inl (Or.inl hy))).imp (fun _ hp => hp)
    ?_ ?_
  · rintro rs₁ _ ⟨v, hv, @⟨c₁, i, _, ls₁, gs₁, mem₁, first, few, hi, heap₁, stored, kept, size,
      locals⟩⟩
    have size₁ : ls₁.size = ls.size := size
    have reached : Reaches d c a.cells next ⟨.run, st, ls, gs, mem, h⟩ c₁
        ⟨.run, st, ls₁, gs₁, mem₁, h⟩ := ⟨first, few, kept, size, locals, rfl, rfl⟩
    rw [meets_cons rfl, meets_call, evalIn, hv]
    refine ⟨heap₁.sound (.call _), tests heap₁ hi stored ?_ ?_⟩
    · intro t rs₂ ht heap₂
      subst ht
      rw [meets_cons rfl, meets_ifThen_truth]
      refine ⟨heap₂.sound (.ifThen _), ?_⟩
      cases t with
      | true =>
        have env₂ := env.keeps first (Nat.le_add_right next a.lets) locals kept
        rw [if_pos rfl, meets_append]
        refine ((hb heap₂ env₂ (by omega) fun y hy => symbols y (Or.inl (Or.inr hy))).since reached
          (n := a.cells + b.cells + e.cells) (by omega) (by omega) rfl).imp (fun _ hp => hp) ?_
          fun _ _ _ ht => ht
        rintro rs₃ _ ⟨w, hw, left⟩
        have left' := left
        obtain ⟨-, -, -, heap₃, -, -, -, -⟩ := left
        rw [meets_cons rfl, meets_orElse, traceCode_skip_code, traceCode_skip]
        exact ⟨heap₃.sound .orElse, meets_nil.2 ⟨w, hw, left'⟩⟩
      | false =>
        have skipped : next ≤ next + a.lets + b.lets := by omega
        have env₂ := env.keeps first skipped locals kept
        have entered : Control.pass 0 true .orElse = .run := rfl
        rw [if_neg Bool.false_ne_true, traceCode_skip_code, traceCode_skip, entered, meets_append]
        refine ((he heap₂ env₂ (by omega) fun y hy => symbols y (Or.inr hy)).since reached
          (n := a.cells + b.cells + e.cells) (by omega) skipped rfl).imp (fun _ hp => hp) ?_
          fun _ _ _ ht => ht
        rintro rs₃ _ ⟨w, hw, left⟩
        have left' := left
        obtain ⟨-, -, -, heap₃, -, -, -, -⟩ := left
        rw [meets_cons rfl, meets_close]
        exact ⟨heap₃.sound .close, meets_nil.2 ⟨w, hw, left'⟩⟩
    · intro tag rs₂ s₂ reported
      refine ⟨rfl, ?_⟩
      rw [reported]
      refine .reported ?_ (reports_nonBooleanTest heap₁)
      cases v with
      | bool t => exact absurd rfl tag
      | num n => rfl
      | pair v w => rfl
  · intro t rs₁ s₁ halts
    refine halts.mono (by omega) fun err failed => ?_
    rw [evalIn, failed]
    rfl

/-- A bound name is in its local; a free one is reported. -/
theorem Simulated.var {x : Name}
    (reports : ∀ {rs : List Return} {st : List Val} {ls gs : Array Val} {mem : Memory} {h : H}
        {v w : Val} {Q : List Return → Machine H → Prop}
        {T : Trap → List Return → Machine H → Prop},
      (call Support.HostCall.unbound.index rs ⟨.run, w :: v :: st, ls, gs, mem, h⟩).Meets (Sound d)
          Q T ↔
        Q rs ⟨.run, st, ls, gs, mem, host Support.HostCall.unbound.index [v, w] mem h⟩)
    (hcalls : calls.head? ≠ some Support.alloc) : (Expr.var x).Simulated d host call calls := by
  intro c next scope ρ rs st ls gs mem h heap env room symbols
  rw [Run.Realizes, code, evalIn]
  cases found : scope.lookup x with
  | some k =>
    obtain ⟨hk, v, j, hv, hj, slot, stored⟩ := env.bound x k found
    have left : Leaves d c 0 next ⟨.run, st, ls, gs, mem, h⟩ v rs
        ⟨.run, .i32 (UInt32.ofNat (address d.heapStart j)) :: st, ls, gs, mem, h⟩ :=
      .mk (Nat.le_refl c) (Nat.le_refl c) hj heap stored (Bytes.Keeps.refl _ _) rfl fun _ _ => rfl
    simpa [meets_cons, heap.sound, slot, hv, cells] using left
  | none =>
    have ends := reports_unbound heap (symbols x (mem_freeOccurrences_var found))
    have halts :
        Halts d host c h (.error (.unbound x)) .unreachable rs ⟨.run, st, ls, gs, mem, _⟩ :=
      ⟨rfl, .reported rfl ends⟩
    simp [meets_cons, heap.sound, Support.word, reports, env.free x found, cells, halts,
      heap.sound_unreachable hcalls]

/-- The code of every expression realizes the outcome of evaluating it. -/
theorem simulated {locs : List ValType} {main : List Instr} {depth f : Nat} (e : Expr)
    (hf : f ≠ Support.alloc) :
    e.Simulated d host (traceCall (Program.build locs main d) host (depth + 3) · (f :: calls))
      (f :: calls) := by
  have outside : (f :: calls).head? ≠ some Support.alloc := fun inner => hf (Option.some.inj inner)
  induction e with
  | num n =>
    intro c next scope ρ rs st ls gs mem h heap env room symbols
    rw [Run.Realizes, code, evalIn, cells, meets_cons rfl, meets_f64Const, meets_cons rfl,
      meets_call]
    simp only [meets_nil]
    exact ⟨heap.sound (.f64Const n), heap.sound (.call _), realizes_makeNumber heap⟩
  | bool b =>
    intro c next scope ρ rs st ls gs mem h heap env room symbols
    rw [Run.Realizes, code, evalIn, cells, meets_cons rfl, meets_i32Const, meets_cons rfl,
      meets_call]
    simp only [meets_nil]
    exact ⟨heap.sound (.i32Const _), heap.sound (.call _), realizes_makeBool heap⟩
  | var x =>
    refine Simulated.var ?_ outside
    intro rs st ls gs mem h v w Q T
    exact meets_hostCall [w, v] rfl (by decide : 1 < 3) rfl
  | add a b iha ihb =>
    exact iha.binary ihb Value.add (fun _ _ => rfl) rfl rfl (fun _ => rfl) (fun _ => rfl)
      realizes_add
  | le a b iha ihb =>
    exact iha.binary ihb Value.le (fun _ _ => rfl) rfl rfl (fun _ => rfl) (fun _ => rfl) realizes_le
  | letIn x a b iha ihb => exact iha.letIn ihb
  | ite a b e iha ihb ihe => exact iha.ite ihb ihe meets_test
  | pair a b iha ihb =>
    exact iha.binary ihb (fun v w => .ok (.pair v w)) (fun _ _ => rfl) rfl rfl (fun _ => rfl)
      (fun _ => rfl) realizes_makePair
  | head a iha =>
    exact iha.unary (n := 0) (fun _ _ => rfl) rfl rfl (fun _ => rfl) (fun _ => rfl) realizes_head
  | tail a iha =>
    exact iha.unary (n := 0) (fun _ _ => rfl) rfl rfl (fun _ => rfl) (fun _ => rfl) realizes_tail

end Expr

end Twofold
