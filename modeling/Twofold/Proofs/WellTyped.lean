import Twofold.Proofs.Emission

/-!
# Compiled code is well typed

The code of an expression takes no operand and leaves one word, whatever operands there are before
it; where it reports a free name, the rest of its block is not reached, and then the operands are
whatever is needed. With that every body of a compiled expression has its type.
-/

namespace Twofold

open Wasm Typing

namespace Wasm.Typing

/-! ## Blocks -/

/-- One word is left on top of the operands of a block, unless the end of the code is not
reached. -/
inductive Block.Yields (b : Block) : Block → Prop
  | word : Yields b (b.push [.i32])
  | dead : Yields b b.kill
  | deadWord : Yields b (b.kill.push [.i32])

namespace Block

@[simp] theorem pop_push (b : Block) (t : ValType) : (b.push [t]).pop t = some b := by
  simp [pop, push]

@[simp] theorem pop_kill (b : Block) (t : ValType) : b.kill.pop t = some b.kill := by
  simp [pop, kill]

@[simp] theorem kill_push (b : Block) (ts : List ValType) : (b.push ts).kill = b.kill := rfl

@[simp] theorem popAll_nil (b : Block) : b.popAll [] = some b := rfl

theorem popAll_singleton (b : Block) (t : ValType) : b.popAll [t] = b.pop t := by
  simp [popAll]

theorem popAll_pair (b : Block) (t u : ValType) : b.popAll [t, u] = (b.pop u).bind (·.pop t) := by
  simp [popAll]

namespace Yields

variable {b b₁ b₂ : Block}

/-- The word can be taken away again. -/
theorem pop_eq (h : b.Yields b₁) : ∃ b', b₁.pop .i32 = some b' ∧ (b' = b ∨ b' = b.kill) := by
  cases h with
  | word => exact ⟨b, pop_push b .i32, Or.inl rfl⟩
  | dead => exact ⟨b.kill, pop_kill b .i32, Or.inr rfl⟩
  | deadWord => exact ⟨b.kill, pop_push b.kill .i32, Or.inr rfl⟩

theorem kill_eq (h : b.Yields b₁) : b₁.kill = b.kill := by
  cases h <;> rfl

theorem of_kill (h : b.kill.Yields b₁) : b.Yields b₁ := by
  cases h with
  | word => exact .deadWord
  | dead => exact .dead
  | deadWord => exact .deadWord

/-- A word instead of another one. -/
theorem unary (h : b.Yields b₁) : ∃ b', b₁.apply [.i32] [.i32] = some b' ∧ b.Yields b' := by
  obtain ⟨b', popped, rfl | rfl⟩ := h.pop_eq
  · exact ⟨_, by rw [apply, popAll_singleton, popped]; rfl, .word⟩
  · exact ⟨_, by rw [apply, popAll_singleton, popped]; rfl, .deadWord⟩

/-- A word instead of two of them. -/
theorem binary (h : b.Yields b₁) (h' : b₁.Yields b₂) :
    ∃ b', b₂.apply [.i32, .i32] [.i32] = some b' ∧ b.Yields b' := by
  obtain ⟨b₃, popped, rfl | rfl⟩ := h'.pop_eq
  · obtain ⟨b₄, popped', rfl | rfl⟩ := h.pop_eq
    · exact ⟨_, by rw [apply, popAll_pair, popped, Option.bind_some, popped']; rfl, .word⟩
    · exact ⟨_, by rw [apply, popAll_pair, popped, Option.bind_some, popped']; rfl, .deadWord⟩
  · rw [h.kill_eq] at popped
    exact ⟨_, by rw [apply, popAll_pair, popped, Option.bind_some, pop_kill]; rfl, .deadWord⟩

/-- A branch that yields a word may end. -/
theorem ends {choice : Bool} (h : (Block.mk [.i32] [] false choice).Yields b₁) :
    b₁.ends = true ∧ b₁.results = [.i32] ∧ b₁.choice = choice := by
  cases h <;> exact ⟨rfl, rfl, rfl⟩

end Yields

end Block

/-! ## Sequences -/

@[simp] theorem run_nil (ctx : Context) (bs : List Block) : run ctx bs [] = some bs := rfl

theorem run_cons (ctx : Context) (bs : List Block) (i : Instr) (is : List Instr) :
    run ctx bs (i :: is) = (step ctx bs i).bind fun bs => run ctx bs is := by
  simp [run]

theorem run_append (ctx : Context) (bs : List Block) (is js : List Instr) :
    run ctx bs (is ++ js) = (run ctx bs is).bind fun bs => run ctx bs js := by
  simp [run]

end Wasm.Typing

/-! ## Expressions -/

namespace Expr

/-- In a context the code of an expression takes no operand and leaves a word. -/
def Typed (e : Expr) (ctx : Context) (symbol : Name → Location) : Prop :=
  ∀ ⦃scope : List (Name × Nat)⦄ ⦃next : Nat⦄, (∀ x i, scope.lookup x = some i → i < next) →
    (∀ i < next + e.lets, ctx.locals[i]? = some .i32) → ∀ (b : Block) (outer : List Block),
    ∃ b', run ctx (b :: outer) (e.code symbol scope next) = some (b' :: outer) ∧ b.Yields b'

variable {ctx : Context} {symbol : Name → Location}

theorem Typed.unary {a e : Expr} {f : Nat} (ha : a.Typed ctx symbol)
    (hf : ctx.mod.typeOf? f = some ⟨[.i32], [.i32]⟩)
    (hcode : ∀ scope next, e.code symbol scope next = a.code symbol scope next ++ [.call f])
    (hlets : e.lets = a.lets) : e.Typed ctx symbol := by
  intro scope next bound declared b outer
  rw [hlets] at declared
  obtain ⟨b₁, ran, yields⟩ := ha bound declared b outer
  obtain ⟨b', applied, yields'⟩ := yields.unary
  refine ⟨b', ?_, yields'⟩
  rw [hcode, run_append, ran, Option.bind_some, run_cons]
  simp [step, signature, hf, applied]

theorem Typed.binary {a b e : Expr} {f : Nat} (ha : a.Typed ctx symbol) (hb : b.Typed ctx symbol)
    (hf : ctx.mod.typeOf? f = some ⟨[.i32, .i32], [.i32]⟩)
    (hcode : ∀ scope next, e.code symbol scope next =
      a.code symbol scope next ++ b.code symbol scope (next + a.lets) ++ [.call f])
    (hlets : e.lets = a.lets + b.lets) : e.Typed ctx symbol := by
  intro scope next bound declared b₀ outer
  rw [hlets] at declared
  obtain ⟨b₁, ran, yields⟩ := ha bound (fun i hi => declared i (by omega)) b₀ outer
  have bound' : ∀ x i, scope.lookup x = some i → i < next + a.lets :=
    fun x i found => Nat.lt_add_right _ (bound x i found)
  obtain ⟨b₂, ran', yields'⟩ := hb bound' (fun i hi => declared i (by omega)) b₁ outer
  obtain ⟨b', applied, yields''⟩ := yields.binary yields'
  refine ⟨b', ?_, yields''⟩
  rw [hcode, run_append, run_append, ran, Option.bind_some, ran', Option.bind_some, run_cons]
  simp [step, signature, hf, applied]

theorem Typed.letIn {x : Name} {a b : Expr} (ha : a.Typed ctx symbol) (hb : b.Typed ctx symbol) :
    (Expr.letIn x a b).Typed ctx symbol := by
  intro scope next bound declared b₀ outer
  rw [lets] at declared
  obtain ⟨b₁, ran, yields⟩ := ha bound (fun i hi => declared i (by omega)) b₀ outer
  obtain ⟨b₂, popped, cleared⟩ := yields.pop_eq
  have bound' : ∀ y i, ((x, next + a.lets) :: scope).lookup y = some i → i < next + a.lets + 1 := by
    intro y i found
    rw [List.lookup_cons] at found
    split at found
    · have := Option.some.inj found
      omega
    · have := bound y i found
      omega
  obtain ⟨b₃, ran', yields'⟩ := hb bound' (fun i hi => declared i (by omega)) b₂ outer
  refine ⟨b₃, ?_, ?_⟩
  · have slot := declared (next + a.lets) (by omega)
    rw [code, run_append, run_append, ran, Option.bind_some, run_cons]
    simp [step, signature, slot, Block.apply, Block.popAll_singleton, popped, Block.push, ran']
  · rcases cleared with rfl | rfl
    · exact yields'
    · exact yields'.of_kill

/-- Both branches of a choice leave a word in a block of their own. -/
theorem Typed.ite {a b c : Expr} (ha : a.Typed ctx symbol) (hb : b.Typed ctx symbol)
    (hc : c.Typed ctx symbol) (hf : ctx.mod.typeOf? Support.test = some ⟨[.i32], [.i32]⟩) :
    (Expr.ite a b c).Typed ctx symbol := by
  intro scope next bound declared b₀ outer
  rw [lets] at declared
  obtain ⟨b₁, ran, yields⟩ := ha bound (fun i hi => declared i (by omega)) b₀ outer
  obtain ⟨b₂, applied, yields₂⟩ := yields.unary
  obtain ⟨b₃, popped, cleared⟩ := yields₂.pop_eq
  have bound₁ : ∀ x i, scope.lookup x = some i → i < next + a.lets :=
    fun x i found => Nat.lt_add_right _ (bound x i found)
  have bound₂ : ∀ x i, scope.lookup x = some i → i < next + a.lets + b.lets :=
    fun x i found => Nat.lt_add_right _ (bound₁ x i found)
  obtain ⟨left, ranLeft, yieldsLeft⟩ := hb bound₁ (fun i hi => declared i (by omega))
    ⟨[.i32], [], false, true⟩ (b₃ :: outer)
  obtain ⟨right, ranRight, yieldsRight⟩ := hc bound₂ (fun i hi => declared i (by omega))
    ⟨[.i32], [], false, false⟩ (b₃ :: outer)
  obtain ⟨endsLeft, resultsLeft, choiceLeft⟩ := yieldsLeft.ends
  obtain ⟨endsRight, resultsRight, choiceRight⟩ := yieldsRight.ends
  refine ⟨b₃.push [.i32], ?_, ?_⟩
  · rw [code]
    simp only [List.append_assoc, run_append, ran, Option.bind_some, run_cons, run_nil, step,
      signature, hf, applied, Option.map_some, popped, blockResults, ranLeft, choiceLeft, endsLeft,
      resultsLeft, Bool.and_self, if_true, ranRight, choiceRight, endsRight, resultsRight,
      Bool.not_false, Bool.true_or]
  · rcases cleared with rfl | rfl
    · exact .word
    · exact .deadWord

/-- The code of every expression leaves a word. -/
theorem typed {locs : List ValType} {main : List Instr} {d : StaticData} {locals : Array ValType}
    (e : Expr) : e.Typed ⟨Program.build locs main d, locals⟩ symbol := by
  induction e with
  | num n =>
    intro scope next bound declared b outer
    have made : (Program.build locs main d).typeOf? Support.makeNumber =
        some ⟨[.f64], [.i32]⟩ := rfl
    refine ⟨b.push [.i32], ?_, .word⟩
    simp [code, run_cons, step, signature, made, Block.apply, Block.popAll_singleton]
  | bool t =>
    intro scope next bound declared b outer
    have made : (Program.build locs main d).typeOf? Support.makeBool = some ⟨[.i32], [.i32]⟩ := rfl
    refine ⟨b.push [.i32], ?_, .word⟩
    simp [code, run_cons, step, signature, made, Block.apply, Block.popAll_singleton]
  | var x =>
    intro scope next bound declared b outer
    cases found : scope.lookup x with
    | some i =>
      have slot := declared i (Nat.lt_add_right _ (bound x i found))
      refine ⟨b.push [.i32], ?_, .word⟩
      simp only at slot
      simp [code, found, run_cons, step, signature, slot, Block.apply]
    | none =>
      have reported : (Program.build locs main d).typeOf? Support.HostCall.unbound.index =
          some ⟨[.i32, .i32], []⟩ := rfl
      refine ⟨b.kill, ?_, .dead⟩
      simp [code, found, Support.word, run_cons, step, signature, reported, Block.apply,
        Block.popAll_pair]
  | add a b iha ihb => exact iha.binary ihb rfl (fun _ _ => rfl) rfl
  | le a b iha ihb => exact iha.binary ihb rfl (fun _ _ => rfl) rfl
  | letIn x a b iha ihb => exact iha.letIn ihb
  | ite a b c iha ihb ihc => exact iha.ite ihb ihc rfl
  | pair a b iha ihb => exact iha.binary ihb rfl (fun _ _ => rfl) rfl
  | head a iha => exact iha.unary rfl (fun _ _ => rfl) rfl
  | tail a iha => exact iha.unary rfl (fun _ _ => rfl) rfl

end Expr

/-! ## Modules -/

namespace StaticData

/-- The first pages hold the static data and a cell. -/
theorem heapStart_le_initial (d : StaticData) :
    d.heapStart + Cell.size ≤ Program.initialPages d * pageSize := by
  rw [Program.initialPages]
  simp only [pageSize]
  omega

theorem initialPages_le {d : StaticData} (small : d.size ≤ limit) :
    Program.initialPages d ≤ Program.maxPages := by
  rw [Program.initialPages, heapStart]
  simp only [limit] at small
  simp only [Cell.align, Cell.size, pageSize, Program.maxPages]
  omega

end StaticData

namespace Expr

/-- The body of a compiled expression has its type. -/
theorem checkFunc_main (e : Expr) :
    checkFunc e.program ⟨Support.typeMain, List.replicate e.lets .i32, e.mainCode ++ [.close]⟩ =
      true := by
  have declared :
      ∀ i < 0 + e.lets, (List.replicate e.lets ValType.i32).toArray[i]? = some .i32 := by
    intro i hi
    rw [Nat.zero_add] at hi
    simp [hi]
  obtain ⟨b, ran, yields⟩ : ∃ b, run ⟨e.program, (List.replicate e.lets .i32).toArray⟩
      [⟨[.i32], [], false, false⟩] e.mainCode = some [b] ∧
      (Block.mk [.i32] [] false false).Yields b :=
    e.typed (fun _ _ found => by cases found) declared _ []
  obtain ⟨ends, -, choice⟩ := yields.ends
  show (run ⟨e.program, (List.replicate e.lets .i32).toArray⟩ [⟨[.i32], [], false, false⟩]
    (e.mainCode ++ [.close]) == some []) = true
  rw [run_append, ran, Option.bind_some, run_cons]
  simp [step, ends, choice]

theorem initialPages_le {e : Expr} (within : e.WithinLimits) :
    Program.initialPages e.data ≤ Program.maxPages := by
  refine StaticData.initialPages_le ?_
  rw [size_data]
  exact within.2

/-- The module of an expression within the limits passes the type check. -/
theorem check_program {e : Expr} (within : e.WithinLimits) : Typing.check e.program = true := by
  have imports : e.program.imports.all (fun i => decide (i.type < e.program.types.length)) = true :=
    rfl
  have support : Support.funcs.all (checkFunc e.program) = true := rfl
  have funcs : e.program.funcs.all (checkFunc e.program) = true := by
    show (Support.funcs ++ [_]).all _ = true
    rw [List.all_append, support, List.all_cons, checkFunc_main]
    rfl
  have pages : e.program.memory.min ≤ e.program.memory.max ∧
      e.program.memory.max * pageSize ≤ 1 <<< 32 :=
    ⟨initialPages_le within, (by decide : Program.maxPages * pageSize ≤ 1 <<< 32)⟩
  have exports : e.program.exports.all (checkExport e.program) = true := rfl
  rw [Typing.check, imports, funcs, exports, decide_eq_true pages]
  rfl

/-- Compiling has the module of the expression as its result, or fails at a limit. -/
theorem compile_cases (e : Expr) :
    (e.WithinLimits ∧ e.compile = .ok e.program) ∨
      (¬ e.WithinLimits ∧ ∃ what, e.compile = .error (.limitExceeded what)) := by
  rcases assemble_cases e with ⟨within, built⟩ | ⟨beyond, what, failed⟩
  · refine Or.inl ⟨within, ?_⟩
    rw [compile, built]
    simp [bind, Except.bind, check_program within, pure, Except.pure]
  · refine Or.inr ⟨beyond, what, ?_⟩
    rw [compile, failed]
    rfl

theorem compile_eq_program {e : Expr} (within : e.WithinLimits) : e.compile = .ok e.program := by
  rcases compile_cases e with ⟨-, built⟩ | ⟨beyond, -⟩
  · exact built
  · exact absurd within beyond

theorem eq_program_of_compile {e : Expr} {m : Module} (h : e.compile = .ok m) :
    m = e.program ∧ e.WithinLimits := by
  rcases compile_cases e with ⟨within, built⟩ | ⟨-, what, failed⟩
  · rw [built] at h
    exact ⟨(Except.ok.inj h).symm, within⟩
  · rw [failed] at h
    cases h

end Expr

end Twofold
