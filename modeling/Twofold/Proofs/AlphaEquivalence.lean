import Twofold.Proofs.Emission
import Twofold.Proofs.Environment

/-!
# Names of bindings

Expressions that differ only in the names of their bindings are told apart neither by evaluation
nor by compilation. Both sides are followed in step, with the names bound around the current nodes
in pairs: the paired names stand for the same values, and for the same locals.
-/

namespace Twofold

/-- The occurrences `x` and `y` refer to the same one of the bindings whose names are paired, the
innermost first, or to none of them and are the same name. -/
inductive SameReference : List (Name × Name) → Name → Name → Prop
  | free (x : Name) : SameReference [] x x
  | here {Γ : List (Name × Name)} (x y : Name) : SameReference ((x, y) :: Γ) x y
  | there {Γ : List (Name × Name)} {x y a b : Name} (left : x ≠ a) (right : y ≠ b)
      (outside : SameReference Γ x y) : SameReference ((a, b) :: Γ) x y

/-- Two expressions are the same up to the names of their bindings, below bindings with paired
names. -/
inductive AlphaEq : List (Name × Name) → Expr → Expr → Prop
  | num {Γ : List (Name × Name)} (n : Number) : AlphaEq Γ (.num n) (.num n)
  | bool {Γ : List (Name × Name)} (b : Bool) : AlphaEq Γ (.bool b) (.bool b)
  | var {Γ : List (Name × Name)} {x y : Name} (h : SameReference Γ x y) :
      AlphaEq Γ (.var x) (.var y)
  | add {Γ : List (Name × Name)} {a a' b b' : Expr} (left : AlphaEq Γ a a')
      (right : AlphaEq Γ b b') : AlphaEq Γ (.add a b) (.add a' b')
  | le {Γ : List (Name × Name)} {a a' b b' : Expr} (left : AlphaEq Γ a a')
      (right : AlphaEq Γ b b') : AlphaEq Γ (.le a b) (.le a' b')
  | letIn {Γ : List (Name × Name)} {x y : Name} {a a' b b' : Expr} (bound : AlphaEq Γ a a')
      (body : AlphaEq ((x, y) :: Γ) b b') : AlphaEq Γ (.letIn x a b) (.letIn y a' b')
  | ite {Γ : List (Name × Name)} {a a' b b' c c' : Expr} (test : AlphaEq Γ a a')
      (yes : AlphaEq Γ b b') (no : AlphaEq Γ c c') : AlphaEq Γ (.ite a b c) (.ite a' b' c')
  | pair {Γ : List (Name × Name)} {a a' b b' : Expr} (first : AlphaEq Γ a a')
      (second : AlphaEq Γ b b') : AlphaEq Γ (.pair a b) (.pair a' b')
  | head {Γ : List (Name × Name)} {a a' : Expr} (arg : AlphaEq Γ a a') :
      AlphaEq Γ (.head a) (.head a')
  | tail {Γ : List (Name × Name)} {a a' : Expr} (arg : AlphaEq Γ a a') :
      AlphaEq Γ (.tail a) (.tail a')

variable {Γ : List (Name × Name)}

/-! ## Evaluation -/

/-- Occurrences that refer to the same binding stand for the same value, and only names that are
free on both sides stand for none. -/
def Env.Paired (Γ : List (Name × Name)) (ρ ρ' : Env) : Prop :=
  ∀ x y, SameReference Γ x y → ρ x = ρ' y ∧ (ρ x = none → x = y)

namespace Env.Paired

theorem empty : Env.Paired [] .empty .empty := by
  intro x y same
  cases same
  exact ⟨rfl, fun _ => rfl⟩

theorem bind {ρ ρ' : Env} (h : Env.Paired Γ ρ ρ') (a b : Name) (v : Value) :
    Env.Paired ((a, b) :: Γ) (ρ.bind a v) (ρ'.bind b v) := by
  intro x y same
  cases same with
  | here => simp [Env.bind]
  | there left right outside =>
    simp only [Env.bind, left, right, if_false]
    exact h x y outside

end Env.Paired

/-- Expressions that are the same up to names have the same result. -/
theorem AlphaEq.evalIn_eq {e e' : Expr} (h : AlphaEq Γ e e') {ρ ρ' : Env}
    (paired : Env.Paired Γ ρ ρ') : e.evalIn ρ = e'.evalIn ρ' := by
  induction h generalizing ρ ρ' with
  | num n => rfl
  | bool b => rfl
  | @var Γ x y same =>
    obtain ⟨value, unbound⟩ := paired x y same
    rw [Expr.evalIn, Expr.evalIn, ← value]
    cases known : ρ x with
    | some v => rfl
    | none => rw [unbound known]
  | letIn bound body ihbound ihbody =>
    rw [Expr.evalIn, Expr.evalIn, ihbound paired]
    congr 1
    funext v
    exact ihbody (paired.bind _ _ v)
  | add left right ihl ihr | le left right ihl ihr | pair left right ihl ihr =>
    rw [Expr.evalIn, Expr.evalIn, ihl paired, ihr paired]
  | ite test yes no iht ihy ihn =>
    simp only [Expr.evalIn, iht paired, ihy paired, ihn paired]
  | head arg ih | tail arg ih => rw [Expr.evalIn, Expr.evalIn, ih paired]

/-! ## Emission -/

/-- The names in scope on both sides are paired and stand for the same locals. -/
inductive ScopesPaired : List (Name × Name) → List (Name × Nat) → List (Name × Nat) → Prop
  | nil : ScopesPaired [] [] []
  | cons {Γ : List (Name × Name)} {scope scope' : List (Name × Nat)} (x y : Name) (i : Nat)
      (outside : ScopesPaired Γ scope scope') :
      ScopesPaired ((x, y) :: Γ) ((x, i) :: scope) ((y, i) :: scope')

/-- Occurrences that refer to the same binding stand for the same local, and only names that are
free on both sides stand for none. -/
theorem ScopesPaired.lookup_eq {scope scope' : List (Name × Nat)}
    (paired : ScopesPaired Γ scope scope') {x y : Name} (same : SameReference Γ x y) :
    scope.lookup x = scope'.lookup y ∧ (scope.lookup x = none → x = y) := by
  induction paired with
  | nil =>
    cases same
    exact ⟨rfl, fun _ => rfl⟩
  | cons a b i outside ih =>
    cases same with
    | here => simp
    | there left right further =>
      rw [List.lookup_cons, List.lookup_cons, beq_eq_false_iff_ne.2 left,
        beq_eq_false_iff_ne.2 right]
      exact ih further

/-- Two emitters that differ only in the names in scope, which are paired. -/
inductive Emitter.InStep (Γ : List (Name × Name)) : Emitter → Emitter → Prop
  | mk {scope scope' : List (Name × Nat)} (paired : ScopesPaired Γ scope scope') (next : Nat)
      (locals : Array Wasm.ValType) (data : StaticData) (code : Array Wasm.Instr) :
      InStep Γ ⟨next, locals, scope, data, code⟩ ⟨next, locals, scope', data, code⟩

/-- Two steps of emission have ended with the same result and in step, or with the same failure. -/
inductive Emitter.Corresponds {α : Type} (Γ : List (Name × Name)) :
    EStateM.Result CompileError Emitter α → EStateM.Result CompileError Emitter α → Prop
  | ok {s t : Emitter} (r : α) (inStep : InStep Γ s t) : Corresponds Γ (.ok r s) (.ok r t)
  | error (err : CompileError) (s t : Emitter) : Corresponds Γ (.error err s) (.error err t)

/-- Two steps of emission correspond, wherever they start in step. -/
def Emitter.Alike {α : Type} (Γ : List (Name × Name)) (step step' : Emit α) : Prop :=
  ∀ s t, InStep Γ s t → Corresponds Γ (step s) (step' t)

namespace Emitter.Alike

variable {α β : Type}

theorem bind {a a' : Emit α} {f f' : α → Emit β} (h : Alike Γ a a')
    (hf : ∀ r, Alike Γ (f r) (f' r)) : Alike Γ (a >>= f) (a' >>= f') := by
  intro s t inStep
  show Corresponds Γ (EStateM.bind a f s) (EStateM.bind a' f' t)
  rw [EStateM.bind, EStateM.bind]
  have first := h s t inStep
  revert first
  generalize a s = r
  generalize a' t = r'
  intro first
  cases first with
  | ok r inStep => exact hf r _ _ inStep
  | error err s t => exact .error err s t

theorem seq {a a' : Emit Unit} {b b' : Emit β} (ha : Alike Γ a a') (hb : Alike Γ b b') :
    Alike Γ (do a; b) (do a'; b') :=
  ha.bind fun _ => hb

theorem instr (i : Wasm.Instr) : Alike Γ (Emitter.instr i) (Emitter.instr i) := by
  rintro _ _ ⟨paired, next, locals, data, code⟩
  exact .ok () (.mk paired next locals data (code.push i))

theorem declare (ty : Wasm.ValType) : Alike Γ (Emitter.declare ty) (Emitter.declare ty) := by
  rintro _ _ ⟨paired, next, locals, data, code⟩
  rw [Emitter.declare, Emitter.declare]
  by_cases full : maxLocals ≤ next
  · simp only [full, if_true]
    exact .error _ _ _
  · simp only [full, if_false]
    exact .ok next (.mk paired (next + 1) (locals.push ty) data code)

theorem intern (x : Name) : Alike Γ (Emitter.intern x) (Emitter.intern x) := by
  rintro _ _ ⟨paired, next, locals, data, code⟩
  rw [Emitter.intern, Emitter.intern]
  cases data.intern x with
  | error err => exact .error err _ _
  | ok entry => exact .ok entry.1 (.mk paired next locals entry.2 code)

/-- Occurrences that refer to the same binding read the same local, or report the same name. -/
theorem occurrence {x y : Name} (same : SameReference Γ x y) :
    Alike Γ (Emitter.occurrence x) (Emitter.occurrence y) := by
  rintro _ _ @⟨scope, scope', paired, next, locals, data, code⟩
  have inStep := InStep.mk paired next locals data code
  obtain ⟨found, unbound⟩ := paired.lookup_eq same
  cases known : scope.lookup x with
  | some i =>
    rw [occurrence_of_lookup_eq_some known, occurrence_of_lookup_eq_some (found.symm.trans known)]
    exact instr _ _ _ inStep
  | none =>
    rw [occurrence_of_lookup_eq_none known, occurrence_of_lookup_eq_none (found.symm.trans known),
      ← unbound known]
    exact ((intern x).bind fun loc =>
      (instr _).seq ((instr _).seq ((instr _).seq (instr _)))) _ _ inStep

/-- A pair of names is in scope only for the bodies. -/
theorem inScope {x y : Name} {body body' : Emit Unit} (i : Nat)
    (h : Alike ((x, y) :: Γ) body body') :
    Alike Γ (Emitter.inScope x i body) (Emitter.inScope y i body') := by
  rintro _ _ ⟨paired, next, locals, data, code⟩
  have inside := h _ _ (.mk (.cons x y i paired) next locals data code)
  rw [Emitter.inScope, Emitter.inScope, enter, enter]
  revert inside
  generalize body _ = r
  generalize body' _ = r'
  intro inside
  cases inside with
  | error err s t => exact .error err _ _
  | ok r inStep =>
    obtain ⟨paired, next, locals, data, code⟩ := inStep
    cases paired with
    | cons _ _ j outside =>
      simp only [leave, List.eraseP_cons, beq_self_eq_true, cond_true]
      exact .ok () (.mk outside next locals data code)

end Emitter.Alike

open Emitter in
/-- Expressions that are the same up to names are emitted in step. -/
theorem AlphaEq.alike_emit {e e' : Expr} (h : AlphaEq Γ e e') : Alike Γ e.emit e'.emit := by
  induction h with
  | num n => exact (Alike.instr _).seq (.instr _)
  | bool b => exact (Alike.instr _).seq (.instr _)
  | var same => exact .occurrence same
  | add left right ihl ihr => exact ihl.seq (ihr.seq (.instr _))
  | le left right ihl ihr => exact ihl.seq (ihr.seq (.instr _))
  | pair first second ihf ihs => exact ihf.seq (ihs.seq (.instr _))
  | letIn bound body ihbound ihbody =>
    exact ihbound.seq ((Alike.declare _).bind fun i => (Alike.instr _).seq (ihbody.inScope i))
  | ite test yes no iht ihy ihn =>
    exact iht.seq ((Alike.instr _).seq ((Alike.instr _).seq (ihy.seq ((Alike.instr _).seq
      (ihn.seq (.instr _))))))
  | head arg ih => exact ih.seq (.instr _)
  | tail arg ih => exact ih.seq (.instr _)

/-! ## Whole expressions -/

/-- Expressions that are the same up to names have the same module, or fail at the same limit. -/
theorem AlphaEq.assemble_eq {e e' : Expr} (h : AlphaEq [] e e') : e.assemble = e'.assemble := by
  have start : Emitter.InStep [] (.new 0) (.new 0) := .mk .nil 0 #[] .new #[]
  have ends := h.alike_emit _ _ start
  rw [Expr.assemble, Expr.assemble]
  revert ends
  generalize e.emit _ = r
  generalize e'.emit _ = r'
  intro ends
  cases ends with
  | error err s t => rfl
  | ok _ inStep =>
    obtain ⟨-, next, locals, data, code⟩ := inStep
    rfl

/-- The names of bindings show neither in the bytes of the module, or the reason why there is none,
nor in the value or the failure. -/
theorem AlphaEq.indistinguishable {e e' : Expr} (h : AlphaEq [] e e') :
    e.compile.map Wasm.Binary.encode = e'.compile.map Wasm.Binary.encode ∧ e.eval = e'.eval := by
  constructor
  · rw [Expr.compile, Expr.compile, h.assemble_eq]
  · rw [Expr.eval_eq_evalIn, Expr.eval_eq_evalIn]
    exact h.evalIn_eq .empty

/-- An inner binding that hides the outer one, and one of another name; `y` is free beside a
binding of `y`. -/
theorem AlphaEq.indistinguishable_shadowed :
    let e := Expr.pair (.letIn "x" (.var "y") (.letIn "x" (.var "x") (.var "x"))) (.var "y")
    let e' := Expr.pair (.letIn "y" (.var "y") (.letIn "z" (.var "y") (.var "z"))) (.var "y")
    AlphaEq [] e e' ∧ e.compile.map Wasm.Binary.encode = e'.compile.map Wasm.Binary.encode ∧
      e.eval = e'.eval := by
  intro e e'
  have inner : AlphaEq [("x", "y")] (.letIn "x" (.var "x") (.var "x"))
      (.letIn "z" (.var "y") (.var "z")) := .letIn (.var (.here "x" "y")) (.var (.here "x" "z"))
  have same : AlphaEq [] e e' := .pair (.letIn (.var (.free "y")) inner) (.var (.free "y"))
  exact ⟨same, same.indistinguishable⟩

end Twofold
