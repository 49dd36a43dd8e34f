import Twofold.Compile.Program
import Twofold.Proofs.Bytes
import Twofold.Proofs.FreeNames
import Twofold.Wasm.Machine

/-!
# Emitted code as a function

Emission threads the scope, the locals and the static data through the expression and fails at a
limit. What it appends to the code depends on less: on the scope, on the next local, and on where
the symbols stand in the end. `code` is that function, and `emittable` says that emission succeeds
exactly when the locals and the static data stay within their limits, and then appends `code`.
`assemble_cases` says the same of whole expressions and their modules.
-/

namespace Twofold

open Wasm Emitter

/-! ## Names in scope -/

namespace Emitter

variable {scope : List (Name × Nat)} {x : Name} {i : Nat}

theorem not_mem_of_lookup_eq_none (h : scope.lookup x = none) : x ∉ scope.map Prod.fst := by
  intro bound
  obtain ⟨p, member, rfl⟩ := List.mem_map.1 bound
  simpa using List.lookup_eq_none_iff.1 h p member

theorem mem_of_lookup_eq_some (h : scope.lookup x = some i) : x ∈ scope.map Prod.fst := by
  obtain ⟨before, behind, split, -⟩ := List.lookup_eq_some_iff.1 h
  simp [split]

/-- An occurrence of a name in scope reads its local. -/
theorem occurrence_of_lookup_eq_some {s : Emitter} (h : s.scope.lookup x = some i) :
    occurrence x s = instr (.localGet i) s := by
  simp only [occurrence, bind, EStateM.bind, get, getThe, MonadStateOf.get, EStateM.get, find?, h]

/-- An occurrence of any other name reports its symbol. -/
theorem occurrence_of_lookup_eq_none {s : Emitter} (h : s.scope.lookup x = none) :
    occurrence x s =
      (do
        let loc ← intern x
        instr (Support.word loc.ptr)
        instr (Support.word loc.len)
        instr (.call Support.HostCall.unbound.index)
        instr .unreachable : Emit Unit) s := by
  simp only [occurrence, bind, EStateM.bind, get, getThe, MonadStateOf.get, EStateM.get, find?, h]

end Emitter

/-! ## Code -/

namespace Expr

/-- The code of an expression, for given places of the symbols, names in scope and next local. -/
def code (symbol : Name → Location) : Expr → (scope : List (Name × Nat)) → (next : Nat) → List Instr
  | num n, _, _ => [.f64Const n, .call Support.makeNumber]
  | bool b, _, _ => [.i32Const (if b then 1 else 0), .call Support.makeBool]
  | var x, scope, _ => match scope.lookup x with
    | some i => [.localGet i]
    | none =>
      [Support.word (symbol x).ptr, Support.word (symbol x).len,
        .call Support.HostCall.unbound.index, .unreachable]
  | add a b, scope, next =>
    a.code symbol scope next ++ b.code symbol scope (next + a.lets) ++ [.call Support.add]
  | le a b, scope, next =>
    a.code symbol scope next ++ b.code symbol scope (next + a.lets) ++ [.call Support.le]
  | letIn x a b, scope, next =>
    a.code symbol scope next ++ [.localSet (next + a.lets)]
      ++ b.code symbol ((x, next + a.lets) :: scope) (next + a.lets + 1)
  | ite a b c, scope, next =>
    a.code symbol scope next ++ [.call Support.test, .ifThen (some .i32)]
      ++ b.code symbol scope (next + a.lets) ++ [.orElse]
      ++ c.code symbol scope (next + a.lets + b.lets) ++ [.close]
  | pair a b, scope, next =>
    a.code symbol scope next ++ b.code symbol scope (next + a.lets) ++ [.call Support.makePair]
  | head a, scope, next => a.code symbol scope next ++ [.call Support.head]
  | tail a, scope, next => a.code symbol scope next ++ [.call Support.tail]

/-- A name that is not in scope occurs free. -/
theorem mem_freeOccurrences_var {x : Name} {scope : List (Name × Nat)}
    (h : scope.lookup x = none) : x ∈ (var x).freeOccurrences (scope.map Prod.fst) := by
  have free := not_mem_of_lookup_eq_none h
  simp [freeOccurrences, free]

/-- The code depends only on the places of the symbols for free occurrences. -/
theorem code_congr {symbol symbol' : Name → Location} (e : Expr) (scope : List (Name × Nat))
    (next : Nat) (h : ∀ x ∈ e.freeOccurrences (scope.map Prod.fst), symbol x = symbol' x) :
    e.code symbol scope next = e.code symbol' scope next := by
  induction e generalizing scope next with
  | num n => rfl
  | bool b => rfl
  | var x =>
    rw [code, code]
    cases found : scope.lookup x with
    | some i => rfl
    | none =>
      have same : symbol x = symbol' x := h x (mem_freeOccurrences_var found)
      simp only [same]
  | add a b iha ihb | le a b iha ihb | pair a b iha ihb =>
    simp only [freeOccurrences, List.mem_append] at h
    rw [code, code, iha scope next fun x hx => h x (Or.inl hx),
      ihb scope _ fun x hx => h x (Or.inr hx)]
  | letIn y a b iha ihb =>
    simp only [freeOccurrences, List.mem_append] at h
    rw [code, code, iha scope next fun x hx => h x (Or.inl hx),
      ihb ((y, _) :: scope) _ fun x hx => h x (Or.inr hx)]
  | ite a b c iha ihb ihc =>
    simp only [freeOccurrences, List.mem_append] at h
    rw [code, code, iha scope next fun x hx => h x (Or.inl (Or.inl hx)),
      ihb scope _ fun x hx => h x (Or.inl (Or.inr hx)), ihc scope _ fun x hx => h x (Or.inr hx)]
  | head a iha | tail a iha =>
    simp only [freeOccurrences] at h
    rw [code, code, iha scope next h]

/-- Symbols that are added later leave the code as it is. -/
theorem code_extend (e : Expr) (d : StaticData) (scope : List (Name × Nat)) (next : Nat)
    (xs ys : List Name) :
    e.code (d.extend (xs ++ e.freeOccurrences (scope.map Prod.fst))).location scope next =
      e.code (d.extend (xs ++ e.freeOccurrences (scope.map Prod.fst) ++ ys)).location scope
        next := by
  apply code_congr
  intro x hx
  have member : x ∈ (d.extend (xs ++ e.freeOccurrences (scope.map Prod.fst))).symbols :=
    StaticData.mem_symbols_extend.2 (Or.inr (List.mem_append_right xs hx))
  rw [StaticData.extend_append _ _ ys]
  exact (StaticData.location_eq_of_prefix member (StaticData.prefix_extend _ ys)).symm

/-- Skipped code is skipped as a whole, for anything that depends on code only through the way
control passes over it: the choices inside are opened and closed. -/
theorem skip_code {α : Type} (view : Control → List Instr → α)
    (passes : ∀ depth toElse i is,
      view (.skip depth toElse) (i :: is) = view (.pass depth toElse i) is)
    {symbol : Name → Location} (e : Expr) (scope : List (Name × Nat)) (next depth : Nat)
    (toElse : Bool) (is : List Instr) :
    view (.skip depth toElse) (e.code symbol scope next ++ is) = view (.skip depth toElse) is := by
  induction e generalizing scope next depth is with
  | num n => simp [code, passes, Control.pass]
  | bool b => simp [code, passes, Control.pass]
  | var x =>
    rw [code]
    cases scope.lookup x <;> simp [passes, Support.word, Control.pass]
  | add a b iha ihb | le a b iha ihb | pair a b iha ihb | letIn x a b iha ihb =>
    simp [code, passes, iha, ihb, Control.pass]
  | ite a b c iha ihb ihc => simp [code, passes, iha, ihb, ihc, Control.pass]
  | head a iha | tail a iha => simp [code, passes, iha, Control.pass]

end Expr

/-! ## What emission does -/

namespace Emitter

/-- The emitter with more locals, symbols and code. -/
def grow (s : Emitter) (locals : Nat) (names : List Name) (is : List Instr) : Emitter where
  nextLocal := s.nextLocal + locals
  locals := s.locals ++ Array.replicate locals .i32
  scope := s.scope
  data := s.data.extend names
  code := s.code ++ is.toArray

@[simp] theorem grow_grow (s : Emitter) (m n : Nat) (xs ys : List Name) (is js : List Instr) :
    (s.grow m xs is).grow n ys js = s.grow (m + n) (xs ++ ys) (is ++ js) := by
  simp [grow, Nat.add_assoc, Array.append_assoc]

/-- The emitter with other names in scope. -/
def withScope (s : Emitter) (scope : List (Name × Nat)) : Emitter := { s with scope }

end Emitter

namespace Expr

/-- The emitter after an expression. -/
def after (e : Expr) (s : Emitter) : Emitter :=
  s.grow e.lets (e.freeOccurrences (s.scope.map Prod.fst))
    (e.code (s.data.extend (e.freeOccurrences (s.scope.map Prod.fst))).location s.scope s.nextLocal)

/-- The locals and the static data that an expression needs stay within the limits. -/
def Fits (e : Expr) (s : Emitter) : Prop :=
  s.nextLocal + e.lets ≤ maxLocals ∧
    (s.data.extend (e.freeOccurrences (s.scope.map Prod.fst))).size ≤ StaticData.limit

instance (e : Expr) (s : Emitter) : Decidable (e.Fits s) := inferInstanceAs (Decidable (_ ∧ _))

end Expr

namespace Emitter

/-- A step of emission that leads from `s` to `t` if something fits, and otherwise fails at a
limit. -/
structure Emits (step : Emit Unit) (s : Emitter) (fits : Prop) (t : Emitter) : Prop where
  succeeds : fits → step s = .ok () t
  fails : ¬ fits → ∃ what u, step s = .error (.limitExceeded what) u

namespace Emits

theorem instr (i : Instr) (s : Emitter) : Emits (Emitter.instr i) s True (s.grow 0 [] [i]) where
  succeeds _ := by
    simp [Emitter.instr, grow, modify, modifyGet, MonadStateOf.modifyGet, EStateM.modifyGet]
  fails h := absurd trivial h

theorem seq {a b : Emit Unit} {s t u : Emitter} {p q : Prop} (ha : Emits a s p t)
    (hb : p → Emits b t q u) : Emits (do a; b) s (p ∧ q) u where
  succeeds := by
    rintro ⟨hp, hq⟩
    show EStateM.bind a (fun _ => b) s = _
    rw [EStateM.bind, ha.succeeds hp]
    exact (hb hp).succeeds hq
  fails := by
    intro h
    by_cases hp : p
    · obtain ⟨what, v, failed⟩ := (hb hp).fails fun hq => h ⟨hp, hq⟩
      refine ⟨what, v, ?_⟩
      show EStateM.bind a (fun _ => b) s = _
      rw [EStateM.bind, ha.succeeds hp]
      exact failed
    · obtain ⟨what, v, failed⟩ := ha.fails hp
      refine ⟨what, v, ?_⟩
      show EStateM.bind a (fun _ => b) s = _
      rw [EStateM.bind, failed]

theorem congr {a : Emit Unit} {s t u : Emitter} {p q : Prop} (h : Emits a s p t) (hpq : p ↔ q)
    (htu : t = u) : Emits a s q u := by
  subst htu
  exact ⟨fun hq => h.succeeds (hpq.2 hq), fun hq => h.fails fun hp => hq (hpq.1 hp)⟩

/-- A binding declares a local behind its bound expression; its scope ends with its body. -/
theorem bindLocal {x : Name} {body : Emit Unit} {s t : Emitter} {q : Prop}
    (hb : s.nextLocal < maxLocals → Emits body
      ((s.grow 1 [] [.localSet s.nextLocal]).withScope ((x, s.nextLocal) :: s.scope)) q t)
    (hscope : t.scope = (x, s.nextLocal) :: s.scope) :
    Emits (do let i ← declare .i32; Emitter.instr (.localSet i); inScope x i body) s
      (s.nextLocal < maxLocals ∧ q) (t.withScope s.scope) := by
  have split (h : s.nextLocal < maxLocals) :
      (do let i ← declare .i32; Emitter.instr (.localSet i); inScope x i body : Emit Unit) s =
        inScope x s.nextLocal body (s.grow 1 [] [.localSet s.nextLocal]) := by
    have room : ¬ maxLocals ≤ s.nextLocal := by omega
    simp only [bind, EStateM.bind, declare, room, if_false, Emitter.instr, modify, modifyGet,
      MonadStateOf.modifyGet, EStateM.modifyGet, grow, Array.replicate_one, Array.append_singleton]
    rfl
  have entered : (s.grow 1 [] [.localSet s.nextLocal]).enter x s.nextLocal =
      (s.grow 1 [] [.localSet s.nextLocal]).withScope ((x, s.nextLocal) :: s.scope) := rfl
  constructor
  · rintro ⟨h, hq⟩
    rw [split h, inScope, entered, (hb h).succeeds hq]
    simp [leave, hscope, withScope]
  · intro h
    by_cases room : s.nextLocal < maxLocals
    · obtain ⟨what, u, failed⟩ := (hb room).fails fun hq => h ⟨room, hq⟩
      refine ⟨what, u.leave x, ?_⟩
      rw [split room, inScope, entered, failed]
    · have full : maxLocals ≤ s.nextLocal := by omega
      refine ⟨"more than 50000 locals", s, ?_⟩
      simp only [bind, EStateM.bind, declare, full, if_true, CompileError.tooManyLocals]

/-- An occurrence reads its local, or reports its symbol. -/
theorem occurrence (x : Name) (s : Emitter) (hl : s.nextLocal ≤ maxLocals)
    (hd : s.data.size ≤ StaticData.limit) :
    Emits (Emitter.occurrence x) s ((Expr.var x).Fits s) ((Expr.var x).after s) := by
  cases found : s.scope.lookup x with
  | some i =>
    have bound := mem_of_lookup_eq_some found
    have fits : (Expr.var x).Fits s := by
      simp [Expr.Fits, Expr.lets, Expr.freeOccurrences, bound, hl, hd]
    refine ⟨fun _ => ?_, fun h => absurd fits h⟩
    rw [occurrence_of_lookup_eq_some found, (Emits.instr _ s).succeeds trivial]
    simp [Expr.after, Expr.lets, Expr.freeOccurrences, bound, Expr.code, found]
  | none =>
    have free := not_mem_of_lookup_eq_none found
    have report := occurrence_of_lookup_eq_none found
    have fits_iff : (Expr.var x).Fits s ↔
        x ∈ s.data.symbols ∨ s.data.size + StaticData.symbolSize x ≤ StaticData.limit := by
      simp only [Expr.Fits, Expr.lets, Expr.freeOccurrences, free, if_false, Nat.add_zero, hl,
        true_and, StaticData.extend_cons, StaticData.extend_nil, StaticData.size_add_le_iff hd]
    constructor
    · intro fits
      have interned : intern x s = .ok ((s.data.add x).location x) (s.grow 0 [x] []) := by
        simp [intern, StaticData.intern_eq, if_pos (fits_iff.1 fits), grow, StaticData.extend_cons]
      rw [report]
      simp only [bind, EStateM.bind, interned]
      refine (((Emits.instr _ _).seq fun _ => (Emits.instr _ _).seq fun _ =>
        (Emits.instr _ _).seq fun _ => Emits.instr _ _).congr Iff.rfl ?_).succeeds (by simp)
      simp [Expr.after, Expr.lets, Expr.freeOccurrences, free, Expr.code, found,
        StaticData.extend_cons]
    · intro full
      have refused : intern x s = .error (.dataTooLarge x) s := by
        simp only [intern, StaticData.intern_eq, if_neg (mt fits_iff.2 full)]
      refine ⟨"data segment too large to intern `" ++ x ++ "`", s, ?_⟩
      rw [report]
      simp only [bind, EStateM.bind, refused, CompileError.dataTooLarge]

end Emits

end Emitter

namespace Expr

theorem after_grow (e : Expr) (s : Emitter) (n : Nat) (xs : List Name) (is : List Instr) :
    e.after (s.grow n xs is) =
      s.grow (n + e.lets) (xs ++ e.freeOccurrences (s.scope.map Prod.fst))
        (is ++ e.code (s.data.extend (xs ++ e.freeOccurrences (s.scope.map Prod.fst))).location
          s.scope (s.nextLocal + n)) := by
  rw [after, grow_grow, StaticData.extend_append]
  rfl

theorem fits_grow (e : Expr) (s : Emitter) (n : Nat) (xs : List Name) (is : List Instr) :
    e.Fits (s.grow n xs is) ↔
      s.nextLocal + n + e.lets ≤ maxLocals ∧
        (s.data.extend (xs ++ e.freeOccurrences (s.scope.map Prod.fst))).size ≤
          StaticData.limit := by
  rw [StaticData.extend_append]
  rfl

/-- Emission of the expression succeeds exactly when it fits, and then has appended its code. -/
def Emittable (e : Expr) : Prop :=
  ∀ s : Emitter, s.nextLocal ≤ maxLocals → s.data.size ≤ StaticData.limit →
    Emits e.emit s (e.Fits s) (e.after s)

/-- One operand, then a call. -/
theorem Emittable.unary {a e : Expr} {f : Nat} (ha : a.Emittable)
    (hemit : e.emit = do a.emit; Emitter.instr (.call f)) (hlets : e.lets = a.lets)
    (hfree : ∀ bound, e.freeOccurrences bound = a.freeOccurrences bound)
    (hcode : ∀ symbol scope next,
      e.code symbol scope next = a.code symbol scope next ++ [.call f]) : e.Emittable := by
  intro s hl hd
  rw [hemit]
  refine ((ha s hl hd).seq fun _ => Emits.instr _ _).congr ?_ ?_
  · rw [Fits, Fits, hlets, hfree, and_true]
  · rw [after, after, grow_grow, hlets, hfree, hcode, Nat.add_zero, List.append_nil]

/-- Two operands from left to right, then a call. -/
theorem Emittable.binary {a b e : Expr} {f : Nat} (ha : a.Emittable) (hb : b.Emittable)
    (hemit : e.emit = do a.emit; b.emit; Emitter.instr (.call f))
    (hlets : e.lets = a.lets + b.lets)
    (hfree : ∀ bound, e.freeOccurrences bound = a.freeOccurrences bound ++ b.freeOccurrences bound)
    (hcode : ∀ symbol scope next, e.code symbol scope next =
      a.code symbol scope next ++ b.code symbol scope (next + a.lets) ++ [.call f]) :
    e.Emittable := by
  intro s hl hd
  rw [hemit]
  refine ((ha s hl hd).seq fun fa => (hb _ fa.1 fa.2).seq fun _ => Emits.instr _ _).congr ?_ ?_
  · have grown := StaticData.size_le_extend
      (s.data.extend (a.freeOccurrences (s.scope.map Prod.fst)))
      (b.freeOccurrences (s.scope.map Prod.fst))
    rw [after, fits_grow, Fits, Fits, hlets, hfree, StaticData.extend_append, and_true]
    omega
  · have stable := code_extend a s.data s.scope s.nextLocal []
      (b.freeOccurrences (s.scope.map Prod.fst))
    rw [List.nil_append] at stable
    rw [after.eq_def a, after_grow, grow_grow, after, hlets, hfree, hcode, stable, List.append_nil,
      Nat.add_zero]

/-- The bound expression, then a local of its own for the body. -/
theorem Emittable.letIn {x : Name} {a b : Expr} (ha : a.Emittable) (hb : b.Emittable) :
    (Expr.letIn x a b).Emittable := by
  intro s hl hd
  refine ((ha s hl hd).seq fun fa => Emits.bindLocal (fun room => hb _ ?_ fa.2) rfl).congr ?_ ?_
  · exact room
  · have grown := StaticData.size_le_extend
      (s.data.extend (a.freeOccurrences (s.scope.map Prod.fst)))
      (b.freeOccurrences (x :: s.scope.map Prod.fst))
    have body : b.Fits (((a.after s).grow 1 [] [.localSet (a.after s).nextLocal]).withScope
        ((x, (a.after s).nextLocal) :: s.scope)) ↔
        s.nextLocal + a.lets + 1 + b.lets ≤ maxLocals ∧
          ((s.data.extend (a.freeOccurrences (s.scope.map Prod.fst))).extend
            (b.freeOccurrences (x :: s.scope.map Prod.fst))).size ≤ StaticData.limit := Iff.rfl
    have next : (a.after s).nextLocal = s.nextLocal + a.lets := rfl
    have scope : (a.after s).scope = s.scope := rfl
    rw [scope, body, Fits, Fits, lets, freeOccurrences, StaticData.extend_append, next]
    omega
  · have stable := code_extend a s.data s.scope s.nextLocal []
      (b.freeOccurrences (x :: s.scope.map Prod.fst))
    rw [List.nil_append] at stable
    have body : (b.after (((a.after s).grow 1 [] [.localSet (a.after s).nextLocal]).withScope
        ((x, (a.after s).nextLocal) :: s.scope))).withScope s.scope =
        ((a.after s).grow 1 [] [.localSet (s.nextLocal + a.lets)]).grow b.lets
          (b.freeOccurrences (x :: s.scope.map Prod.fst))
          (b.code ((s.data.extend (a.freeOccurrences (s.scope.map Prod.fst))).extend
              (b.freeOccurrences (x :: s.scope.map Prod.fst))).location
            ((x, s.nextLocal + a.lets) :: s.scope) (s.nextLocal + a.lets + 1)) := rfl
    have locals : 1 + a.lets + b.lets = a.lets + (1 + b.lets) := by omega
    have scope : (a.after s).scope = s.scope := rfl
    rw [scope, body, after.eq_def a, after.eq_def (Expr.letIn x a b), grow_grow, grow_grow,
      ← StaticData.extend_append, stable, lets, locals, freeOccurrences, code, List.nil_append,
      List.append_assoc]

/-- The test, then the two branches between the marks of a choice. -/
theorem Emittable.ite {a b c : Expr} (ha : a.Emittable) (hb : b.Emittable) (hc : c.Emittable) :
    (Expr.ite a b c).Emittable := by
  intro s hl hd
  refine ((ha s hl hd).seq fun fa => (Emits.instr _ _).seq fun _ => (Emits.instr _ _).seq fun _ =>
    (hb _ fa.1 fa.2).seq fun fb => (Emits.instr _ _).seq fun _ =>
    (hc _ fb.1 fb.2).seq fun _ => Emits.instr _ _).congr ?_ ?_
  · have grown := StaticData.size_le_extend
      (s.data.extend (a.freeOccurrences (s.scope.map Prod.fst)))
      (b.freeOccurrences (s.scope.map Prod.fst))
    have grown' := StaticData.size_le_extend
      ((s.data.extend (a.freeOccurrences (s.scope.map Prod.fst))).extend
        (b.freeOccurrences (s.scope.map Prod.fst)))
      (c.freeOccurrences (s.scope.map Prod.fst))
    simp only [after.eq_def a, after_grow, grow_grow, fits_grow]
    simp only [Fits, lets, freeOccurrences, StaticData.extend_append, StaticData.extend_nil,
      true_and, and_true]
    omega
  · have stable := code_extend a s.data s.scope s.nextLocal []
      (b.freeOccurrences (s.scope.map Prod.fst) ++ c.freeOccurrences (s.scope.map Prod.fst))
    have stable' := code_extend b s.data s.scope (s.nextLocal + a.lets)
      (a.freeOccurrences (s.scope.map Prod.fst)) (c.freeOccurrences (s.scope.map Prod.fst))
    rw [List.nil_append, ← List.append_assoc] at stable
    simp only [after.eq_def a, after_grow, grow_grow, List.append_nil, Nat.add_zero]
    rw [after, stable, stable', lets, freeOccurrences, code, Nat.add_assoc s.nextLocal]
    simp only [List.append_assoc, List.cons_append, List.nil_append]

/-- Emission succeeds exactly when the expression fits, and then has appended its code. -/
theorem emittable (e : Expr) : e.Emittable := by
  induction e with
  | num n =>
    intro s hl hd
    refine ((Emits.instr _ s).seq fun _ => Emits.instr _ _).congr ?_ ?_
    · simp [Fits, lets, freeOccurrences, hl, hd]
    · simp [after, code, lets, freeOccurrences]
  | bool b =>
    intro s hl hd
    refine ((Emits.instr _ s).seq fun _ => Emits.instr _ _).congr ?_ ?_
    · simp [Fits, lets, freeOccurrences, hl, hd]
    · simp [after, code, lets, freeOccurrences]
  | var x => exact Emits.occurrence x
  | add a b iha ihb => exact iha.binary ihb rfl rfl (fun _ => rfl) fun _ _ _ => rfl
  | le a b iha ihb => exact iha.binary ihb rfl rfl (fun _ => rfl) fun _ _ _ => rfl
  | letIn x a b iha ihb => exact iha.letIn ihb
  | ite a b c iha ihb ihc => exact iha.ite ihb ihc
  | pair a b iha ihb => exact iha.binary ihb rfl rfl (fun _ => rfl) fun _ _ _ => rfl
  | head a iha => exact iha.unary rfl rfl (fun _ => rfl) fun _ _ _ => rfl
  | tail a iha => exact iha.unary rfl rfl (fun _ => rfl) fun _ _ _ => rfl

end Expr

/-! ## Whole expressions -/

theorem Wasm.Binary.locals_nil : Binary.locals [] = [0].toByteArray := by
  simp [Binary.locals, Binary.vec, Leb128.unsigned, Bytes.concat]

/-- A body made without locals takes any. -/
theorem Wasm.Binary.declare?_body (types : List ValType) (is : List Instr) :
    Binary.declare? types (Binary.body [] is) = some (Binary.body types is) := by
  have front : 0 < (Binary.body [] is).size ∧ Bytes.get (Binary.body [] is) 0 = 0 := by
    rw [Binary.body, Binary.locals_nil, ByteArray.size_append]
    exact ⟨Nat.lt_of_lt_of_le (by decide) (Nat.le_add_right _ _), Bytes.get_append_left (by decide)⟩
  have back : (Binary.body [] is).extract 1 (Binary.body [] is).size = Binary.code is := by
    rw [Binary.body, Binary.locals_nil]
    exact ByteArray.extract_append_eq_right rfl ByteArray.size_append
  rw [Binary.declare?, if_pos front, back]
  rfl

namespace Expr

/-- The static data of a compiled expression. -/
def data (e : Expr) : StaticData := StaticData.new.extend (e.freeOccurrences [])

/-- The code of a compiled expression, without the instruction that ends its body. -/
def mainCode (e : Expr) : List Instr := e.code e.data.location [] 0

/-- The module of a compiled expression. -/
def program (e : Expr) : Module :=
  Program.build (List.replicate e.lets .i32) e.mainCode e.data

theorem size_data (e : Expr) : e.data.size = e.dataSize := size_extend_freeOccurrences e

/-- The limits that an expression has to keep to be compiled. -/
def WithinLimits (e : Expr) : Prop := e.lets ≤ maxLocals ∧ e.dataSize ≤ StaticData.limit

theorem fits_new (e : Expr) : e.Fits (.new 0) ↔ e.WithinLimits := by
  rw [Fits, WithinLimits, ← size_data]
  simp [Emitter.new, data]

/-- What emission has made of an expression within the limits. -/
theorem emit_new {e : Expr} (within : e.WithinLimits) :
    ∃ t, e.emit (.new 0) = .ok () t ∧ t.locals.toList = List.replicate e.lets .i32 ∧
      t.code.toList = e.mainCode ∧ t.data = e.data := by
  have emits := emittable e (.new 0) (by decide) (by decide)
  refine ⟨_, emits.succeeds (e.fits_new.2 within), ?_, ?_, rfl⟩
  · simp [after, Emitter.new, grow]
  · simp [after, Emitter.new, grow, mainCode, data]

/-- Within the limits an expression has its module, and beyond them none. -/
theorem assemble_cases (e : Expr) :
    (e.WithinLimits ∧ e.assemble = .ok e.program) ∨
      (¬ e.WithinLimits ∧ ∃ what, e.assemble = .error (.limitExceeded what)) := by
  by_cases h : e.WithinLimits
  · obtain ⟨t, emitted, locals, code, data⟩ := emit_new h
    refine Or.inl ⟨h, ?_⟩
    simp only [assemble, emitted, locals, code, data, Binary.declare?_body]
    rfl
  · have emits := emittable e (.new 0) (by decide) (by decide)
    obtain ⟨what, t, failed⟩ := emits.fails (mt e.fits_new.1 h)
    refine Or.inr ⟨h, what, ?_⟩
    rw [assemble, failed]

/-- In the binary form, the last body has the bytes that were made before its locals were known,
with the locals declared in them. -/
theorem getLast?_bodies {e : Expr} {m : Module} (h : e.assemble = .ok m) :
    ∃ s bytes, e.emit (.new 0) = .ok () s ∧
      Binary.declare? s.locals.toList (Binary.body [] (s.code.toList ++ [.close])) = some bytes ∧
      (Binary.bodies m).getLast? = some (Binary.sized bytes) := by
  rcases assemble_cases e with ⟨within, built⟩ | ⟨-, what, failed⟩
  · obtain ⟨s, emitted, locals, code, -⟩ := emit_new within
    rw [built] at h
    cases h
    refine ⟨s, _, emitted, Binary.declare?_body _ _, ?_⟩
    rw [locals, code]
    simp [Binary.bodies, program, Program.build]
  · rw [failed] at h
    cases h

end Expr

end Twofold
