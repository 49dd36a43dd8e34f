import Twofold.Proofs.Emission
import Twofold.Proofs.Interning

/-!
# What emission leaves as it was

Emission can stop at a limit in the middle of an operand, a bound expression, a branch or a body.
Wherever it stops, the names that have come into scope on the way have left it again, and locals,
code and symbols have only been added behind those that were there. `Grown n s t` says this of the
emitter before and after, where `n` is the number of locals that are new, and `Grows n step` says
that a step of emission, be it met with success or not, makes the emitter grow so.
-/

namespace Twofold

open Wasm

namespace Emitter

/-- The locals that a name stands for in bindings inside each other, the innermost first. -/
def stack (s : Emitter) (x : Name) : List Nat :=
  (s.scope.filter fun b => x == b.1).map Prod.snd

/-- A name stands for the innermost of its locals. -/
theorem find?_eq_head?_stack (s : Emitter) (x : Name) : s.find? x = (s.stack x).head? := by
  rw [find?, stack]
  induction s.scope with
  | nil => rfl
  | cons b scope ih =>
    rw [List.lookup_cons, List.filter_cons]
    cases x == b.1 with
    | true => rfl
    | false => exact ih

/-- The emitter `t` has the scope of `s`, `n` more locals, and all that `s` has emitted. -/
structure Grown (n : Nat) (s t : Emitter) : Prop where
  scope : t.scope = s.scope
  next : t.nextLocal = s.nextLocal + n
  locals : t.locals.size = s.locals.size + n
  code : s.code.toList <+: t.code.toList
  symbols : s.data.symbols <+: t.data.symbols

namespace Grown

variable {m n : Nat} {s t u : Emitter}

theorem refl (s : Emitter) : Grown 0 s s where
  scope := rfl
  next := rfl
  locals := rfl
  code := List.prefix_refl _
  symbols := List.prefix_refl _

theorem trans (h : Grown m s t) (h' : Grown n t u) : Grown (m + n) s u where
  scope := h'.scope.trans h.scope
  next := by rw [h'.next, h.next, Nat.add_assoc]
  locals := by rw [h'.locals, h.locals, Nat.add_assoc]
  code := h.code.trans h'.code
  symbols := h.symbols.trans h'.symbols

/-- The innermost binding of a name is the one to leave. -/
theorem leave {x : Name} {i : Nat} (h : Grown n (s.enter x i) t) : Grown n s (t.leave x) where
  scope := by simp [Emitter.leave, h.scope, enter]
  next := h.next
  locals := h.locals
  code := h.code
  symbols := h.symbols

theorem stack_eq (h : Grown n s t) (x : Name) : t.stack x = s.stack x := by
  rw [stack, stack, h.scope]

/-- The bytes of the body so far are those at the front of the later body. -/
theorem body_append (h : Grown n s t) :
    ∃ more, Binary.body [] t.code.toList = Binary.body [] s.code.toList ++ more := by
  obtain ⟨added, grown⟩ := h.code
  refine ⟨Binary.code added, ?_⟩
  rw [← grown, Binary.body, Binary.body, Binary.code, List.flatMap_append,
    List.toByteArray_append, ByteArray.append_assoc]
  rfl

/-- The static data so far is at the front of the later static data. -/
theorem bytes_append (h : Grown n s t) : ∃ more, t.data.bytes = s.data.bytes ++ more := by
  obtain ⟨added, grown⟩ := h.symbols
  refine ⟨Bytes.concat (added.map fun x => (StaticData.symbol x).toUTF8), ?_⟩
  have same : t.data = ⟨s.data.symbols ++ added⟩ := by rw [grown]
  rw [same, StaticData.bytes_append]

/-- A symbol is found where it was. -/
theorem intern_eq {x : Name} {loc : Location} (h : Grown n s t)
    (known : s.data.find? x = some loc) : t.data.intern x = .ok (loc, t.data) :=
  StaticData.intern_of_find? (StaticData.find?_of_prefix known h.symbols)

end Grown

/-- With success a step of emission adds `n` locals to an emitter and otherwise at most that many,
and all else that was there stays as it was. -/
def Grows {α : Type} (n : Nat) (step : Emit α) : Prop :=
  ∀ s : Emitter, (∃ r t, step s = .ok r t ∧ Grown n s t) ∨
    ∃ err t k, step s = .error err t ∧ k ≤ n ∧ Grown k s t

namespace Grows

variable {α β : Type} {m n : Nat}

theorem bind {a : Emit α} {f : α → Emit β} (ha : Grows m a) (hf : ∀ r, Grows n (f r)) :
    Grows (m + n) (a >>= f) := by
  intro s
  have opened : (a >>= f) s = EStateM.bind a f s := rfl
  rw [opened, EStateM.bind]
  rcases ha s with ⟨r, t, ran, grown⟩ | ⟨err, t, k, failed, few, grown⟩
  · rw [ran]
    rcases hf r t with ⟨r', u, ran', grown'⟩ | ⟨err, u, k, failed, few, grown'⟩
    · exact Or.inl ⟨r', u, ran', grown.trans grown'⟩
    · exact Or.inr ⟨err, u, m + k, failed, by omega, grown.trans grown'⟩
  · rw [failed]
    exact Or.inr ⟨err, t, k, rfl, by omega, grown⟩

theorem instr (i : Instr) : Grows 0 (Emitter.instr i) := by
  intro s
  refine Or.inl ⟨(), { s with code := s.code.push i }, rfl, ?_⟩
  refine { Grown.refl s with code := ?_ }
  rw [Array.toList_push]
  exact List.prefix_append _ _

theorem andInstr {a : Emit Unit} (ha : Grows n a) (i : Instr) :
    Grows n (do a; Emitter.instr i) :=
  ha.bind fun _ => instr i

theorem instrAnd (i : Instr) {a : Emit α} (ha : Grows n a) :
    Grows n (do Emitter.instr i; a) := by
  have both := (instr i).bind fun _ => ha
  rwa [Nat.zero_add] at both

theorem declare (type : ValType) : Grows 1 (Emitter.declare type) := by
  intro s
  rw [Emitter.declare]
  by_cases full : maxLocals ≤ s.nextLocal
  · rw [if_pos full]
    exact Or.inr ⟨_, s, 0, rfl, by omega, .refl s⟩
  · rw [if_neg full]
    refine Or.inl ⟨_, _, rfl, ?_⟩
    exact ⟨rfl, rfl, Array.size_push _, List.prefix_refl _, List.prefix_refl _⟩

theorem intern (x : Name) : Grows 0 (Emitter.intern x) := by
  intro s
  rw [Emitter.intern_eq]
  by_cases room : x ∈ s.data.symbols ∨ s.data.size + StaticData.symbolSize x ≤ StaticData.limit
  · rw [if_pos room]
    refine Or.inl ⟨_, _, rfl, ?_⟩
    exact { Grown.refl s with symbols := StaticData.prefix_extend s.data [x] }
  · rw [if_neg room]
    exact Or.inr ⟨_, s, 0, rfl, Nat.le_refl 0, .refl s⟩

/-- A name leaves the scope behind a step, also if the step fails. -/
theorem inScope {x : Name} {body : Emit Unit} (i : Nat) (h : Grows n body) :
    Grows n (Emitter.inScope x i body) := by
  intro s
  rw [Emitter.inScope]
  rcases h (s.enter x i) with ⟨r, t, ran, grown⟩ | ⟨err, t, k, failed, few, grown⟩
  · rw [ran]
    exact Or.inl ⟨(), t.leave x, rfl, grown.leave⟩
  · rw [failed]
    exact Or.inr ⟨err, t.leave x, k, rfl, few, grown.leave⟩

theorem occurrence (x : Name) : Grows 0 (Emitter.occurrence x) := by
  intro s
  cases found : s.scope.lookup x with
  | some i =>
    rw [occurrence_of_lookup_eq_some found]
    exact instr _ s
  | none =>
    rw [occurrence_of_lookup_eq_none found]
    exact ((intern x).bind fun loc => ((instr _).andInstr _).bind fun _ =>
      (instr _).andInstr _) s

end Grows

end Emitter

namespace Expr

open Emitter

/-- The locals that emission adds are those of the bindings. -/
theorem grows_emit (e : Expr) : Grows e.lets e.emit := by
  induction e with
  | num n => exact (Grows.instr _).andInstr _
  | bool b => exact (Grows.instr _).andInstr _
  | var x => exact .occurrence x
  | add a b iha ihb | le a b iha ihb | pair a b iha ihb =>
    exact iha.bind fun _ => ihb.andInstr _
  | letIn x a b iha ihb =>
    have order : 1 + a.lets + b.lets = a.lets + (1 + b.lets) := by omega
    rw [lets, order]
    exact iha.bind fun _ => (Grows.declare _).bind fun i => .instrAnd _ (ihb.inScope i)
  | ite a b c iha ihb ihc =>
    rw [lets, Nat.add_assoc]
    exact iha.bind fun _ => .instrAnd _ (.instrAnd _ (ihb.bind fun _ =>
      .instrAnd _ (ihc.andInstr _)))
  | head a iha | tail a iha => exact iha.andInstr _

/-- Whether emission succeeds or fails, every name stands for what it stood for before. There is a
new local for every binding, or after a failure for some of them; the bytes of the body and of the
static data are continued, and the symbols that were there are where they were. -/
theorem emit_restores_scope (e : Expr) (s : Emitter) :
    ∃ t n, (e.emit s = .ok () t ∧ n = e.lets ∨ (∃ err, e.emit s = .error err t) ∧ n ≤ e.lets) ∧
      (∀ x, t.stack x = s.stack x ∧ t.find? x = s.find? x) ∧
      t.nextLocal = s.nextLocal + n ∧ t.locals.size = s.locals.size + n ∧
      (∃ more, Binary.body [] t.code.toList = Binary.body [] s.code.toList ++ more) ∧
      (∃ more, t.data.bytes = s.data.bytes ++ more) ∧
      ∀ x loc, s.data.find? x = some loc → t.data.intern x = .ok (loc, t.data) := by
  have kept {n : Nat} {t : Emitter} (grown : Grown n s t) (x : Name) :
      t.stack x = s.stack x ∧ t.find? x = s.find? x := by
    refine ⟨grown.stack_eq x, ?_⟩
    rw [find?_eq_head?_stack, find?_eq_head?_stack, grown.stack_eq x]
  rcases e.grows_emit s with ⟨r, t, ran, grown⟩ | ⟨err, t, n, failed, few, grown⟩
  · exact ⟨t, e.lets, Or.inl ⟨ran, rfl⟩, kept grown, grown.next, grown.locals, grown.body_append,
      grown.bytes_append, fun _ _ => grown.intern_eq⟩
  · exact ⟨t, n, Or.inr ⟨⟨err, failed⟩, few⟩, kept grown, grown.next, grown.locals,
      grown.body_append, grown.bytes_append, fun _ _ => grown.intern_eq⟩

/-- The last local goes to the outer binding, and the inner one fails with `x` in scope twice. -/
theorem emit_restores_scope_refused :
    let s : Emitter := ⟨49999, #[], [("x", 7)], ⟨["y"]⟩, #[.call 0]⟩
    let e := letIn "x" (var "y") (letIn "x" (var "x") (var "x"))
    s.data.find? "y" = some ⟨37, 5⟩ ∧
      ∃ t, e.emit s = .error .tooManyLocals t ∧ t.stack "x" = [7] ∧ t.find? "x" = some 7 ∧
        t.nextLocal = 50000 ∧ t.locals.size = 1 ∧ t.data.intern "y" = .ok (⟨37, 5⟩, t.data) := by
  intro s e
  have known : s.data.find? "y" = some ⟨37, 5⟩ := by decide
  obtain ⟨t, n, ended, names, -, -, -, -, symbols⟩ := emit_restores_scope e s
  refine ⟨known, ?_⟩
  rcases ended with ⟨ran, -⟩ | ⟨⟨err, failed⟩, -⟩
  · cases ran
  · have outside : s.stack "x" = [7] ∧ s.find? "x" = some 7 := by decide
    cases failed
    exact ⟨_, rfl, (names "x").1.trans outside.1, (names "x").2.trans outside.2, rfl, rfl,
      symbols "y" _ known⟩

end Expr

end Twofold
