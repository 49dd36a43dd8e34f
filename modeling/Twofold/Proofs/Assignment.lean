import Twofold.Proofs.WellTyped

/-!
# Locals are set before they are read

The type check allows a local to be read before it is set. In the code of an expression that does
not happen: a name in scope has its local set in front of the body it is bound in, on every way that
control can take.
-/

namespace Twofold

open Wasm Emitter

namespace Wasm

/-! ## Ways through code -/

/-- Where control may go after an instruction: a choice may go either way. -/
def Instr.successors : Instr → List Control
  | .unreachable => []
  | .ifThen _ => [.run, .skip 0 true]
  | .orElse => [.skip 0 false]
  | _ => [.run]

/-- The instructions that are executed one after another on a way through code. A way may end
anywhere, as execution may. -/
inductive Path : Control → List Instr → List Instr → Prop
  | stop (c : Control) (is : List Instr) : Path c is []
  | execute {i : Instr} {c : Control} {is ps : List Instr} (next : c ∈ i.successors)
      (rest : Path c is ps) : Path .run (i :: is) (i :: ps)
  | skip {depth : Nat} {toElse : Bool} {i : Instr} {is ps : List Instr}
      (rest : Path (.pass depth toElse i) is ps) : Path (.skip depth toElse) (i :: is) ps

theorem path_skip (depth : Nat) (toElse : Bool) (i : Instr) (is ps : List Instr) :
    Path (.skip depth toElse) (i :: is) ps ↔ Path (.pass depth toElse i) is ps := by
  constructor
  · intro h
    cases h with
    | stop => exact .stop _ _
    | skip rest => exact rest
  · exact .skip

/-- A local is read only where it is known to be set, or is set before. -/
def Assigned (known : List Nat) (ps : List Instr) : Prop :=
  ∀ before k behind, ps = before ++ .localGet k :: behind → k ∈ known ∨ .localSet k ∈ before

/-- Every way through code sets the locals it reads. -/
def Covered (known : List Nat) (c : Control) (is : List Instr) : Prop :=
  ∀ ps, Path c is ps → Assigned known ps

/-- The locals that an instruction sets. -/
def Instr.sets : Instr → List Nat
  | .localSet k => [k]
  | _ => []

theorem mem_sets {i : Instr} {k : Nat} : k ∈ i.sets ↔ i = .localSet k := by
  cases i <;> simp [Instr.sets, eq_comm]

variable {known : List Nat} {is : List Instr}

theorem assigned_nil : Assigned known [] := by
  intro before k behind h
  simp at h

theorem Assigned.cons {i : Instr} {ps : List Instr} (read : ∀ k, i = .localGet k → k ∈ known)
    (rest : Assigned (i.sets ++ known) ps) : Assigned known (i :: ps) := by
  intro before k behind h
  cases before with
  | nil =>
    injection h with head
    exact Or.inl (read k head)
  | cons j before =>
    injection h with head tail
    subst head
    rcases rest before k behind tail with member | set
    · rcases List.mem_append.1 member with here | earlier
      · exact Or.inr (by rw [mem_sets.1 here]; exact List.mem_cons_self)
      · exact Or.inl earlier
    · exact Or.inr (List.mem_cons_of_mem _ set)

namespace Covered

theorem nil (c : Control) : Covered known c [] := by
  intro ps h
  cases h with
  | stop => exact assigned_nil

theorem cons {i : Instr} (read : ∀ k, i = .localGet k → k ∈ known)
    (rest : ∀ c ∈ i.successors, Covered (i.sets ++ known) c is) : Covered known .run (i :: is) := by
  intro ps h
  cases h with
  | stop => exact assigned_nil
  | execute next path => exact .cons read (rest _ next _ path)

/-- An instruction that neither reads nor sets a local, and is followed by the next one. -/
theorem plain {i : Instr} (h : Covered known .run is) (follows : i.successors = [.run])
    (sets : i.sets = []) (read : ∀ k, i ≠ .localGet k) : Covered known .run (i :: is) := by
  refine cons (fun k hk => absurd hk (read k)) ?_
  rw [follows, sets]
  intro c hc
  rw [List.mem_singleton.1 hc]
  exact h

theorem call (h : Covered known .run is) (f : Nat) : Covered known .run (.call f :: is) :=
  h.plain rfl rfl fun _ => by simp

theorem mono {known' : List Nat} {c : Control} (h : Covered known c is) (sub : known ⊆ known') :
    Covered known' c is := by
  intro ps path before k behind split
  exact (h ps path before k behind split).imp_left fun member => sub member

end Covered

end Wasm

/-! ## The code of an expression -/

namespace Expr

theorem covered_skip_code {symbol : Name → Location} {known : List Nat} (e : Expr)
    (scope : List (Name × Nat)) (next depth : Nat) (toElse : Bool) (is : List Instr) :
    Covered known (.skip depth toElse) (e.code symbol scope next ++ is) =
      Covered known (.skip depth toElse) is := by
  have passes : ∀ depth toElse i is, Covered known (.skip depth toElse) (i :: is) =
      Covered known (.pass depth toElse i) is := by
    intro depth toElse i is
    simp only [Covered, path_skip]
  exact e.skip_code (Covered known) passes scope next depth toElse is

/-- The code of an expression reads only locals of names in scope, and ones that it sets. -/
theorem covered_code {symbol : Name → Location} (e : Expr) {scope : List (Name × Nat)} {next : Nat}
    {known : List Nat} {is : List Instr} (bound : ∀ x i, scope.lookup x = some i → i ∈ known)
    (rest : Covered known .run is) : Covered known .run (e.code symbol scope next ++ is) := by
  induction e generalizing scope next known is with
  | num n => exact (rest.call _).plain rfl rfl fun _ => by simp
  | bool b => exact (rest.call _).plain rfl rfl fun _ => by simp
  | var x =>
    rw [code]
    cases found : scope.lookup x with
    | some i =>
      refine .cons (fun k hk => ?_) fun c hc => ?_
      · injection hk with same
        exact same ▸ bound x i found
      · rw [List.mem_singleton.1 hc]
        exact rest
    | none =>
      have stop : Covered known .run (.unreachable :: is) :=
        .cons (by simp) (by simp [Instr.successors])
      exact ((stop.call _).plain rfl rfl fun _ => by simp [Support.word]).plain rfl rfl
        fun _ => by simp [Support.word]
  | add a b iha ihb | le a b iha ihb | pair a b iha ihb =>
    rw [code, List.append_assoc, List.append_assoc]
    exact iha bound (ihb bound (rest.call _))
  | letIn x a b iha ihb =>
    rw [code, List.append_assoc, List.append_assoc]
    -- The new local is known from here on, also behind the body.
    refine iha bound (.cons (by simp) fun c hc => ?_)
    rw [List.mem_singleton.1 hc]
    refine ihb (fun y i found => ?_) (rest.mono (List.subset_append_right _ _))
    rw [List.lookup_cons] at found
    split at found
    · exact List.mem_append_left _ (by simp [Instr.sets, Option.some.inj found])
    · exact List.mem_append_right _ (bound y i found)
  | ite a b c iha ihb ihc =>
    rw [code]
    simp only [List.append_assoc, List.cons_append, List.nil_append]
    have closed : Covered known .run (.close :: is) := rest.plain rfl rfl fun _ => by simp
    -- From the end of the first branch the second one is skipped, up to the end of the choice.
    have leave : Covered known .run
        (.orElse :: (c.code symbol scope (next + a.lets + b.lets) ++ .close :: is)) := by
      refine .cons (by simp) fun k hk => ?_
      rw [List.mem_singleton.1 hk, covered_skip_code]
      intro ps path
      exact rest ps ((path_skip ..).1 path)
    -- To the second branch the first one is skipped, up to the mark between them.
    have refused : Covered known (.skip 0 true) (b.code symbol scope (next + a.lets) ++
        .orElse :: (c.code symbol scope (next + a.lets + b.lets) ++ .close :: is)) := by
      rw [covered_skip_code]
      intro ps path
      exact ihc bound closed ps ((path_skip ..).1 path)
    refine iha bound (.call (.cons (by simp) fun k hk => ?_) _)
    rcases List.mem_cons.1 hk with rfl | hk
    · exact ihb bound leave
    · rw [List.mem_singleton.1 hk]
      exact refused
  | head a iha | tail a iha =>
    rw [code, List.append_assoc]
    exact iha bound (rest.call _)

/-- The body of a compiled expression sets every local that it reads. -/
theorem covered_main (e : Expr) : Covered [] .run (e.mainCode ++ [.close]) := by
  have close : Covered [] .run [.close] := (Covered.nil .run).plain rfl rfl fun _ => by simp
  exact e.covered_code (fun _ _ found => by cases found) close

/-! ## What emission appends -/

/-- Emission that succeeds has appended code that leaves a word, in all modules with the support
functions, where the locals are words. -/
theorem yields_of_emit {e : Expr} {s t : Emitter} (room : s.nextLocal ≤ maxLocals)
    (small : s.data.size ≤ StaticData.limit) (bound : ∀ x i, s.find? x = some i → i < s.nextLocal)
    (emitted : e.emit s = .ok () t) :
    ∃ is, t.code = s.code ++ is.toArray ∧ ∀ locs main d (locals : Array ValType),
      (∀ i < t.nextLocal, locals[i]? = some .i32) →
      ∀ (b : Typing.Block) (outer : List Typing.Block),
      ∃ b', Typing.run ⟨Program.build locs main d, locals⟩ (b :: outer) is = some (b' :: outer) ∧
        b.Yields b' := by
  have emits := emittable e s room small
  by_cases fits : e.Fits s
  · rw [emits.succeeds fits] at emitted
    injection emitted with _ same
    subst same
    exact ⟨_, rfl, fun locs main d locals declared => e.typed bound declared⟩
  · obtain ⟨what, u, failed⟩ := emits.fails fits
    rw [failed] at emitted
    cases emitted

/-- Emission appends code of one word. An expression that is assembled is compiled: all its bodies
have their types, and its own one sets every local before it is read. Where there is no module, a
limit is exceeded. -/
theorem emission_valid (e : Expr) :
    (∀ s t : Emitter, s.nextLocal ≤ maxLocals → s.data.size ≤ StaticData.limit →
      (∀ x i, s.find? x = some i → i < s.nextLocal) → e.emit s = .ok () t →
      ∃ is, t.code = s.code ++ is.toArray ∧ ∀ locs main d (locals : Array ValType),
        (∀ i < t.nextLocal, locals[i]? = some .i32) →
        ∀ (b : Typing.Block) (outer : List Typing.Block),
        ∃ b', Typing.run ⟨Program.build locs main d, locals⟩ (b :: outer) is = some (b' :: outer) ∧
          b.Yields b') ∧
    (∀ m, e.assemble = .ok m → Typing.check m = true ∧ e.compile = .ok m ∧
      ∃ main, m.funcs = Support.funcs ++ [main] ∧ main.locals = List.replicate e.lets .i32 ∧
        ∀ ps, Path .run main.body ps → ∀ before k behind,
          ps = before ++ .localGet k :: behind → .localSet k ∈ before) ∧
    ((∃ m, e.compile = .ok m) ↔ e.lets ≤ 50000 ∧ e.dataSize ≤ 8388608) ∧
    ∀ err, e.compile = .error err → ∃ what, err = .limitExceeded what := by
  refine ⟨fun s t room small bound emitted => yields_of_emit room small bound emitted, ?_, ?_, ?_⟩
  · intro m assembled
    rcases assemble_cases e with ⟨within, built⟩ | ⟨-, what, failed⟩
    · rw [built] at assembled
      injection assembled with same
      subst same
      refine ⟨check_program within, compile_eq_program within, _, rfl, rfl, ?_⟩
      intro ps path before k behind split
      rcases e.covered_main ps path before k behind split with known | set
      · cases known
      · exact set
    · rw [failed] at assembled
      cases assembled
  · constructor
    · rintro ⟨m, compiled⟩
      exact (eq_program_of_compile compiled).2
    · exact fun within => ⟨e.program, compile_eq_program within⟩
  · intro err failed
    rcases compile_cases e with ⟨-, built⟩ | ⟨-, what, exceeded⟩
    · rw [built] at failed
      cases failed
    · rw [exceeded] at failed
      injection failed with same
      exact ⟨what, same.symm⟩

end Expr

end Twofold
