import Twofold.Proofs.Emission
import Twofold.Proofs.Interning

/-!
# The symbols of a compiled expression

The static data of a compiled expression has one symbol for each of its free names, in the order in
which they first occur, and none for names that are bound wherever they occur. Its code reports the
free occurrences from left to right, each with the place of the symbol of its name, and reports
nothing else.
-/

namespace Twofold

open Wasm

/-! ## The order of symbols -/

namespace StaticData

/-- New symbols follow in the order in which their names were first asked for. -/
theorem symbols_extend (d : StaticData) (xs : List Name) :
    (d.extend xs).symbols = d.symbols ++ (xs.removeAll d.symbols).eraseDups := by
  induction xs generalizing d with
  | nil => simp [List.removeAll]
  | cons x xs ih =>
    rw [extend_cons, ih]
    by_cases known : x ∈ d.symbols
    · have skipped : (x :: xs).removeAll d.symbols = xs.removeAll d.symbols := by
        simp [List.removeAll, known]
      rw [symbols_add_of_mem known, skipped]
    · have kept : (x :: xs).removeAll d.symbols = x :: xs.removeAll d.symbols := by
        simp [List.removeAll, known]
      have later : xs.removeAll (d.symbols ++ [x]) =
          (xs.removeAll d.symbols).filter fun y => !y == x := by
        rw [List.removeAll, List.removeAll, List.filter_filter]
        refine List.filter_congr fun y _ => ?_
        simp [Bool.and_comm, beq_eq_decide]
      rw [symbols_add_of_not_mem known, kept, List.eraseDups_cons, later, List.append_assoc]
      rfl

theorem symbols_extend_new (xs : List Name) : (new.extend xs).symbols = xs.eraseDups := by
  rw [symbols_extend, new]
  simp [List.removeAll]

/-- A symbol stands behind those in front of it. -/
theorem location_of_split {d : StaticData} {xs ys : List Name} {x : Name}
    (split : d.symbols = xs ++ x :: ys) (fresh : x ∉ xs) :
    d.location x = ⟨(StaticData.mk xs).size, symbolSize x⟩ := by
  rw [location, find?, split, locate?_append_cons fresh, size_eq]
  rfl

end StaticData

/-! ## Reports in code -/

/-- Code that reports the names of a list as unbound, one after another, and reports nothing else.
A report is made of the constants for the name, the call, and the stop behind it. -/
inductive ReportsNames (constants : Name → UInt32 × UInt32) : List Name → List Instr → Prop
  | none {is : List Instr} (quiet : .call Support.HostCall.unbound.index ∉ is) :
      ReportsNames constants [] is
  | report {x : Name} {xs : List Name} {is js : List Instr}
      (quiet : .call Support.HostCall.unbound.index ∉ is) (rest : ReportsNames constants xs js) :
      ReportsNames constants (x :: xs)
        (is ++ ([.i32Const (constants x).1, .i32Const (constants x).2,
          .call Support.HostCall.unbound.index, .unreachable] ++ js))

namespace ReportsNames

variable {constants : Name → UInt32 × UInt32} {xs ys : List Name} {is js : List Instr}

theorem single (x : Name) :
    ReportsNames constants [x] [.i32Const (constants x).1, .i32Const (constants x).2,
      .call Support.HostCall.unbound.index, .unreachable] :=
  .report List.not_mem_nil (.none List.not_mem_nil)

theorem append (h : ReportsNames constants xs is) (h' : ReportsNames constants ys js) :
    ReportsNames constants (xs ++ ys) (is ++ js) := by
  induction h with
  | none quiet =>
    cases h' with
    | none quiet' => exact .none fun called => (List.mem_append.1 called).elim quiet quiet'
    | report quiet' rest =>
      rw [List.nil_append, ← List.append_assoc]
      exact .report (fun called => (List.mem_append.1 called).elim quiet quiet') rest
  | report quiet rest ih =>
    rw [List.append_assoc, List.append_assoc]
    exact .report quiet ih

/-- Code without a report may follow. -/
theorem andQuiet (h : ReportsNames constants xs is)
    (quiet : .call Support.HostCall.unbound.index ∉ js) :
    ReportsNames constants xs (is ++ js) := by
  have both := h.append (.none quiet)
  rwa [List.append_nil] at both

end ReportsNames

namespace Expr

/-- The constants that the code of a report has for a name. -/
def symbolWords (symbol : Name → Location) (x : Name) : UInt32 × UInt32 :=
  (UInt32.ofNat (symbol x).ptr, UInt32.ofNat (symbol x).len)

/-- The code of an expression reports its free occurrences. -/
theorem reportsNames_code (symbol : Name → Location) (e : Expr) (scope : List (Name × Nat))
    (next : Nat) :
    ReportsNames (symbolWords symbol) (e.freeOccurrences (scope.map Prod.fst))
      (e.code symbol scope next) := by
  induction e generalizing scope next with
  | num n | bool b =>
    refine .none ?_
    rw [code, List.mem_cons, List.mem_singleton]
    rintro (constant | other)
    · cases constant
    · exact absurd other (by decide)
  | var x =>
    rw [code, freeOccurrences]
    cases found : scope.lookup x with
    | some i =>
      rw [if_pos (Emitter.mem_of_lookup_eq_some found)]
      exact .none (by simp)
    | none =>
      rw [if_neg (Emitter.not_mem_of_lookup_eq_none found)]
      exact .single x
  | add a b iha ihb | le a b iha ihb | pair a b iha ihb =>
    exact ((iha scope _).append (ihb scope _)).andQuiet (by decide)
  | letIn x a b iha ihb =>
    exact ((iha scope _).andQuiet (by simp)).append (ihb ((x, _) :: scope) _)
  | ite a b c iha ihb ihc =>
    exact ((((iha scope _).andQuiet (by decide)).append (ihb scope _)).andQuiet (by decide)
      |>.append (ihc scope _)).andQuiet (by decide)
  | head a iha | tail a iha => exact (iha scope _).andQuiet (by decide)

/-! ## Whole expressions -/

theorem symbols_data (e : Expr) : e.data.symbols = (e.freeOccurrences []).eraseDups :=
  StaticData.symbols_extend_new _

theorem eq_program_of_assemble {e : Expr} {m : Module} (h : e.assemble = .ok m) :
    m = e.program ∧ e.WithinLimits := by
  rcases assemble_cases e with ⟨within, built⟩ | ⟨-, what, failed⟩
  · rw [built] at h
    exact ⟨(Except.ok.inj h).symm, within⟩
  · rw [failed] at h
    cases h

/-- Within the limits the constants of a report are the place of the symbol. -/
theorem symbolWords_eq {e : Expr} {xs ys : List Name} {x : Name} (within : e.WithinLimits)
    (split : e.data.symbols = xs ++ x :: ys) (fresh : x ∉ xs) :
    (symbolWords e.data.location x).1.toNat = (StaticData.mk xs).size ∧
      (symbolWords e.data.location x).2.toNat = StaticData.symbolSize x := by
  have place := StaticData.location_of_split split fresh
  have front : xs ++ [x] <+: e.data.symbols := ⟨ys, by simp [split]⟩
  have inside : (StaticData.mk xs).size + StaticData.symbolSize x ≤ e.data.size :=
    StaticData.size_add_symbolSize_le front
  have small : e.data.size < UInt32.size := by
    rw [size_data]
    exact Nat.lt_of_le_of_lt within.2 (by decide)
  have ptr : (StaticData.mk xs).size < UInt32.size := by omega
  have len : StaticData.symbolSize x < UInt32.size := by omega
  rw [symbolWords, place]
  exact ⟨UInt32.toNat_ofNat_of_lt' ptr, UInt32.toNat_ofNat_of_lt' len⟩

/-- The static data of a compiled expression is the message for a test and then one marked entry for
each free name, in the order of their first free occurrences. The code reports every free
occurrence, and nothing else, with the place and the length of the entry of its name. -/
theorem static_data_of_free_names {e : Expr} {m : Module} (h : e.assemble = .ok m) :
    let names := (e.freeOccurrences []).eraseDups
    let entries (xs : List Name) : ByteArray :=
      Bytes.concat (Wording.nonBooleanTest.toUTF8 :: xs.map fun x => ("var:" ++ x).toUTF8)
    names.Nodup ∧ (∀ x, x ∈ names ↔ x ∈ e.freeVars) ∧ m.data = [⟨0, entries names⟩] ∧
      ∃ locals code constants,
        m.funcs = Support.funcs ++ [⟨Support.typeMain, locals, code⟩] ∧
        ReportsNames constants (e.freeOccurrences []) code ∧
        ∀ before x after, names = before ++ x :: after →
          (constants x).1.toNat = (entries before).size ∧
          (constants x).2.toNat = ("var:" ++ x).toUTF8.size := by
  intro names entries
  obtain ⟨rfl, within⟩ := eq_program_of_assemble h
  have data : e.data.symbols = names := e.symbols_data
  have distinct : names.Nodup := by
    rw [← data]
    exact StaticData.nodup_symbols_extend _ List.nodup_nil
  have members (x : Name) : x ∈ names ↔ x ∈ e.freeVars := by
    rw [List.mem_eraseDups, mem_freeVars]
  have laid : e.program.data = [⟨0, entries names⟩] := by
    rw [← data]
    rfl
  have reports : ReportsNames (symbolWords e.data.location) (e.freeOccurrences [])
      (e.mainCode ++ [.close]) :=
    (reportsNames_code e.data.location e [] 0).andQuiet (by decide)
  have places (before : List Name) (x : Name) (after : List Name)
      (split : names = before ++ x :: after) :
      (symbolWords e.data.location x).1.toNat = (entries before).size ∧
        (symbolWords e.data.location x).2.toNat = ("var:" ++ x).toUTF8.size := by
    have fresh : x ∉ before := by
      rw [split] at distinct
      exact fun member => (List.nodup_append.1 distinct).2.2 x member x (by simp) rfl
    have place := symbolWords_eq within (data.trans split) fresh
    rw [← StaticData.size_bytes, ← StaticData.size_symbol] at place
    exact place
  exact ⟨distinct, members, laid, List.replicate e.lets .i32, e.mainCode ++ [.close], _, rfl,
    reports, places⟩

/-- `x` is bound wherever it occurs, and `z` is free in one place and bound in another. -/
theorem static_data_of_free_names_shadowed :
    let e := letIn "x" (var "y")
      (pair (le (var "x") (var "z")) (letIn "z" (var "z") (pair (var "z") (var "y"))))
    e.freeOccurrences [] = ["y", "z", "z", "y"] ∧ ∃ m, e.assemble = .ok m ∧
      m.data = [⟨0, Bytes.concat
        [Wording.nonBooleanTest.toUTF8, "var:y".toUTF8, "var:z".toUTF8]⟩] ∧
      ∃ locals code constants, m.funcs = Support.funcs ++ [⟨Support.typeMain, locals, code⟩] ∧
        ReportsNames constants ["y", "z", "z", "y"] code ∧
        (constants "y").1.toNat = 37 ∧ (constants "y").2.toNat = 5 ∧
        (constants "z").1.toNat = 42 ∧ (constants "z").2.toNat = 5 := by
  intro e
  have occurrences : e.freeOccurrences [] = ["y", "z", "z", "y"] := by decide
  have names : (e.freeOccurrences []).eraseDups = ["y", "z"] := by decide
  have built : e.assemble = .ok e.program := by
    rcases assemble_cases e with ⟨-, built⟩ | ⟨beyond, -⟩
    · exact built
    · exact absurd ⟨by decide, by decide⟩ beyond
  obtain ⟨-, -, data, locals, code, constants, funcs, reports, places⟩ :=
    static_data_of_free_names built
  rw [names] at data
  rw [occurrences] at reports
  obtain ⟨ptr, len⟩ := places [] "y" ["z"] names
  obtain ⟨ptr', len'⟩ := places ["y"] "z" [] names
  exact ⟨occurrences, _, built, data, locals, code, constants, funcs, reports, ptr, len, ptr', len'⟩

end Expr

end Twofold
