import Twofold.Proofs.Decoding
import Twofold.Proofs.Persistence
import Twofold.Proofs.WellTyped

/-!
# What reading depends on

Components stand below their pair, so reading looks at nothing behind the cell that it starts from,
whatever the memory holds. Two memories that agree up to the end of a cell therefore give the same
value, or the same failure, for its address. An execution that stores only behind the cell leaves
what is read there as it is; the function that takes memory stores nothing at all.
-/

namespace Twofold

open Wasm Machine

namespace Heap

variable {m m' : ByteArray} {ptr : UInt32} {n : Nat}

/-! ## Two memories -/

/-- What stands in a cell stays with the bytes of the cell. -/
theorem cell_keeps {a : Nat} (kept : Bytes.Keeps n m m') (hn : a + Cell.size ≤ n) :
    word m' a = word m a ∧ word m' (a + Cell.first) = word m (a + Cell.first) ∧
      word m' (a + Cell.second) = word m (a + Cell.second) ∧
      number m' (a + Cell.first) = number m (a + Cell.first) := by
  have words : Cell.first + 4 ≤ Cell.size ∧ Cell.second + 4 ≤ Cell.size := by decide
  have content : Cell.first + 8 ≤ Cell.size := by decide
  exact ⟨kept.word_eq (by omega), kept.word_eq (by omega), kept.word_eq (by omega),
    kept.number_eq (by omega)⟩

/-- Reading from a cell gives the same while the bytes up to the end of the cell stay. -/
theorem readValue_keeps (kept : Bytes.Keeps n m m') (hn : ptr.toNat + Cell.size ≤ n)
    (inside : ptr.toNat + Cell.size ≤ m.size) : readValue m' ptr = readValue m ptr := by
  -- A component may overlap its pair, but it begins, and so it ends, before the pair does.
  induction ptr using cell_induction m with
  | outside ptr outside => omega
  | number ptr inside tag =>
    obtain ⟨sameTag, -, -, content⟩ := cell_keeps kept hn
    have inside' := Nat.le_trans inside kept.size_le
    rw [readValue_number inside' (sameTag.trans tag), readValue_number inside tag, content]
  | boolean ptr inside tag =>
    obtain ⟨sameTag, content, -, -⟩ := cell_keeps kept hn
    have inside' := Nat.le_trans inside kept.size_le
    rw [readValue_boolean inside' (sameTag.trans tag), readValue_boolean inside tag, content]
  | pair ptr inside tag ih =>
    obtain ⟨sameTag, first, second, -⟩ := cell_keeps kept hn
    have inside' := Nat.le_trans inside kept.size_le
    have component (a : UInt32) : readComponent m' ptr a = readComponent m ptr a := by
      rw [readComponent, readComponent]
      by_cases below : a.toNat < ptr.toNat
      · rw [if_pos below, if_pos below]
        exact ih a below (by omega) (by omega)
      · rw [if_neg below, if_neg below]
    rw [readValue_pair inside' (sameTag.trans tag), readValue_pair inside tag, first, second,
      component, component]
  | unknown ptr inside tag =>
    obtain ⟨sameTag, -, -, -⟩ := cell_keeps kept hn
    have inside' := Nat.le_trans inside kept.size_le
    have tag' : ¬ IsTag (word m' ptr.toNat) := by rwa [sameTag]
    rw [readValue_unknown inside' tag', readValue_unknown inside tag, sameTag]

/-- Where a cell is in the memory, so is all that is read from there on. -/
theorem readValue_ne_outOfBounds (inside : ptr.toNat + Cell.size ≤ m.size) (a len size : Nat) :
    readValue m ptr ≠ .error (.outOfBounds a len size) := by
  intro failed
  obtain ⟨l, -, ⟨q, -, other⟩ | ⟨q, b, -, other⟩⟩ := exists_firstFlaw inside failed
  · cases other
  · cases other

end Heap

/-! ## Executions -/

section Executions

variable {H : Type}

/-- All stores of an execution go to addresses from `n` on. -/
def Wasm.Run.StoresFrom (n : Nat) (r : Run H) : Prop := ∀ p ∈ r.points, p.StoresFrom n

theorem Wasm.Point.storesFrom_zero (p : Point H) : p.StoresFrom 0 := by
  unfold Point.StoresFrom
  split
  · exact Nat.zero_le _
  · exact Nat.zero_le _
  · trivial

/-- The bytes before all stores of a call are the same at every point of the call and after it. -/
theorem keeps_traceCall {mod : Module} {host : Host H} {depth f : Nat} {calls : List Nat}
    {rs : List Return} {s : Machine H} {n : Nat} (inside : n ≤ s.memory.bytes.size)
    (stores : (traceCall mod host depth f calls rs s).StoresFrom n) :
    (∀ p ∈ (traceCall mod host depth f calls rs s).points,
      Bytes.Keeps n s.memory.bytes p.state.memory.bytes) ∧
      Bytes.Keeps n s.memory.bytes
        (finalState (traceCall mod host depth f calls rs s).result).memory.bytes := by
  -- No byte need stay for the memory not to shrink, so that `n` is inside all along.
  have larger : (traceCall mod host depth f calls rs s).Steady (fun _ => 0) ⟨rs, s.memory⟩ :=
    steady_traceCall (fun _ _ => Nat.le_refl 0) fun p _ => ⟨p.storesFrom_zero, Nat.zero_le _⟩
  have steady : (traceCall mod host depth f calls rs s).Steady (fun _ => n) ⟨rs, s.memory⟩ := by
    apply steady_traceCall (fun _ _ => Nat.le_refl n)
    intro p hp
    have grown := (larger.after p hp).keeps.size_le
    exact ⟨stores p hp, Nat.le_trans inside grown⟩
  exact ⟨fun p hp => (steady.after p hp).keeps, steady.whole.keeps⟩

/-- Neither a store nor a call. -/
def Wasm.Instr.isPlain : Instr → Bool
  | .i32Store _ | .f64Store _ | .call _ => false
  | _ => true

/-- Code without stores and calls stores nothing. -/
theorem storesFrom_traceCode {call : Nat → List Return → Machine H → Run H} {calls : List Nat}
    {is : List Instr} {rs : List Return} {s : Machine H} (n : Nat) (plain : ∀ i ∈ is, i.isPlain) :
    (traceCode call calls is rs s).StoresFrom n := by
  induction is generalizing rs s with
  | nil => exact nofun
  | cons i is ih =>
    have here := plain i List.mem_cons_self
    have rest := fun j hj => plain j (List.mem_cons_of_mem i hj)
    intro p hp
    rw [traceCode] at hp
    cases control : s.control with
    | run =>
      simp only [control] at hp
      rcases mem_points_andThen.1 hp with first | ⟨t, -, later⟩
      · have quiet : (traceStep call i rs s).points = [] := by
          cases i with
          | call f => cases here
          | _ => rfl
        rw [Run.passing, quiet, List.mem_singleton] at first
        subst first
        cases i with
        | i32Store | f64Store => cases here
        | _ => trivial
      · exact ih rest p later
    | skip depth toElse =>
      simp only [control] at hp
      exact ih rest p hp

/-- Taking memory stores nothing. -/
theorem storesFrom_alloc {locals : List ValType} {code : List Instr} {d : StaticData}
    {host : Host H} {depth : Nat} {calls : List Nat} {rs : List Return} {s : Machine H} (n : Nat) :
    (traceCall (Program.build locals code d) host depth Support.alloc calls rs s).StoresFrom n := by
  cases depth with
  | zero => exact nofun
  | succ depth =>
    have type : (Program.build locals code d).typeOf? Support.alloc = some ⟨[.i32], [.i32]⟩ := rfl
    have func : (Program.build locals code d).funcs[
        Support.alloc - (Program.build locals code d).imports.length]? =
        some Support.allocFunc := rfl
    have own : ¬ Support.alloc < (Program.build locals code d).imports.length :=
      Nat.not_lt.2 (by decide : 3 ≤ 3)
    intro p hp
    rw [traceCall, type] at hp
    cases args : popArgs 1 s with
    | error t u => simp [args] at hp
    | ok args u =>
      simp only [List.length_singleton, args, own, if_false, func] at hp
      rcases mem_points_andThen.1 hp with body | ⟨t, -, last⟩
      · exact storesFrom_traceCode n (by decide) p body
      · rw [traceReturn, List.mem_singleton] at last
        subst last
        trivial

end Executions

namespace Heap

/-- What is read from a cell depends on the bytes up to the end of the cell only: two memories that
agree there give the same value or the same failure, which is never one for lack of memory. Hence
nothing that happens behind the cell shows: neither an execution that stores only there, at any of
its points or after it, whether the memory grows or not, nor taking memory for another cell. -/
theorem readValue_local {m m' : ByteArray} {ptr : UInt32} (inside : ptr.toNat + 12 ≤ m.size)
    (inside' : ptr.toNat + 12 ≤ m'.size)
    (same : ∀ a < ptr.toNat + 12, Bytes.get m a = Bytes.get m' a) :
    readValue m ptr = readValue m' ptr ∧
      (∀ a len size, readValue m ptr ≠ .error (.outOfBounds a len size)) ∧
      (∀ {H : Type} (mod : Module) (host : Host H) (depth f : Nat) (s : Machine H),
        s.memory.bytes = m →
        (traceCall mod host depth f [] [] s).StoresFrom (ptr.toNat + 12) →
        (∀ p ∈ (traceCall mod host depth f [] [] s).points,
          readValue p.state.memory.bytes ptr = readValue m ptr) ∧
        readValue (finalState (invoke mod host depth f s)).memory.bytes ptr = readValue m ptr) ∧
      ∀ {H : Type} (e : Expr) (mod : Module), e.compile = .ok mod →
        ∀ (host : Host H) (depth : Nat) (s : Machine H), s.memory.bytes = m →
        readValue (finalState (invoke mod host depth Support.alloc s)).memory.bytes ptr =
          readValue m ptr := by
  refine ⟨?_, readValue_ne_outOfBounds inside, ?_, ?_⟩
  · rcases Nat.le_total m.size m'.size with shorter | longer
    · have kept : Bytes.Keeps (ptr.toNat + 12) m m' := ⟨shorter, fun a ha => (same a ha).symm⟩
      exact (readValue_keeps kept (Nat.le_refl _) inside).symm
    · have kept : Bytes.Keeps (ptr.toNat + 12) m' m := ⟨longer, same⟩
      exact readValue_keeps kept (Nat.le_refl _) inside'
  · rintro H mod host depth f s rfl stores
    obtain ⟨during, after⟩ := keeps_traceCall inside stores
    rw [result_traceCall] at after
    exact ⟨fun p hp => readValue_keeps (during p hp) (Nat.le_refl _) inside,
      readValue_keeps after (Nat.le_refl _) inside⟩
  · rintro H e mod compiled host depth s rfl
    obtain ⟨rfl, -⟩ := Expr.eq_program_of_compile compiled
    have stores : (traceCall e.program host depth Support.alloc [] [] s).StoresFrom
        (ptr.toNat + 12) := storesFrom_alloc _
    obtain ⟨-, after⟩ := keeps_traceCall inside stores
    rw [result_traceCall] at after
    exact readValue_keeps after (Nat.le_refl _) inside

/-- A boolean, and behind it a pair whose second component begins one byte before the pair. -/
def overlapping (rest : List UInt8) : ByteArray :=
  ⟨([2, 0, 0, 0, 1, 0, 0, 0, 0, 0, 0, 0, 3, 0, 0, 0, 0, 0, 0, 0, 11, 0, 0, 0] ++ rest).toArray⟩

/-- The failure at the second component is the same whatever stands behind the pair, and also after
memory was taken. -/
theorem readValue_local_overlapping :
    (∀ a < 24, Bytes.get (overlapping []) a = Bytes.get (overlapping [7, 7, 7]) a) ∧
      readValue (overlapping [7, 7, 7]) 12 = .error (.unknownTag 768 11) ∧
      ∀ (host : Host Unit) (depth : Nat) (stack : List Val),
        readValue (finalState (invoke (Expr.bool true).program host depth Support.alloc
          ⟨.run, stack, #[], #[], ⟨overlapping [], 256⟩, ()⟩)).memory.bytes 12 =
          .error (.unknownTag 768 11) := by
  have same : ∀ a < 24, Bytes.get (overlapping []) a = Bytes.get (overlapping [7, 7, 7]) a := by
    decide
  have failed : readValue (overlapping []) 12 = .error (.unknownTag 768 11) := by
    have bounded : (readWithin (overlapping []) 13 12).run = some (.error (.unknownTag 768 11)) :=
      rfl
    rw [run_readWithin (by decide) (by decide)] at bounded
    exact Option.some.inj bounded
  obtain ⟨reading, -, -, taking⟩ :=
    @readValue_local (overlapping []) (overlapping [7, 7, 7]) 12 (by decide) (by decide) same
  have compiled := Expr.compile_eq_program (e := .bool true) ⟨by decide, by decide⟩
  refine ⟨same, reading.symm.trans failed, ?_⟩
  intro host depth stack
  exact (taking (.bool true) _ compiled host depth _ rfl).trans failed

end Heap

end Twofold
