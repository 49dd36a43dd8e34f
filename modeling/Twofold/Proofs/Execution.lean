import Twofold.Proofs.Persistence
import Twofold.Proofs.Simulation
import Twofold.Proofs.WellTyped

/-!
# Running a compiled expression

The machine starts with the static data in memory, room for at least one cell behind it, and no
cells. From there the run of a compiled expression realizes the outcome of evaluating it.
-/

namespace Twofold

open Wasm Cell Machine

variable {H : Type} {host : Host H} {h : H}

/-! ## The start -/

theorem boot_memory {locs : List ValType} {code : List Instr} {d : StaticData} :
    (boot (Program.build locs code d) h).memory.bytes.size = Program.initialPages d * pageSize ∧
      d.Below (boot (Program.build locs code d) h).memory.bytes := by
  have laid : (boot (Program.build locs code d) h).memory.bytes =
      Bytes.overlay (Bytes.zeros (Program.initialPages d * pageSize)) 0 d.bytes := rfl
  have room : d.bytes.size ≤ Program.initialPages d * pageSize := by
    have := d.heapStart_le_initial
    have := d.size_le_heapStart
    rw [d.size_bytes]
    omega
  have size : (Bytes.overlay (Bytes.zeros (Program.initialPages d * pageSize)) 0 d.bytes).size =
      Program.initialPages d * pageSize := by
    rw [Bytes.overlay_zero, ByteArray.size_append, ByteArray.size_extract, Bytes.size_zeros]
    omega
  rw [laid]
  refine ⟨size, ⟨by rw [size]; exact room, fun a ha => ?_⟩⟩
  rw [Bytes.overlay_zero]
  exact Bytes.get_append_left ha

/-- Before anything is run there are no cells. -/
theorem heapAt_boot {locs : List ValType} {code : List Instr} {d : StaticData}
    (small : d.size ≤ StaticData.limit) :
    HeapAt d 0 0 [] (boot (Program.build locs code d) h).globals
      (boot (Program.build locs code d) h).memory where
  count := rfl
  handedOut_eq := rfl
  made_eq := rfl
  made_le := Nat.le_refl 0
  inside := by
    rw [boot_memory.1]
    exact Nat.le_trans (Nat.le_add_right _ Cell.size) d.heapStart_le_initial
  laid :=
    { limit := rfl
      pages := by
        rw [Memory.pages, boot_memory.1, Nat.mul_div_cancel _ (by decide)]
      pages_le := by
        rw [Memory.pages, boot_memory.1, Nat.mul_div_cancel _ (by decide)]
        exact StaticData.initialPages_le small
      data := boot_memory.2
      cells := nofun }
  top := rfl

/-! ## The run -/

namespace Expr

theorem mem_symbols_data (e : Expr) {x : Name} (hx : x ∈ e.freeOccurrences []) :
    x ∈ e.data.symbols :=
  StaticData.mem_symbols_extend.2 (Or.inr hx)

/-- The execution of the function `run` of a compiled expression. -/
def execution (e : Expr) (host : Host H) (h : H) : Run H :=
  traceCall e.program host callLimit Support.entry [] [] (boot e.program h)

theorem result_execution (e : Expr) :
    (e.execution host h).result =
      invoke e.program host callLimit Support.entry (boot e.program h) :=
  result_traceCall ..

/-- The run of a compiled expression realizes the outcome of evaluating it. -/
theorem realizes_execution {e : Expr} (within : e.WithinLimits) (host : Host H) (h : H) :
    (e.execution host h).Realizes e.data host 0 e.cells 0 (boot e.program h) e.eval := by
  have small : e.data.size ≤ StaticData.limit := by
    rw [size_data]
    exact within.2
  have heap : HeapAt e.data 0 0 [] (boot e.program h).globals (boot e.program h).memory :=
    heapAt_boot small
  have body : (traceCode (traceCall e.program host 999 · [Support.entry]) [Support.entry] e.mainCode
      [] ⟨.run, [], ((List.replicate e.lets .i32).map Val.zero).toArray, (boot e.program h).globals,
        (boot e.program h).memory, h⟩).Realizes e.data host 0 e.cells 0 ⟨.run, [],
        ((List.replicate e.lets .i32).map Val.zero).toArray, (boot e.program h).globals,
        (boot e.program h).memory, h⟩ (e.evalIn .empty) := by
    refine simulated e (by decide) heap .empty ?_ fun x hx => e.mem_symbols_data hx
    simp
  rw [← eval_eq_evalIn] at body
  refine (meets_traceCall [] rfl (Nat.not_lt.2 (by decide : 3 ≤ 12)) rfl rfl).2 ?_
  exact meets_append.2 (body.meets_return (by decide) rfl)

end Expr

end Twofold
