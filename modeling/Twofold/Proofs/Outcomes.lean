import Twofold.Eval
import Twofold.Proofs.Allocation
import Twofold.Reference.Run

/-!
# Outcomes of executions

An execution realizes the outcome of an evaluation if it keeps the heap in order and either leaves
the address of a cell with the value, or stops: after a report to the host that reads as the
failure, or because the memory is exhausted. All functions of a compiled expression and its own code
are described in this way, with the number of cells that they may take.
-/

namespace Twofold

open Wasm Cell Machine

variable {H : Type}

/-- From the state `s₀` with `c` cells, a value has been left on top of the operands, and at most
`n` cells and no locals below `next` were used for it. -/
inductive Leaves (d : StaticData) (c n next : Nat) (s₀ : Machine H) (v : Value) :
    List Return → Machine H → Prop
  | mk {c' i : Nat} {rs : List Return} {ls gs : Array Val} {mem : Memory} (first : c ≤ c')
      (few : c' ≤ c + n) (hi : i < c') (heap : HeapAt d c' c' rs gs mem)
      (stored : Stored mem.bytes d.heapStart i v)
      (kept : Bytes.Keeps (address d.heapStart c) s₀.memory.bytes mem.bytes)
      (size : ls.size = s₀.locals.size) (locals : ∀ j < next, ls[j]? = s₀.locals[j]?) :
      Leaves d c n next s₀ v rs
        ⟨.run, .i32 (UInt32.ofNat (address d.heapStart i)) :: s₀.stack, ls, gs, mem, s₀.host⟩

/-- A report to the host that reads as a failure of evaluation. -/
structure Reports (f : Nat) (args : List Val) (mem : Memory) (err : EvalError) : Prop where
  reads : ∃ fault, Reference.readReport mem.bytes f args = some (.ok fault) ∧
    fault.kind = err.kind ∧ fault.message = err.message

/-- The state of the host, `h` before, when an execution stops that would have taken up to the cell
with number `c`. -/
inductive Stopped (d : StaticData) (host : Host H) (c : Nat) (h : H)
    (outcome : Except EvalError Value) : H → Prop
  | exhausted (full : Program.maxPages * pageSize < address d.heapStart c) :
      Stopped d host c h outcome h
  | reported {err : EvalError} {f : Nat} {args : List Val} {mem : Memory}
      (fails : outcome = .error err) (report : Reports f args mem err) :
      Stopped d host c h outcome (host f args mem h)

theorem Stopped.mono {d : StaticData} {host : Host H} {c c' : Nat} {h h' : H}
    {o o' : Except EvalError Value} (hs : Stopped d host c h o h') (hc : c ≤ c')
    (ho : ∀ err, o = .error err → o' = .error err) : Stopped d host c' h o' h' := by
  cases hs with
  | exhausted full => exact .exhausted (Nat.lt_of_lt_of_le full (address_le _ hc))
  | reported fails report => exact .reported (ho _ fails) report

/-- The way in which an execution that fails or runs out of memory stops. -/
def Halts (d : StaticData) (host : Host H) (c : Nat) (h : H) (outcome : Except EvalError Value)
    (t : Trap) (_ : List Return) (s : Machine H) : Prop :=
  t = .unreachable ∧ Stopped d host c h outcome s.host

theorem Halts.mono {d : StaticData} {host : Host H} {c c' : Nat} {h : H}
    {o o' : Except EvalError Value} {t : Trap} {rs : List Return} {s : Machine H}
    (hs : Halts d host c h o t rs s) (hc : c ≤ c') (ho : ∀ err, o = .error err → o' = .error err) :
    Halts d host c' h o' t rs s :=
  ⟨hs.1, hs.2.mono hc ho⟩

/-- The execution has the outcome of an evaluation. -/
def Wasm.Run.Realizes (r : Run H) (d : StaticData) (host : Host H) (c n next : Nat)
    (s₀ : Machine H) (outcome : Except EvalError Value) : Prop :=
  r.Meets (Sound d) (fun rs s => ∃ v, outcome = .ok v ∧ Leaves d c n next s₀ v rs s)
    (Halts d host (c + n) s₀.host outcome)

end Twofold
