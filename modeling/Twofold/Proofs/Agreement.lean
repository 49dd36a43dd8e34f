import Twofold.Proofs.CrossCheck
import Twofold.Proofs.Execution

/-!
# Both evaluations agree

An expression within the limits of compilation, whose values fit into the memory, has the same
outcome whether it is compiled and run or evaluated by substitution: the same value bit by bit, or
a fault of the same kind with the same words.
-/

namespace Twofold

open Wasm Cell Machine

namespace Expr

/-- A run ends with the value of the expression, with a fault for its failure, or because the memory
does not suffice. -/
theorem execute_cases {e : Expr} (within : e.WithinLimits) :
    (∃ v, e.eval = .ok v ∧ Reference.execute e.program = .ok v) ∨
      (∃ err fault, e.eval = .error err ∧ Reference.execute e.program = .error (.fault fault) ∧
        fault.kind = err.kind ∧ fault.message = err.message) ∨
      Program.maxPages * pageSize < address e.data.heapStart e.cells ∧
        Reference.execute e.program = .error (.unreportedTrap Trap.unreachable.message) := by
  have ends := (realizes_execution within Reference.host none).2
  rw [result_execution] at ends
  unfold Reference.execute
  cases hr : invoke e.program Reference.host callLimit Support.entry (boot e.program none) with
  | ok _ s =>
    rw [hr] at ends
    obtain ⟨v, hv, -, -, hi, heap, stored, -, -, -⟩ := ends
    have read := heap.readValue_eq hi stored
    exact Or.inl ⟨v, hv, by simp [Reference.result, boot, read]⟩
  | error t s =>
    rw [hr] at ends
    obtain ⟨rfl, stopped⟩ := ends
    generalize hs : s.host = reported at stopped
    cases stopped with
    | exhausted full =>
      rw [Nat.zero_add] at full
      exact Or.inr (Or.inr ⟨full, by simp [Reference.result, hs, boot]⟩)
    | reported fails report =>
      obtain ⟨fault, read, kind, message⟩ := report.reads
      have host : s.host = some (.ok fault) := hs.trans read
      exact Or.inr (Or.inl ⟨_, fault, fails, by simp [Reference.result, host], kind, message⟩)

/-- Within the limits, and with memory for all cells, the compiled expression gives what evaluation
gives. -/
theorem reference_cases {e : Expr} (within : e.WithinLimits)
    (fits : (e.dataSize + 7) / 8 * 8 + 12 * e.cells ≤ 2 ^ 24) :
    (∃ v, e.eval = .ok v ∧ Reference.eval e = .ok v) ∨
      ∃ err fault, e.eval = .error err ∧ Reference.eval e = .error (.fault fault) ∧
        fault.kind = err.kind ∧ fault.message = err.message := by
  have room : address e.data.heapStart e.cells ≤ Program.maxPages * pageSize := by
    rw [address, StaticData.heapStart, size_data]
    exact fits
  have reference : Reference.eval e = Reference.execute e.program := by
    rw [Reference.eval, compile_eq_program within]
  rw [reference]
  rcases execute_cases within with valued | failed | ⟨full, -⟩
  · exact Or.inl valued
  · exact Or.inr failed
  · exact absurd room (Nat.not_le.2 full)

/-- Within the limits, and with memory for all cells, both evaluations have the same outcome. -/
theorem outcome_reference_eq {e : Expr} (within : e.WithinLimits)
    (fits : (e.dataSize + 7) / 8 * 8 + 12 * e.cells ≤ 2 ^ 24) :
    Outcome.ofResult ReferenceError.message (Reference.eval e) =
      Outcome.ofResult EvalError.message e.eval := by
  rcases reference_cases within fits with ⟨v, valued, run⟩ | ⟨err, fault, failed, run, -, message⟩
  · rw [valued, run]
    rfl
  · rw [failed, run]
    simp only [Outcome.ofResult, ReferenceError.message, message]

/-- Running the compiled expression gives the outcome of evaluation, and a cross-check finds no
disagreement. -/
theorem reference_eq_eval {e : Expr} (locals : e.lets ≤ 50000) (data : e.dataSize ≤ 8388608)
    (heap : (e.dataSize + 7) / 8 * 8 + 12 * e.cells ≤ 2 ^ 24) :
    (∀ v, e.eval = .ok v → Reference.eval e = .ok v) ∧
      (∀ err, e.eval = .error err → ∃ fault, Reference.eval e = .error (.fault fault) ∧
        fault.kind = err.kind ∧ fault.message = err.message) ∧
      Trial.check e =
        .ok ⟨.ofResult EvalError.message e.eval, Trial.kindOf EvalError.kind e.eval⟩ := by
  have within : e.WithinLimits := ⟨locals, data⟩
  have agreed := Trial.check_eq_ok_iff.2 ⟨outcome_reference_eq within heap, rfl⟩
  rcases reference_cases within heap with ⟨v, valued, run⟩ | ⟨err, fault, failed, run, words⟩
  · refine ⟨?_, ?_, agreed⟩
    · simp [valued, run]
    · simp [valued]
  · refine ⟨?_, ?_, agreed⟩
    · simp [failed]
    · simp [failed, run, words]

/-- A binding, a choice with a branch that is not taken, and a free name in that branch. -/
theorem reference_eq_eval_choice :
    Reference.eval (letIn "p" (pair (bool true) (num ⟨0⟩))
      (ite (head (var "p")) (tail (var "p")) (var "q"))) = .ok (.num ⟨0⟩) :=
  (reference_eq_eval (by decide) (by decide) (by decide)).1 _ (by rw [eval_eq_evalIn]; rfl)

end Expr

end Twofold
