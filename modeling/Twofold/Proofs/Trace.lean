import Mathlib
import Twofold.Wasm.Machine

/-!
# Executions and their points

The machine says what a function does to the state, not what happens on the way. Here the same
execution also lists the points it passes: the state before every instruction that is executed, with
the functions that are being executed and the calls that have returned by then. Forgetting the
points gives back the machine (`result_traceCall`).
-/

namespace Twofold.Wasm

/-- A call that has returned: the function, and what it left on the stack, the topmost first. -/
structure Return where
  func : Nat
  results : List Val

/-- A point of an execution. -/
structure Point (H : Type) where
  /-- The functions that are being executed, the innermost first. -/
  calls : List Nat
  /-- The calls that have returned so far, the latest first. -/
  returns : List Return
  /-- The instruction that is executed next; none at the end of a body. -/
  next : Option Instr
  state : Machine H

/-- An execution: the points it passes, the calls that have returned, and how it ends. -/
structure Run (H : Type) where
  points : List (Point H)
  returns : List Return
  result : EStateM.Result Trap (Machine H) Unit

namespace Run

variable {H : Type}

/-- Passes a point before the execution. -/
def passing (p : Point H) (r : Run H) : Run H := { r with points := p :: r.points }

/-- Goes on, unless the execution has stopped. -/
def andThen (r : Run H) (k : List Return → Machine H → Run H) : Run H :=
  match r.result with
  | .ok _ s =>
    ⟨r.points ++ (k r.returns s).points, (k r.returns s).returns, (k r.returns s).result⟩
  | .error _ _ => r

end Run

namespace Machine

variable {H : Type}

/-- The execution of an instruction, given that of calls. -/
def traceStep (call : Nat → List Return → Machine H → Run H) (i : Instr) (rs : List Return)
    (s : Machine H) : Run H :=
  match i with
  | .call f => call f rs s
  | i => ⟨[], rs, perform (fun _ => throw .invalid) i s⟩

/-- The execution of a sequence of instructions. -/
def traceCode (call : Nat → List Return → Machine H → Run H) (calls : List Nat) :
    List Instr → List Return → Machine H → Run H
  | [], rs, s => ⟨[], rs, .ok () s⟩
  | i :: is, rs, s =>
    match s.control with
    | .run =>
      ((traceStep call i rs s).passing ⟨calls, rs, some i, s⟩).andThen (traceCode call calls is)
    | .skip depth toElse => traceCode call calls is rs { s with control := .pass depth toElse i }

/-- Ends the execution of the body of `f` and goes back to its caller, whose state was `s`. -/
def traceReturn (f : Nat) (calls : List Nat) (results : Nat) (s : Machine H) (rs : List Return)
    (t : Machine H) : Run H where
  points := [⟨f :: calls, rs, none, t⟩]
  returns := ⟨f, t.stack.take results⟩ :: rs
  result := .ok ()
    ⟨.run, t.stack.take results ++ s.stack, s.locals, t.globals, t.memory, t.host⟩

/-- The execution of the function with index `f`, in at most `depth` nested calls. -/
def traceCall (m : Module) (host : Host H) :
    (depth f : Nat) → (calls : List Nat) → List Return → Machine H → Run H
  | 0, _, _, rs, s => ⟨[], rs, .error .callStackExhausted s⟩
  | depth + 1, f, calls, rs, s =>
    match m.typeOf? f with
    | none => ⟨[], rs, .error .invalid s⟩
    | some t =>
      match popArgs t.params.length s with
      | .error e s => ⟨[], rs, .error e s⟩
      | .ok args s =>
        if f < m.imports.length then ⟨[], rs, callHost host f args s⟩
        else
          match m.funcs[f - m.imports.length]? with
          | none => ⟨[], rs, .error .invalid s⟩
          | some fn =>
            (traceCode (traceCall m host depth · (f :: calls)) (f :: calls) fn.body rs
              ⟨.run, [], (args ++ fn.locals.map Val.zero).toArray, s.globals, s.memory,
                s.host⟩).andThen (traceReturn f calls t.results.length s)

/-! ## The points are all that is added -/

theorem result_andThen (r : Run H) (k : List Return → Machine H → Run H) :
    (r.andThen k).result = match r.result with
      | .ok _ s => (k r.returns s).result
      | .error t s => .error t s := by
  cases h : r.result <;> simp [Run.andThen, h]

theorem result_traceStep {call : Nat → List Return → Machine H → Run H} {inv : Nat → Exec H Unit}
    (h : ∀ f rs s, (call f rs s).result = inv f s) (i : Instr) (rs : List Return) (s : Machine H) :
    (traceStep call i rs s).result = perform inv i s := by
  cases i with
  | call f => exact h f rs s
  | _ => rfl

theorem result_traceCode {call : Nat → List Return → Machine H → Run H} {inv : Nat → Exec H Unit}
    (h : ∀ f rs s, (call f rs s).result = inv f s) (calls : List Nat) (is : List Instr)
    (rs : List Return) (s : Machine H) :
    (traceCode call calls is rs s).result = exec inv is s := by
  induction is generalizing rs s with
  | nil => rfl
  | cons i is ih =>
    have unfolded : exec inv (i :: is) s = match step inv i s with
        | .ok _ t => exec inv is t
        | .error t u => .error t u := by
      show EStateM.bind (step inv i) (fun _ => exec inv is) s = _
      rw [EStateM.bind]
      cases step inv i s <;> rfl
    rw [unfolded, traceCode]
    cases hc : s.control with
    | run =>
      have executed : step inv i s = perform inv i s := by
        show (match s.control with
          | .run => perform inv i
          | .skip depth toElse => setControl (.pass depth toElse i)) s = _
        rw [hc]
      simp only [result_andThen, Run.passing, result_traceStep h, executed]
      cases perform inv i s with
      | ok _ t => exact ih _ t
      | error t u => rfl
    | skip depth toElse =>
      have passed : step inv i s = .ok () { s with control := .pass depth toElse i } := by
        show (match s.control with
          | .run => perform inv i
          | .skip depth toElse => setControl (.pass depth toElse i)) s = _
        rw [hc]
        rfl
      simp only [passed, ih]

/-- Without its points, an execution is that of the machine. -/
theorem result_traceCall (m : Module) (host : Host H) (depth f : Nat) (calls : List Nat)
    (rs : List Return) (s : Machine H) :
    (traceCall m host depth f calls rs s).result = invoke m host depth f s := by
  induction depth generalizing f calls rs s with
  | zero => rfl
  | succ depth ih =>
    rw [traceCall, invoke]
    cases ht : m.typeOf? f with
    | none => rfl
    | some t =>
      simp only [bind, EStateM.bind]
      cases popArgs t.params.length s with
      | error e u => rfl
      | ok args u =>
        by_cases himport : f < m.imports.length
        · simp only [himport, if_true]
        · simp only [himport, if_false]
          cases m.funcs[f - m.imports.length]? with
          | none => rfl
          | some fn =>
            simp only [result_andThen, within]
            rw [result_traceCode fun g rs s => ih g (f :: calls) rs s]
            cases exec (invoke m host depth) fn.body _ <;> rfl

end Machine

end Twofold.Wasm
