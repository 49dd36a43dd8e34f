import Twofold.Proofs.Environment
import Twofold.Proofs.FreeNames

/-!
# Failures of evaluation

What evaluation reports is so: an operator complains about an operand that it really does not take,
and of two operands about the left one unless that is in order. A name that is reported as unbound
occurs free, and nothing provides it. No failure is internal.
-/

namespace Twofold

namespace EvalError

/-- The operator is one of those that check their operands, and the operand is not what it takes. -/
def Truthful : EvalError → Prop
  | unbound _ | nonBooleanTest => True
  | typeMismatch operator position given other =>
    (operator = Primitive.name .add ∨ operator = Primitive.name .le) ∧ (∀ n, given ≠ .num n) ∧
      (position = 1 ∨ position = 2 ∧ ∃ n, other = .num n)
  | notAPair operator given =>
    (operator = Primitive.name .head ∨ operator = Primitive.name .tail) ∧
      ∀ first second, given ≠ .pair first second
  | internal _ => False

theorem Truthful.kind_ne_internal {err : EvalError} (h : err.Truthful) : err.kind ≠ .internal := by
  cases err with
  | internal what => exact absurd h id
  | unbound | nonBooleanTest | typeMismatch | notAPair => simp [kind]

/-- Every failure of a result is truthful, and the names that are reported as unbound are among
`names` and not provided by `ρ`. -/
def AllTruthful {α : Type} (ρ : Env) (names : List Name) (r : Except EvalError α) : Prop :=
  ∀ err, r = .error err → err.Truthful ∧ ∀ x, err = .unbound x → ρ x = none ∧ x ∈ names

namespace AllTruthful

variable {α β : Type} {ρ : Env} {names names' : List Name}

theorem ok (a : α) : AllTruthful ρ names (.ok a) := by
  intro err failed
  cases failed

theorem error {err : EvalError} (h : err.Truthful) (other : ∀ x, err ≠ .unbound x) :
    AllTruthful ρ names (.error err : Except _ α) := by
  intro err' failed
  cases failed
  exact ⟨h, fun x unbound => absurd unbound (other x)⟩

theorem unbound {x : Name} (missing : ρ x = none) (listed : x ∈ names) :
    AllTruthful ρ names (.error (.unbound x) : Except _ α) := by
  intro err failed
  cases failed
  refine ⟨trivial, fun y same => ?_⟩
  cases same
  exact ⟨missing, listed⟩

theorem widen {r : Except EvalError α} (h : AllTruthful ρ names r) (sub : names ⊆ names') :
    AllTruthful ρ names' r := by
  intro err failed
  obtain ⟨truthful, named⟩ := h err failed
  exact ⟨truthful, fun x unbound => ⟨(named x unbound).1, sub (named x unbound).2⟩⟩

/-- What a smaller environment does not provide, because a larger one does not. -/
theorem of_bind {r : Except EvalError α} {y : Name} {v : Value}
    (h : AllTruthful (ρ.bind y v) names r) : AllTruthful ρ names r := by
  intro err failed
  obtain ⟨truthful, named⟩ := h err failed
  refine ⟨truthful, fun x unbound => ?_⟩
  obtain ⟨missing, listed⟩ := named x unbound
  by_cases same : x = y
  · simp [Env.bind, same] at missing
  · rw [Env.bind, if_neg same] at missing
    exact ⟨missing, listed⟩

theorem bind {r : Except EvalError α} {f : α → Except EvalError β} (h : AllTruthful ρ names r)
    (hf : ∀ a, AllTruthful ρ names (f a)) : AllTruthful ρ names (r >>= f) := by
  cases r with
  | error err =>
    intro err' failed
    cases failed
    exact h err rfl
  | ok a => exact hf a

theorem numeric {operator : String}
    (known : operator = Primitive.name .add ∨ operator = Primitive.name .le)
    (op : Number → Number → Value) (v w : Value) :
    AllTruthful ρ names (Value.numeric operator op v w) := by
  cases v with
  | bool | pair => exact error ⟨known, nofun, Or.inl rfl⟩ nofun
  | num m =>
    cases w with
    | num n => exact ok _
    | bool | pair => exact error ⟨known, nofun, Or.inr ⟨rfl, m, rfl⟩⟩ nofun

theorem head (v : Value) : AllTruthful ρ names v.head := by
  cases v with
  | pair a b => exact ok a
  | num | bool => exact error ⟨Or.inl rfl, nofun⟩ nofun

theorem tail (v : Value) : AllTruthful ρ names v.tail := by
  cases v with
  | pair a b => exact ok b
  | num | bool => exact error ⟨Or.inr rfl, nofun⟩ nofun

end AllTruthful

end EvalError

namespace Expr

open EvalError

/-- In an environment that provides at least the names in `bound`, an evaluation fails at a name
only if `bound` leaves an occurrence of it free. -/
theorem allTruthful_evalIn (e : Expr) {ρ : Env} (bound : List Name)
    (provided : ∀ x ∈ bound, ρ x ≠ none) :
    AllTruthful ρ (e.freeOccurrences bound) (e.evalIn ρ) := by
  induction e generalizing ρ bound with
  | num n => exact .ok _
  | bool b => exact .ok _
  | var x =>
    rw [evalIn]
    cases known : ρ x with
    | some v => exact .ok v
    | none =>
      have free : x ∉ bound := fun member => provided x member known
      exact .unbound known (by simp [freeOccurrences, free])
  | add a b iha ihb =>
    exact ((iha bound provided).widen (List.subset_append_left _ _)).bind fun v =>
      ((ihb bound provided).widen (List.subset_append_right _ _)).bind fun w =>
        .numeric (Or.inl rfl) _ v w
  | le a b iha ihb =>
    exact ((iha bound provided).widen (List.subset_append_left _ _)).bind fun v =>
      ((ihb bound provided).widen (List.subset_append_right _ _)).bind fun w =>
        .numeric (Or.inr rfl) _ v w
  | letIn y a b iha ihb =>
    refine ((iha bound provided).widen (List.subset_append_left _ _)).bind fun v => ?_
    have inside : ∀ x ∈ y :: bound, ρ.bind y v x ≠ none := by
      intro x member
      by_cases same : x = y
      · simp [Env.bind, same]
      · simpa [Env.bind, same] using provided x (List.mem_of_ne_of_mem same member)
    exact (ihb (y :: bound) inside).of_bind.widen (List.subset_append_right _ _)
  | ite a b c iha ihb ihc =>
    have left := List.subset_append_left (a.freeOccurrences bound ++ b.freeOccurrences bound)
      (c.freeOccurrences bound)
    refine (((iha bound provided).widen (List.subset_append_left _ _)).widen left).bind fun v => ?_
    cases v with
    | num | pair => exact .error trivial (by simp)
    | bool t =>
      cases t with
      | true => exact ((ihb bound provided).widen (List.subset_append_right _ _)).widen left
      | false => exact (ihc bound provided).widen (List.subset_append_right _ _)
  | pair a b iha ihb =>
    exact ((iha bound provided).widen (List.subset_append_left _ _)).bind fun v =>
      ((ihb bound provided).widen (List.subset_append_right _ _)).bind fun w => .ok _
  | head a iha => exact (iha bound provided).bind .head
  | tail a iha => exact (iha bound provided).bind .tail

/-- A failure of evaluation says what is so. -/
theorem truthful_of_eval {e : Expr} {err : EvalError} (h : e.eval = .error err) : err.Truthful := by
  rw [eval_eq_evalIn] at h
  exact (e.allTruthful_evalIn [] nofun err h).1

/-- An environment provides no name at which an evaluation in it fails. -/
theorem missing_of_evalIn {e : Expr} {ρ : Env} {x : Name}
    (h : e.evalIn ρ = .error (.unbound x)) : ρ x = none :=
  ((e.allTruthful_evalIn [] nofun _ h).2 x rfl).1

/-- A name at which an evaluation fails occurs free. -/
theorem mem_freeVars_of_eval {e : Expr} {x : Name} (h : e.eval = .error (.unbound x)) :
    x ∈ e.freeVars := by
  rw [eval_eq_evalIn] at h
  exact mem_freeVars.2 ((e.allTruthful_evalIn [] nofun _ h).2 x rfl).2

/-- A failure is never internal; a name that it reports is free, so there is none without free
names; and an operand that it reports is of the wrong kind for the operator, the left one of two
unless that is a number. -/
theorem eval_failure_classified {e : Expr} {err : EvalError} (h : e.eval = .error err) :
    (∀ what, err ≠ .internal what) ∧
      (∀ x, err = .unbound x → x ∈ e.freeVars) ∧
      (e.freeVars = ∅ → ∀ x, err ≠ .unbound x) ∧
      (∀ operator position given other, err = .typeMismatch operator position given other →
        (operator = "+" ∨ operator = "<=") ∧
          (position = 1 ∧ (∀ n, given ≠ .num n) ∨
            position = 2 ∧ (∀ n, given ≠ .num n) ∧ ∃ n, other = .num n)) ∧
      ∀ operator given, err = .notAPair operator given →
        (operator = "head" ∨ operator = "tail") ∧ ∀ first second, given ≠ .pair first second := by
  have truthful := truthful_of_eval h
  have free : ∀ x, err = .unbound x → x ∈ e.freeVars := by
    rintro x rfl
    exact mem_freeVars_of_eval h
  refine ⟨?_, free, ?_, ?_, ?_⟩
  · rintro what rfl
    exact truthful
  · intro closed x unbound
    have member := free x unbound
    rw [closed] at member
    exact NameSet.not_mem_empty x member
  · rintro operator position given other rfl
    obtain ⟨known, wrong, first | ⟨second, number⟩⟩ := truthful
    · exact ⟨known, Or.inl ⟨first, wrong⟩⟩
    · exact ⟨known, Or.inr ⟨second, wrong, number⟩⟩
  · rintro operator given rfl
    exact truthful

/-- A free name that is reached through a substituted test, beside the name of the binding; and an
operand that is substituted. -/
theorem eval_failure_classified_substituted :
    let e := letIn "x" (bool true) (ite (var "x") (var "y") (var "x"))
    let e' := letIn "p" (pair (num ⟨0⟩) (bool true)) (le (head (var "p")) (tail (var "p")))
    (e.eval = .error (.unbound "y") ∧ "y" ∈ e.freeVars) ∧
      e'.eval = .error (.typeMismatch "<=" 2 (.bool true) (.num ⟨0⟩)) ∧
      ("<=" = "+" ∨ "<=" = "<=") ∧
        (2 = 1 ∧ (∀ n, Value.bool true ≠ .num n) ∨
          2 = 2 ∧ (∀ n, Value.bool true ≠ .num n) ∧ ∃ n, Value.num ⟨0⟩ = .num n) := by
  intro e e'
  have unbound : e.eval = .error (.unbound "y") := by
    rw [eval_eq_evalIn]
    rfl
  have mismatch : e'.eval = .error (.typeMismatch "<=" 2 (.bool true) (.num ⟨0⟩)) := by
    rw [eval_eq_evalIn]
    rfl
  obtain ⟨-, free, -⟩ := eval_failure_classified unbound
  obtain ⟨-, -, -, operand, -⟩ := eval_failure_classified mismatch
  exact ⟨⟨unbound, free "y" rfl⟩, mismatch, operand _ _ _ _ rfl⟩

end Expr

end Twofold
