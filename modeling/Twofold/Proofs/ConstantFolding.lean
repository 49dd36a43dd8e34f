import Twofold.Proofs.Environment

/-!
# Constants in place of expressions

An environment that provides more names changes an evaluation only where it failed at one of these
names. So an expression that has a value on its own has this value in every environment, and may be
exchanged for the constant wherever it stands, also below bindings of the names that it leaves open.
-/

namespace Twofold

namespace Env

/-- The names that `ρ` provides stand for the same values in `ρ'`. -/
def Extends (ρ' ρ : Env) : Prop := ∀ x v, ρ x = some v → ρ' x = some v

theorem extends_empty (ρ : Env) : ρ.Extends .empty := by
  intro x v known
  cases known

theorem Extends.bind {ρ ρ' : Env} (h : ρ'.Extends ρ) (x : Name) (v : Value) :
    (ρ'.bind x v).Extends (ρ.bind x v) := by
  intro y w known
  by_cases same : y = x
  · simpa [Env.bind, same] using known
  · simp only [Env.bind, same, if_false] at known ⊢
    exact h y w known

/-- The second result is the first one, unless that is the failure at a name that only `ρ'`
provides. -/
def Resolves {α : Type} (ρ ρ' : Env) (r r' : Except EvalError α) : Prop :=
  r' = r ∨ ∃ x, ρ x = none ∧ ρ' x ≠ none ∧ r = .error (.unbound x)

namespace Resolves

variable {α β : Type} {ρ ρ' : Env}

theorem refl (r : Except EvalError α) : Resolves ρ ρ' r r := Or.inl rfl

theorem bind {r r' : Except EvalError α} {f f' : α → Except EvalError β} (h : Resolves ρ ρ' r r')
    (hf : ∀ a, Resolves ρ ρ' (f a) (f' a)) : Resolves ρ ρ' (r >>= f) (r' >>= f') := by
  rcases h with rfl | ⟨x, free, known, failed⟩
  · cases r' with
    | error err => exact refl _
    | ok a => exact hf a
  · refine Or.inr ⟨x, free, known, ?_⟩
    rw [failed]
    rfl

/-- A binding provides its name to both evaluations, so neither fails at it. -/
theorem of_bind {r r' : Except EvalError α} {x : Name} {v : Value}
    (h : Resolves (ρ.bind x v) (ρ'.bind x v) r r') : Resolves ρ ρ' r r' := by
  rcases h with same | ⟨y, free, known, failed⟩
  · exact Or.inl same
  · have other : y ≠ x := by
      rintro rfl
      simp [Env.bind] at free
    simp only [Env.bind, other, if_false] at free known
    exact Or.inr ⟨y, free, known, failed⟩

end Resolves

end Env

namespace Expr

open Env

/-- A larger environment changes an evaluation only by providing the name at which it failed. -/
theorem resolves_evalIn (e : Expr) {ρ ρ' : Env} (h : ρ'.Extends ρ) :
    Resolves ρ ρ' (e.evalIn ρ) (e.evalIn ρ') := by
  induction e generalizing ρ ρ' with
  | num n => exact .refl _
  | bool b => exact .refl _
  | var x =>
    cases known : ρ x with
    | some v => simp [evalIn, known, h x v known, Resolves.refl]
    | none =>
      cases known' : ρ' x with
      | none => simp [evalIn, known, known', Resolves.refl]
      | some v => exact Or.inr ⟨x, known, by simp [known'], by simp [evalIn, known]⟩
  | letIn x a b iha ihb =>
    rw [evalIn, evalIn]
    exact (iha h).bind fun v => (ihb (h.bind x v)).of_bind
  | ite a b c iha ihb ihc =>
    rw [evalIn, evalIn]
    refine (iha h).bind fun v => ?_
    cases v with
    | num n => exact .refl _
    | bool t =>
      cases t with
      | true => exact ihb h
      | false => exact ihc h
    | pair v w => exact .refl _
  | add a b iha ihb | le a b iha ihb | pair a b iha ihb =>
    rw [evalIn, evalIn]
    exact (iha h).bind fun v => (ihb h).bind fun w => .refl _
  | head a iha | tail a iha =>
    rw [evalIn, evalIn]
    exact (iha h).bind fun v => .refl _

/-- A value that an expression has on its own is its value in every environment. -/
theorem evalIn_of_eval {e : Expr} {v : Value} (h : e.eval = .ok v) (ρ : Env) :
    e.evalIn ρ = .ok v := by
  rw [eval_eq_evalIn] at h
  rcases e.resolves_evalIn ρ.extends_empty with same | ⟨x, -, -, failed⟩
  · rw [same, h]
  · rw [h] at failed
    cases failed

end Expr

/-! ## Contexts -/

/-- A node of an expression with one of its parts left out. -/
inductive Frame where
  | addLeft (right : Expr)
  | addRight (left : Expr)
  | leLeft (right : Expr)
  | leRight (left : Expr)
  | letBound (x : Name) (body : Expr)
  | letBody (x : Name) (bound : Expr)
  | iteTest (yes no : Expr)
  | iteYes (test no : Expr)
  | iteNo (test yes : Expr)
  | pairFirst (second : Expr)
  | pairSecond (first : Expr)
  | head
  | tail
deriving DecidableEq, Repr

/-- Puts an expression in the place that was left out, where the node may bind its names. -/
def Frame.fill : Frame → Expr → Expr
  | addLeft b, e => .add e b
  | addRight a, e => .add a e
  | leLeft b, e => .le e b
  | leRight a, e => .le a e
  | letBound x b, e => .letIn x e b
  | letBody x a, e => .letIn x a e
  | iteTest b c, e => .ite e b c
  | iteYes a c, e => .ite a e c
  | iteNo a b, e => .ite a b e
  | pairFirst b, e => .pair e b
  | pairSecond a, e => .pair a e
  | head, e => .head e
  | tail, e => .tail e

/-- An expression with a hole: the nodes on the way to it, the outermost first. -/
abbrev Frames := List Frame

/-- Puts an expression into the hole. -/
def Frames.fill (c : Frames) (e : Expr) : Expr := c.foldr Frame.fill e

/-- A node does not tell apart parts with the same results. -/
theorem Frame.evalIn_fill_congr {e e' : Expr} (h : ∀ ρ, e.evalIn ρ = e'.evalIn ρ) (f : Frame)
    (ρ : Env) : (f.fill e).evalIn ρ = (f.fill e').evalIn ρ := by
  cases f <;> simp only [fill, Expr.evalIn, h]

theorem Frames.evalIn_fill_congr {e e' : Expr} (h : ∀ ρ, e.evalIn ρ = e'.evalIn ρ) (c : Frames)
    (ρ : Env) : (c.fill e).evalIn ρ = (c.fill e').evalIn ρ := by
  induction c generalizing ρ with
  | nil => exact h ρ
  | cons f c ih => exact f.evalIn_fill_congr ih ρ

namespace Expr

/-- An expression with a value may be exchanged for the constant in every context, and a constant
has the value that it denotes. -/
theorem eval_fill_toExpr {e : Expr} {v : Value} (h : e.eval = .ok v) :
    (∀ c : Frames, (c.fill e).eval = (c.fill v.toExpr).eval) ∧
      ∀ w : Value, w.toExpr.eval = .ok w := by
  refine ⟨fun c => ?_, Value.eval_toExpr⟩
  have same : ∀ ρ, e.evalIn ρ = v.toExpr.evalIn ρ := by
    intro ρ
    rw [evalIn_of_eval h, evalIn_of_eval v.eval_toExpr]
  rw [eval_eq_evalIn, eval_eq_evalIn]
  exact c.evalIn_fill_congr same .empty

/-- A choice that leaves `x` open in the branch that it does not take, below two bindings of `x`
and in a branch that fails. -/
theorem eval_fill_toExpr_captured :
    (ite (bool true) (num ⟨0⟩) (var "x")).eval = .ok (.num ⟨0⟩) ∧
      (Frames.fill [.letBody "x" (bool false), .iteNo (var "x") (num ⟨0⟩),
          .letBody "x" (pair (bool true) (var "x")), .addRight (var "x")]
        (ite (bool true) (num ⟨0⟩) (var "x"))).eval =
      (Frames.fill [.letBody "x" (bool false), .iteNo (var "x") (num ⟨0⟩),
          .letBody "x" (pair (bool true) (var "x")), .addRight (var "x")] (num ⟨0⟩)).eval := by
  have value : (ite (bool true) (num ⟨0⟩) (var "x")).eval = .ok (.num ⟨0⟩) := by
    rw [eval_eq_evalIn]
    rfl
  exact ⟨value, (eval_fill_toExpr value).1 _⟩

end Expr

end Twofold
