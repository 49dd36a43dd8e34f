import Twofold.Proofs.Environment

/-!
# How deep results are

Substitution copies values, so the expressions that an evaluation comes to can have far more pairs
than the one that it started with, and results can be deeper than that one is. But a pair is built
only where a pair is written, and a binding is not entered twice, so no value is deeper than the
pairs that are written. The induction is over evaluation in an environment: results are deeper than
the values of the environment by at most the number of pairs written.
-/

namespace Twofold

namespace Expr

/-- The number of pairs that are written. -/
def pairs : Expr → Nat
  | num _ | bool _ | var _ => 0
  | add a b | le a b | letIn _ a b => a.pairs + b.pairs
  | pair a b => 1 + a.pairs + b.pairs
  | ite a b c => a.pairs + b.pairs + c.pairs
  | head a | tail a => a.pairs

end Expr

/-! ## Results in an environment -/

/-- A value of the result, if it is one, is at most `n` deep. -/
def Shallow (n : Nat) (r : Except EvalError Value) : Prop := ∀ v, r = .ok v → v.toExpr.depth ≤ n

/-- What the names stand for is at most `n` deep. -/
def Env.Shallow (ρ : Env) (n : Nat) : Prop := ∀ x v, ρ x = some v → v.toExpr.depth ≤ n

theorem Env.shallow_empty : Env.empty.Shallow 0 := by
  intro x v known
  cases known

theorem Env.Shallow.bind {ρ : Env} {m n : Nat} {v : Value} (h : ρ.Shallow m) (more : m ≤ n)
    (hv : v.toExpr.depth ≤ n) (x : Name) : (ρ.bind x v).Shallow n := by
  intro y w known
  by_cases same : y = x
  · rw [Env.bind, if_pos same] at known
    cases known
    exact hv
  · rw [Env.bind, if_neg same] at known
    exact Nat.le_trans (h y w known) more

namespace Shallow

variable {m n : Nat}

theorem ok {v : Value} (h : v.toExpr.depth ≤ n) : Shallow n (.ok v) := by
  intro w same
  cases same
  exact h

theorem error (err : EvalError) : Shallow n (.error err) := by
  intro v same
  cases same

theorem mono {r : Except EvalError Value} (h : Shallow m r) (more : m ≤ n) : Shallow n r := by
  intro v same
  exact Nat.le_trans (h v same) more

theorem bind {r : Except EvalError Value} {f : Value → Except EvalError Value} (h : Shallow m r)
    (hf : ∀ v, v.toExpr.depth ≤ m → Shallow n (f v)) : Shallow n (r >>= f) := by
  cases r with
  | error err => exact error err
  | ok v => exact hf v (h v rfl)

/-- Operations on numbers build no pairs. -/
theorem numeric {operator : String} {op : Number → Number → Value}
    (flat : ∀ i j, (op i j).toExpr.depth = 0) (v w : Value) :
    Shallow n (Value.numeric operator op v w) := by
  cases v with
  | bool | pair => exact error _
  | num i =>
    cases w with
    | bool | pair => exact error _
    | num j =>
      refine ok ?_
      rw [flat i j]
      exact Nat.zero_le n

theorem head {v : Value} (h : v.toExpr.depth ≤ n) : Shallow n v.head := by
  cases v with
  | num | bool => exact error _
  | pair a b =>
    simp only [Value.toExpr, Expr.depth] at h
    exact ok (by omega)

theorem tail {v : Value} (h : v.toExpr.depth ≤ n) : Shallow n v.tail := by
  cases v with
  | num | bool => exact error _
  | pair a b =>
    simp only [Value.toExpr, Expr.depth] at h
    exact ok (by omega)

end Shallow

namespace Expr

/-- A result is deeper than the values of the environment by at most the number of pairs written. -/
theorem shallow_evalIn (e : Expr) {ρ : Env} {n : Nat} (h : ρ.Shallow n) :
    Shallow (n + e.pairs) (e.evalIn ρ) := by
  induction e generalizing ρ n with
  | num | bool => exact .ok (Nat.zero_le _)
  | var x =>
    rw [evalIn]
    cases known : ρ x with
    | none => exact .error _
    | some v => exact .ok (h x v known)
  | add a b iha ihb | le a b iha ihb =>
    exact (iha h).bind fun v _ => (ihb h).bind fun w _ => .numeric (fun _ _ => rfl) v w
  | letIn x a b iha ihb =>
    refine (iha h).bind fun v deep => ?_
    have inside := ihb (h.bind (Nat.le_add_right n a.pairs) deep x)
    rw [Nat.add_assoc] at inside
    exact inside
  | ite a b c iha ihb ihc =>
    refine (iha h).bind fun v _ => ?_
    cases v with
    | num | pair => exact .error _
    | bool t =>
      cases t with
      | true => exact (ihb h).mono (by simp only [pairs]; omega)
      | false => exact (ihc h).mono (by simp only [pairs]; omega)
  | pair a b iha ihb =>
    refine (iha h).bind fun v first => (ihb h).bind fun w second => .ok ?_
    simp only [Value.toExpr, depth, pairs]
    omega
  | head a iha => exact (iha h).bind fun v deep => .head deep
  | tail a iha => exact (iha h).bind fun v deep => .tail deep

/-! ## Results on the way -/

/-- The evaluation of an expression calls itself on another one: an operand, a test or a branch, the
bound expression of a binding, or its body with the value of the bound expression substituted;
unlike in `CalledBy`, that value is no other. -/
inductive Calls : Expr → Expr → Prop
  | addLeft (a b : Expr) : Calls (add a b) a
  | addRight (a b : Expr) : Calls (add a b) b
  | leLeft (a b : Expr) : Calls (le a b) a
  | leRight (a b : Expr) : Calls (le a b) b
  | bound (x : Name) (a b : Expr) : Calls (letIn x a b) a
  | body (x : Name) {a : Expr} (b : Expr) {v : Value} (value : a.eval = .ok v) :
      Calls (letIn x a b) (b.subst x v)
  | test (a b c : Expr) : Calls (ite a b c) a
  | yes (a b c : Expr) : Calls (ite a b c) b
  | no (a b c : Expr) : Calls (ite a b c) c
  | first (a b : Expr) : Calls (pair a b) a
  | second (a b : Expr) : Calls (pair a b) b
  | head (a : Expr) : Calls (head a) a
  | tail (a : Expr) : Calls (tail a) a

/-- The expression is one with values substituted in it, and the values are so deep, and so many
pairs were written, that together they make at most `n`. -/
def Bounded (n : Nat) (e : Expr) : Prop :=
  ∃ (written : Expr) (ρ : Env) (m : Nat),
    e = written.substAll ρ ∧ ρ.Shallow m ∧ m + written.pairs ≤ n

theorem bounded_pairs (e : Expr) : Bounded e.pairs e :=
  ⟨e, .empty, 0, (substAll_eq_self e fun _ => rfl).symm, Env.shallow_empty,
    Nat.le_of_eq (Nat.zero_add _)⟩

/-- A value that has been substituted counts by its depth. -/
theorem bounded_toExpr {v : Value} {n : Nat} (h : v.toExpr.depth ≤ n) : Bounded n v.toExpr := by
  refine ⟨var "x", Env.empty.bind "x" v, n, ?_, ?_, Nat.le_refl n⟩
  · simp [substAll, Env.bind]
  · exact Env.shallow_empty.bind (Nat.zero_le n) h "x"

theorem Bounded.shallow {n : Nat} {e : Expr} (h : Bounded n e) : Shallow n e.eval := by
  obtain ⟨written, ρ, m, rfl, shallow, few⟩ := h
  rw [eval_substAll]
  exact (written.shallow_evalIn shallow).mono few

/-- Every call is on an expression within the same bound. The body of a binding has the pairs of the
bound expression no longer written in it, but the value of that is no deeper than they are many. -/
theorem Bounded.of_calls {n : Nat} {e callee : Expr} (h : Bounded n e) (called : Calls e callee) :
    Bounded n callee := by
  obtain ⟨written, ρ, m, rfl, shallow, few⟩ := h
  have part {a : Expr} (fewer : a.pairs ≤ written.pairs) : Bounded n (a.substAll ρ) :=
    ⟨a, ρ, m, rfl, shallow, by omega⟩
  cases written with
  | num | bool => cases called
  | var x =>
    -- What was substituted is a value, and the calls are on its components.
    rw [substAll] at called
    cases known : ρ x with
    | none =>
      rw [known] at called
      cases called
    | some v =>
      have deep := Nat.le_trans (shallow x v known) (Nat.le_trans (Nat.le_add_right m _) few)
      rw [known] at called
      cases v with
      | num | bool => cases called
      | pair a b =>
        simp only [Value.toExpr, depth] at deep
        cases called with
        | first => exact bounded_toExpr (by omega)
        | second => exact bounded_toExpr (by omega)
  | add a b | le a b | pair a b =>
    cases called
    all_goals exact part (by simp only [pairs]; omega)
  | letIn x a b =>
    cases called with
    | bound => exact part (by simp only [pairs]; omega)
    | @body _ _ _ v value =>
      rw [eval_substAll] at value
      have deep := a.shallow_evalIn shallow v value
      rw [subst_substAll x v b (Env.hide_self ρ x), Env.bind_hide_self]
      refine ⟨b, _, _, rfl, shallow.bind (Nat.le_add_right m a.pairs) deep x, ?_⟩
      rw [Nat.add_assoc]
      exact few
  | ite a b c =>
    cases called
    all_goals exact part (by simp only [pairs]; omega)
  | head a | tail a =>
    cases called
    exact part (Nat.le_refl _)

theorem Bounded.of_reaches {n : Nat} {e callee : Expr} (h : Bounded n e)
    (reached : Relation.ReflTransGen Calls e callee) : Bounded n callee := by
  induction reached with
  | refl => exact h
  | tail _ called ih => exact ih.of_calls called

end Expr

/-! ## Results as deep as can be -/

/-- A value twice. -/
def Value.twice (v : Value) : Value := pair v v

theorem Value.depth_twice (v : Value) (n : Nat) :
    (twice^[n] v).toExpr.depth = v.toExpr.depth + n := by
  induction n generalizing v with
  | zero => rfl
  | succ n ih =>
    rw [Function.iterate_succ_apply, ih]
    simp only [twice, toExpr, Expr.depth, Nat.max_self]
    omega

namespace Expr

/-- Takes what `x` stands for twice, and does so again and again, twice as often at every level. -/
def doubling : Nat → Expr
  | 0 => pair (var "x") (var "x")
  | n + 1 => letIn "x" (doubling n) (doubling n)

theorem depth_doubling (n : Nat) : (doubling n).depth = n + 1 := by
  induction n with
  | zero => rfl
  | succ n ih =>
    rw [doubling, depth, ih, Nat.max_self]
    omega

theorem pairs_doubling (n : Nat) : (doubling n).pairs = 2 ^ n := by
  induction n with
  | zero => rfl
  | succ n ih =>
    rw [doubling, pairs, ih, pow_succ]
    omega

theorem evalIn_doubling (n : Nat) {ρ : Env} {v : Value} (known : ρ "x" = some v) :
    (doubling n).evalIn ρ = .ok (Value.twice^[2 ^ n] v) := by
  induction n generalizing ρ v with
  | zero =>
    rw [doubling, evalIn, evalIn, known]
    rfl
  | succ n ih =>
    have inside : ρ.bind "x" (Value.twice^[2 ^ n] v) "x" = some (Value.twice^[2 ^ n] v) :=
      if_pos rfl
    have twofold : 2 ^ (n + 1) = 2 ^ n + 2 ^ n := by omega
    rw [doubling, evalIn, ih known, twofold, Function.iterate_add_apply]
    exact ih inside

/-- For every depth there is an expression whose result is as deep as it has pairs, exponentially
many. -/
theorem exists_deep_result (n : Nat) :
    ∃ (e : Expr) (v : Value), e.eval = .ok v ∧ e.depth = n + 2 ∧ e.pairs = 2 ^ n ∧
      v.toExpr.depth = 2 ^ n := by
  refine ⟨letIn "x" (num ⟨0⟩) (doubling n), Value.twice^[2 ^ n] (.num ⟨0⟩), ?_, ?_, ?_, ?_⟩
  · rw [eval_eq_evalIn, evalIn, evalIn]
    exact evalIn_doubling n (if_pos rfl)
  · rw [depth, depth, depth_doubling, Nat.zero_max]
    omega
  · rw [pairs, pairs, pairs_doubling, Nat.zero_add]
  · rw [Value.depth_twice]
    exact Nat.zero_add _

/-- A result is at most as deep as pairs are written in the expression, and so are the results of
all expressions on which its evaluation calls itself, among them all values that are substituted.
The depth of the expression is no such bound: there are results that are deep exponentially in it,
and then as deep as their expressions have pairs. -/
theorem eval_depth_le_pairs :
    (∀ (e : Expr) (v : Value), e.eval = .ok v → v.toExpr.depth ≤ e.pairs) ∧
      (∀ (e callee : Expr) (v : Value), Relation.ReflTransGen Calls e callee →
        callee.eval = .ok v → v.toExpr.depth ≤ e.pairs) ∧
      ∀ n, ∃ (e : Expr) (v : Value), e.eval = .ok v ∧ e.depth = n + 2 ∧ e.pairs = 2 ^ n ∧
        v.toExpr.depth = 2 ^ n := by
  refine ⟨fun e v value => ?_, fun e callee v reached value => ?_, exists_deep_result⟩
  · exact e.bounded_pairs.shallow v value
  · exact (e.bounded_pairs.of_reaches reached).shallow v value

/-- A pair that is bound to a name, and put into both components of another one. -/
theorem eval_depth_le_pairs_copied :
    let p : Value := .pair (.num ⟨0⟩) (.bool true)
    let e : Expr := letIn "p" p.toExpr (pair (var "p") (var "p"))
    (.pair p p : Value).toExpr.depth ≤ e.pairs ∧ p.toExpr.depth ≤ e.pairs := by
  intro p e
  obtain ⟨results, inner, -⟩ := eval_depth_le_pairs
  have value : e.eval = .ok (.pair p p) := by
    rw [eval_eq_evalIn]
    rfl
  exact ⟨results e _ value, inner e p.toExpr p (.single (.bound _ _ _)) p.eval_toExpr⟩

end Expr

end Twofold
