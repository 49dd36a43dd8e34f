import Twofold.Proofs.TrialRuns

/-!
# Reports of trial runs

A longer run is a shorter one and then the trials that are left, which start with the report and the
generator that the shorter one ended with. So a report counts its trials by what the check said
about each of their expressions, a run stops at the first expression that the check rejects, and two
runs from one seed tell the same as far as both go. All this holds for any check.
-/

namespace Twofold

namespace Chance.Generator

variable {σ : Type} [Source σ]

/-- The expression of a trial, the first one having number `0`. -/
def trialExpr (maxDepth : Nat) (g : Generator σ) (trial : Nat) : Expr :=
  (generate maxDepth [] (g.afterTrials maxDepth trial)).1

end Chance.Generator

namespace Trial

open Chance (Source Generator Keystream)

/-- The kind of failure, if any, that a check agrees on; `none` if it rejects the expression. -/
def agreedKind (check : Expr → Except Disagreement Agreement) (e : Expr) :
    Option (Option FailureKind) :=
  (check e).toOption.map Agreement.kind

variable {check : Expr → Except Disagreement Agreement} {exprs : Nat → Expr} {n : Nat}

/-! ## What a report counts -/

/-- The report of trials on the first `n` of some expressions, on all of which the check agrees. -/
structure Report.Covers (r : Report) (check : Expr → Except Disagreement Agreement)
    (exprs : Nat → Expr) (n : Nat) : Prop where
  agreed : ∀ trial < n, ∃ a, check (exprs trial) = .ok a
  trials : r.trials = n
  /-- Every trial has a value or a failure. -/
  balanced : r.Balanced
  values : r.values = Nat.count (fun trial => agreedKind check (exprs trial) = some none) n
  errors : ∀ k, r.errors.count k =
    Nat.count (fun trial => agreedKind check (exprs trial) = some (some k)) n

theorem Report.covers_new (seed : UInt64) : (Report.new seed).Covers check exprs 0 where
  agreed trial before := absurd before (Nat.not_lt_zero trial)
  trials := rfl
  balanced := Report.balanced_new seed
  values := rfl
  errors _ := rfl

theorem Report.seed_add (r : Report) (kind : Option FailureKind) : (r.add kind).seed = r.seed := by
  cases kind <;> rfl

theorem Report.trials_add (r : Report) (kind : Option FailureKind) :
    (r.add kind).trials = r.trials + 1 := by
  cases kind <;> rfl

theorem Report.values_add (r : Report) (kind : Option FailureKind) :
    (r.add kind).values = r.values + if kind = none then 1 else 0 := by
  cases kind <;> rfl

theorem Report.count_errors_add (r : Report) (kind : Option FailureKind) (k : FailureKind) :
    (r.add kind).errors.count k = r.errors.count k + if kind = some k then 1 else 0 := by
  cases kind with
  | none => rfl
  | some j =>
    rw [Report.add, Tally.count_increment]
    simp only [Option.some.injEq, eq_comm]

/-- One more trial is counted by the kind that the check agrees on. -/
theorem Report.Covers.add {r : Report} (h : r.Covers check exprs n) {a : Agreement}
    (agreed : check (exprs n) = .ok a) : (r.add a.kind).Covers check exprs (n + 1) := by
  have kind : agreedKind check (exprs n) = some a.kind := by
    rw [agreedKind, agreed]
    rfl
  refine ⟨?_, ?_, h.balanced.add a.kind, ?_, ?_⟩
  · intro trial before
    rcases Nat.lt_succ_iff_lt_or_eq.1 before with before | rfl
    · exact h.agreed trial before
    · exact ⟨a, agreed⟩
  · rw [Report.trials_add, h.trials]
  · rw [Report.values_add, h.values, Nat.count_succ, kind]
    simp only [Option.some.injEq]
  · intro k
    rw [Report.count_errors_add, h.errors, Nat.count_succ, kind]
    simp only [Option.some.injEq]

/-! ## What a run tells -/

/-- What `n` trials on some expressions have to tell: the report of all of them, or the number of
the first one whose expression the check rejects, with what the check says about it. -/
inductive Tells (check : Expr → Except Disagreement Agreement) (exprs : Nat → Expr) (seed : UInt64)
    (n : Nat) : Except RunError Report → Prop
  | agreement {r : Report} (same : r.seed = seed) (covers : r.Covers check exprs n) :
      Tells check exprs seed n (.ok r)
  | disagreement {trial : Nat} {d : Disagreement} (early : trial < n)
      (before : ∀ earlier < trial, ∃ a, check (exprs earlier) = .ok a)
      (rejected : check (exprs trial) = .error d) :
      Tells check exprs seed n (.error (.disagreement seed trial d))

variable {σ : Type} [Source σ]

/-- The trials of a run can be interrupted and continued at any point. -/
theorem continueRun_add (check : Expr → Except Disagreement Agreement) (maxDepth n more trial : Nat)
    (g : Generator σ) (r : Report) :
    continueRun check maxDepth (n + more) trial g r =
      continueRun check maxDepth n trial g r >>=
        continueRun check maxDepth more (trial + n) (g.afterTrials maxDepth n) := by
  induction n generalizing trial g r with
  | zero =>
    rw [Nat.zero_add]
    rfl
  | succ n ih =>
    rw [Nat.add_right_comm, continueRun_succ, continueRun_succ, Generator.afterTrials_succ]
    cases check (Generator.generate maxDepth [] g).1 with
    | error d => rfl
    | ok a =>
      have numbers : trial + (n + 1) = trial + 1 + n := by omega
      rw [numbers]
      exact ih (trial + 1) _ _

/-- Behind trials that all agreed, the next one is counted or ends the run. -/
theorem Report.Covers.tells_next {maxDepth : Nat} {g : Generator σ} {r : Report}
    (h : r.Covers check (g.trialExpr maxDepth) n) :
    Tells check (g.trialExpr maxDepth) r.seed (n + 1)
      (continueRun check maxDepth 1 n (g.afterTrials maxDepth n) r) := by
  rw [continueRun_succ]
  cases answer : check (g.trialExpr maxDepth n) with
  | ok a =>
    rw [Generator.trialExpr] at answer
    rw [answer]
    exact .agreement (r.seed_add a.kind) (h.add answer)
  | error d =>
    rw [Generator.trialExpr] at answer
    rw [answer]
    exact .disagreement (Nat.lt_succ_self n) h.agreed answer

/-- A run tells what it has to. -/
theorem tells_run (check : Expr → Except Disagreement Agreement) (maxDepth n : Nat)
    (g : Generator σ) (seed : UInt64) :
    Tells check (g.trialExpr maxDepth) seed n (continueRun check maxDepth n 0 g (.new seed)) := by
  induction n with
  | zero => exact .agreement rfl (Report.covers_new seed)
  | succ n ih =>
    rw [continueRun_add, Nat.zero_add]
    generalize continueRun check maxDepth n 0 g (.new seed) = first at ih
    cases ih with
    | agreement same covers =>
      rw [← same]
      exact covers.tells_next
    | disagreement early before rejected =>
      exact .disagreement (Nat.lt_succ_of_lt early) before rejected

/-! ## Two runs -/

/-- The results of `n` trials and of a longer run from the same start: both report the same
disagreement, at one of the first `n` trials, or the shorter one ends with a report, from which the
longer one goes on with the rest of its trials. -/
inductive Prolongs (seed : UInt64) (n : Nat) (rest : Report → Except RunError Report) :
    (short long : Except RunError Report) → Prop
  | disagreement {trial : Nat} {d : Disagreement} (early : trial < n) :
      Prolongs seed n rest (.error (.disagreement seed trial d))
        (.error (.disagreement seed trial d))
  | agreement {r : Report}
      (late : ∀ trial d, rest r = .error (.disagreement seed trial d) → n ≤ trial) :
      Prolongs seed n rest (.ok r) (rest r)

/-- No disagreement is about an expression that the check agreed on. -/
theorem Report.Covers.le_of_tells {r : Report} (h : r.Covers check exprs n) {m trial : Nat}
    {seed : UInt64} {d : Disagreement}
    (told : Tells check exprs seed m (.error (.disagreement seed trial d))) : n ≤ trial := by
  cases told with
  | disagreement early before rejected =>
    by_contra within
    obtain ⟨a, agreed⟩ := h.agreed trial (Nat.lt_of_not_le within)
    rw [agreed] at rejected
    cases rejected

theorem prolongs_run (check : Expr → Except Disagreement Agreement) (maxDepth n more : Nat)
    (g : Generator σ) (seed : UInt64) :
    Prolongs seed n (continueRun check maxDepth more n (g.afterTrials maxDepth n))
      (continueRun check maxDepth n 0 g (.new seed))
      (continueRun check maxDepth (n + more) 0 g (.new seed)) := by
  have short := tells_run check maxDepth n g seed
  have long := tells_run check maxDepth (n + more) g seed
  rw [continueRun_add, Nat.zero_add] at long ⊢
  generalize continueRun check maxDepth n 0 g (.new seed) = result at short long
  cases short with
  | disagreement early before rejected => exact .disagreement early
  | agreement same covers =>
    refine .agreement ?_
    intro trial d stopped
    have told : Tells check (g.trialExpr maxDepth) seed (n + more)
        (.error (.disagreement seed trial d)) := by
      rw [← stopped]
      exact long
    exact covers.le_of_tells told

/-- Whatever the check says about the generated expressions, a run with a given seed reports on all
of its trials if the check agrees on all of their expressions, counting them by the kind of failure
agreed on, and stops at the first expression that the check rejects otherwise. A run of more trials
with the same seed and depth reports the same disagreement if that is about one of the first `n`
trials, and goes on from the report of those otherwise. -/
theorem run_stops_at_first_disagreement (seed : UInt64) (maxDepth n : Nat) :
    (∀ drawn, run ⟨n, maxDepth, some seed⟩ drawn =
      runFrom Trial.check (Keystream.ofSeed seed) seed n maxDepth) ∧
    ∀ {σ : Type} [Source σ] (source : σ) (check : Expr → Except Disagreement Agreement),
      let g := Generator.new source
      Tells check (g.trialExpr maxDepth) seed n (runFrom check source seed n maxDepth) ∧
        ∀ more, Prolongs seed n (continueRun check maxDepth more n (g.afterTrials maxDepth n))
          (runFrom check source seed n maxDepth)
          (runFrom check source seed (n + more) maxDepth) := by
  refine ⟨fun drawn => rfl, fun source check => ⟨?_, fun more => ?_⟩⟩
  · exact tells_run check maxDepth n (Generator.new source) seed
  · exact prolongs_run check maxDepth n more (Generator.new source) seed

end Trial

end Twofold
