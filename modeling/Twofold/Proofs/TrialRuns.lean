import Twofold.Proofs.Agreement
import Twofold.Proofs.Generation
import Twofold.Proofs.Tally
import Twofold.Trial.Run

/-!
# Trial runs

Expressions of depth at most ten stay within all limits of the reference evaluation, so every trial
of a run on them finds an agreement, whatever is drawn. The report then accounts for every trial,
and knows of no internal failure.
-/

namespace Twofold

namespace Chance.Generator

variable {σ : Type} [Source σ]

/-- The generator after so many trials. -/
def afterTrials (maxDepth trials : Nat) (g : Generator σ) : Generator σ :=
  (fun g => (generate maxDepth [] g).2)^[trials] g

theorem afterTrials_succ (maxDepth trials : Nat) (g : Generator σ) :
    g.afterTrials maxDepth (trials + 1) = (generate maxDepth [] g).2.afterTrials maxDepth trials :=
  Function.iterate_succ_apply _ _ _

variable [LawfulSource σ]

/-- Numbers of names are never used again. -/
theorem nextName_le_afterTrials (maxDepth trials : Nat) (g : Generator σ) :
    g.nextName ≤ (g.afterTrials maxDepth trials).nextName := by
  induction trials generalizing g with
  | zero => exact Nat.le_refl _
  | succ trials ih =>
    rw [afterTrials_succ]
    exact Nat.le_trans (generates_generate maxDepth [] g).last_le.1 (ih _)

/-- A trial invents fewer names than the nodes that its depth allows. -/
theorem nextName_afterTrials_le (maxDepth trials : Nat) (g : Generator σ) :
    (g.afterTrials maxDepth trials).nextName ≤ g.nextName + trials * 3 ^ (maxDepth + 1) := by
  induction trials generalizing g with
  | zero => simp [afterTrials]
  | succ trials ih =>
    have generated := generates_generate maxDepth [] g
    have names := generated.last_le.2
    have nodes := generated.size_le
    have rest := ih (generate maxDepth [] g).2
    rw [afterTrials_succ, Nat.succ_mul]
    omega

end Chance.Generator

namespace Trial

open Chance (Source LawfulSource Generator Keystream)

/-- A report that accounts for all of its trials. -/
structure Report.Balanced (r : Report) : Prop where
  ordered : Tally.Ordered r.errors.entries
  accounts : r.values + r.errors.total = r.trials

theorem Report.balanced_new (seed : UInt64) : (Report.new seed).Balanced where
  ordered := List.Pairwise.nil
  accounts := rfl

/-- Counting a trial keeps a report balanced. -/
theorem Report.Balanced.add {r : Report} (h : r.Balanced) (kind : Option FailureKind) :
    (r.add kind).Balanced := by
  have accounts := h.accounts
  cases kind with
  | none => exact ⟨h.ordered, by simp only [Report.add]; omega⟩
  | some k =>
    refine ⟨Tally.ordered_insertEntry h.ordered, ?_⟩
    simp only [Report.add, Tally.total_increment h.ordered]
    omega

/-- A report that accounts for all of its trials, none of which failed internally. -/
structure Report.Regular (r : Report) : Prop extends r.Balanced where
  noInternal : ∀ n, (FailureKind.internal, n) ∉ r.errors.entries

theorem Report.regular_new (seed : UInt64) : (Report.new seed).Regular where
  toBalanced := Report.balanced_new seed
  noInternal _ := List.not_mem_nil

/-- Counting a trial keeps a report regular. -/
theorem Report.Regular.add {r : Report} (h : r.Regular) {kind : Option FailureKind}
    (hk : kind ≠ some .internal) : (r.add kind).Regular := by
  refine ⟨h.toBalanced.add kind, fun n member => ?_⟩
  cases kind with
  | none => exact h.noInternal n member
  | some k =>
    rcases Tally.mem_insertEntry member with same | member
    · injection same with internal
      exact hk (internal ▸ rfl)
    · exact h.noInternal n member

/-- The check of a generated expression agrees, and not about an internal failure. -/
theorem check_generated {d k l : Nat} {e : Expr} (generated : Chance.Generated d [] k e l)
    (shallow : d ≤ 10) (small : l ≤ 2 ^ 64) :
    ∃ a, check e = .ok a ∧ a.kind ≠ some .internal := by
  obtain ⟨within, fits⟩ := generated.limits shallow small
  exact ⟨_, check_eq_ok_iff.2 ⟨e.outcome_reference_eq within fits, rfl⟩, kindOf_eval_ne_internal e⟩

/-- A trial generates an expression, checks it, and counts it or ends the run. -/
theorem continueRun_succ {σ : Type} [Source σ] (check : Expr → Except Disagreement Agreement)
    (maxDepth left trial : Nat) (g : Generator σ) (r : Report) :
    continueRun check maxDepth (left + 1) trial g r =
      match check (Generator.generate maxDepth [] g).1 with
      | .ok a => continueRun check maxDepth left (trial + 1) (Generator.generate maxDepth [] g).2
          (r.add a.kind)
      | .error d => .error (.disagreement r.seed trial d) := rfl

variable {σ : Type} [Source σ] [LawfulSource σ]

/-- The remaining trials of a run all agree, and are counted. -/
theorem continueRun_ok {maxDepth : Nat} (shallow : maxDepth ≤ 10) (left trial : Nat)
    (g : Generator σ) {r : Report} (regular : r.Regular)
    (few : (g.afterTrials maxDepth left).nextName ≤ 2 ^ 64) :
    ∃ r', continueRun check maxDepth left trial g r = .ok r' ∧ r'.Regular ∧ r'.seed = r.seed ∧
      r'.trials = r.trials + left := by
  induction left generalizing trial g r with
  | zero => exact ⟨r, rfl, regular, rfl, rfl⟩
  | succ left ih =>
    rw [Generator.afterTrials_succ] at few
    have generated := Chance.generates_generate maxDepth [] g
    have small := Nat.le_trans (Generator.nextName_le_afterTrials maxDepth left _) few
    obtain ⟨a, agreed, kind⟩ := check_generated generated shallow small
    obtain ⟨r', ran, regular', seed, trials⟩ := ih (trial + 1) _ (regular.add kind) few
    refine ⟨r', ?_, regular', ?_, ?_⟩
    · rw [continueRun_succ, agreed]
      exact ran
    · rw [seed]
      cases a.kind <;> rfl
    · rw [trials]
      cases a.kind <;> simp only [Report.add] <;> omega

/-- The run ended with a report that accounts for every trial, none of which failed internally. -/
def NoAlarm (result : Except RunError Report) (seed : UInt64) (trials : Nat) : Prop :=
  ∃ r, result = .ok r ∧ r.seed = seed ∧ r.trials = trials ∧ r.values + r.errors.total = trials ∧
    ∀ n, (FailureKind.internal, n) ∉ r.errors.entries

theorem noAlarm_runFrom (source : σ) (seed : UInt64) (trials : Nat) {maxDepth : Nat}
    (shallow : maxDepth ≤ 10)
    (few : ((Generator.new source).afterTrials maxDepth trials).nextName < 2 ^ 64) :
    NoAlarm (runFrom check source seed trials maxDepth) seed trials := by
  obtain ⟨r, ran, regular, same, counted⟩ :=
    continueRun_ok shallow trials 0 (Generator.new source) (Report.regular_new seed) few.le
  have all : r.trials = trials := counted.trans (Nat.zero_add trials)
  exact ⟨r, ran, same, all, regular.accounts.trans all, regular.noInternal⟩

/-- Whatever is drawn, an expression of depth at most ten keeps the limits of locals, static data
and memory, and both evaluations agree on it; so a run on such expressions raises no alarm, as long
as the numbers of invented names have 64 bits. -/
theorem run_raises_no_alarm {maxDepth : Nat} (shallow : maxDepth ≤ 10) :
    (∀ {σ : Type} [Source σ] [LawfulSource σ] (g : Generator σ),
      (Generator.generate maxDepth [] g).2.nextName < 2 ^ 64 →
      let e := (Generator.generate maxDepth [] g).1
      e.WithinLimits ∧ (e.dataSize + 7) / 8 * 8 + 12 * e.cells ≤ 2 ^ 24 ∧
        Outcome.ofResult ReferenceError.message (Reference.eval e) =
          Outcome.ofResult EvalError.message e.eval ∧
        ∃ a, check e = .ok a) ∧
    (∀ {σ : Type} [Source σ] [LawfulSource σ] (source : σ) (seed : UInt64) (trials : Nat),
      ((Generator.new source).afterTrials maxDepth trials).nextName < 2 ^ 64 →
      NoAlarm (runFrom check source seed trials maxDepth) seed trials) ∧
    ∀ (trials : Nat) (seed : Option UInt64) (drawn : UInt64),
      ((Generator.new (Keystream.ofSeed (seed.getD drawn))).afterTrials maxDepth trials).nextName <
        2 ^ 64 →
      NoAlarm (run ⟨trials, maxDepth, seed⟩ drawn) (seed.getD drawn) trials := by
  refine ⟨fun g few => ?_,
    fun source seed trials few => noAlarm_runFrom source seed trials shallow few,
    fun trials _ _ few => noAlarm_runFrom _ _ trials shallow few⟩
  have generated := Chance.generates_generate maxDepth [] g
  obtain ⟨within, fits⟩ := generated.limits shallow few.le
  have same := Expr.outcome_reference_eq within fits
  exact ⟨within, fits, same, _, check_eq_ok_iff.2 ⟨same, rfl⟩⟩

/-- The default settings: a thousand expressions of depth four. -/
theorem run_raises_no_alarm_default : NoAlarm (run .default 7) 7 1000 := by
  have names := Generator.nextName_afterTrials_le 4 1000 (Generator.new (Keystream.ofSeed 7))
  refine (run_raises_no_alarm (by decide)).2.2 1000 none 7 (Nat.lt_of_le_of_lt names ?_)
  decide

end Trial

end Twofold
