import Twofold.Chance.Generator
import Twofold.Trial.Check
import Twofold.Trial.Report
import Twofold.Trial.Settings

/-!
# Trial runs

A run generates expressions one after another, checks each, counts, and stops at the first
disagreement.
-/

namespace Twofold.Trial

open Chance (Generator Keystream Source)

/-- Why a run failed. -/
inductive RunError where
  | settings (e : SettingsError)
  /-- The reference evaluation could not be set up. -/
  | setup (e : ReferenceError)
  | disagreement (seed : UInt64) (trial : Nat) (d : Disagreement)
deriving DecidableEq, Inhabited, Repr

namespace RunError

/-- The words for a failed run. -/
def message : RunError → String
  | settings e => e.message
  | setup e => "could not set up the reference evaluator: " ++ e.message
  | disagreement seed trial d =>
    "trial " ++ countText trial ++ " (seed " ++ countText seed.toNat ++ "): " ++ d.message

end RunError

variable {σ : Type} [Source σ]

/-- Runs `left` more trials, the next one having number `trial`. -/
def continueRun (check : Expr → Except Disagreement Agreement) (maxDepth : Nat) :
    (left trial : Nat) → Generator σ → Report → Except RunError Report
  | 0, _, _, r => .ok r
  | left + 1, trial, g, r =>
    let (e, g) := Generator.generate maxDepth [] g
    match check e with
    | .ok a => continueRun check maxDepth left (trial + 1) g (r.add a.kind)
    | .error d => .error (.disagreement r.seed trial d)

/-- A run on expressions from a source of chance; `seed` is the one reported. -/
def runFrom (check : Expr → Except Disagreement Agreement) (source : σ) (seed : UInt64)
    (trials maxDepth : Nat) : Except RunError Report :=
  continueRun check maxDepth trials 0 (Generator.new source) (.new seed)

/-- A run with settings; `drawn` is the seed if they give none. -/
def run (s : Settings) (drawn : UInt64) : Except RunError Report :=
  let seed := s.seed.getD drawn
  runFrom check (Keystream.ofSeed seed) seed s.trials s.maxDepth

/-! ## Log -/

/-- The part of the program that runs trials. -/
def target : String := "pairlang_fuzz::trials"

/-- What the remaining trials of a run write into the log. -/
def logFrom (maxDepth : Nat) : (left trial : Nat) → Generator σ → Report → List Log.Entry
  | 0, _, _, r =>
    [⟨.info, target, "all trials agreed",
      [("trials", countText r.trials), ("values", countText r.values), ("errors", r.errors.text)]⟩]
  | left + 1, trial, g, r =>
    let (e, g) := Generator.generate maxDepth [] g
    Reference.log e (Reference.eval e) ++
      match check e with
      | .ok a =>
        ⟨.debug, target, "agreed",
          [("trial", countText trial), ("expr", e.text), ("outcome", a.outcome.text)]⟩
        :: logFrom maxDepth left (trial + 1) g (r.add a.kind)
      | .error d =>
        [⟨.warn, target, "evaluators disagree",
          [("trial", countText trial), ("seed", countText r.seed.toNat),
            ("mismatch", d.toJson.indented)]⟩]

/-- What a run writes into the log. -/
def log (s : Settings) (drawn : UInt64) : List Log.Entry :=
  let seed := s.seed.getD drawn
  ⟨.span, target, "run_trials",
    [("seed", countText seed.toNat), ("trials", countText s.trials),
      ("max_depth", countText s.maxDepth)]⟩
  :: logFrom s.maxDepth s.trials 0 (Generator.new (Keystream.ofSeed seed)) (.new seed)

end Twofold.Trial
