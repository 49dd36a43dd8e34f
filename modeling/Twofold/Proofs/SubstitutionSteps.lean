import Twofold.Proofs.Environment

/-!
# Substitutions in sequence

Substituting for one name after another replaces all of them at once, each by the value that comes
first for it: a later value for the same name finds nothing left to replace, and the values that
have been put in have no names of their own. So neither the order of the steps nor the steps that
come too late for their name show in the result.
-/

namespace Twofold

/-- A step of a substitution: a name and the value that replaces it. -/
abbrev SubstStep := Name × Value

/-- Whether a step is one for the name. -/
def SubstStep.isFor (x : Name) (step : SubstStep) : Bool := step.1 == x

namespace SubstStep

/-- What each name stands for after some steps: the value of the first step for it. -/
def env (steps : List SubstStep) : Env := fun x => (steps.find? (isFor x)).map Prod.snd

/-- Deletes every step for a name that was seen before or has an earlier step. -/
def firsts : List SubstStep → (seen : List Name) → List SubstStep
  | [], _ => []
  | step :: steps, seen =>
    if step.1 ∈ seen then firsts steps seen else step :: firsts steps (step.1 :: seen)

/-- The second list has the steps of the first one in places of their own, and the first step for
each name still comes before the later ones for it. -/
def Reorders (steps steps' : List SubstStep) : Prop :=
  ∃ place : Fin steps.length ≃ Fin steps'.length,
    (∀ i, steps'.get (place i) = steps.get i) ∧
      ∀ i j, (∀ k < i, (steps.get k).1 ≠ (steps.get i).1) → i < j →
        (steps.get j).1 = (steps.get i).1 → place i < place j

/-! ## The first step for each name -/

theorem isFor_iff {x : Name} {step : SubstStep} : isFor x step = true ↔ step.1 = x := beq_iff_eq

theorem find?_cons_self (step : SubstStep) (steps : List SubstStep) :
    (step :: steps).find? (isFor step.1) = some step :=
  List.find?_cons_of_pos (isFor_iff.2 rfl)

theorem find?_cons_of_ne {x : Name} {step : SubstStep} (steps : List SubstStep) (h : step.1 ≠ x) :
    (step :: steps).find? (isFor x) = steps.find? (isFor x) :=
  List.find?_cons_of_neg fun mine => h (isFor_iff.1 mine)

theorem env_nil (x : Name) : env [] x = none := rfl

theorem env_cons_self (step : SubstStep) (steps : List SubstStep) :
    env (step :: steps) step.1 = some step.2 := by
  rw [env, find?_cons_self, Option.map_some]

theorem env_cons_of_ne {x : Name} {step : SubstStep} (steps : List SubstStep) (h : step.1 ≠ x) :
    env (step :: steps) x = env steps x := by
  rw [env, env, find?_cons_of_ne steps h]

/-- A step is found if all steps before its place are for other names. -/
theorem find?_eq_some_iff {x : Name} {step : SubstStep} {steps : List SubstStep} :
    steps.find? (isFor x) = some step ↔ step.1 = x ∧
      ∃ i, steps.get i = step ∧ ∀ k < i, (steps.get k).1 ≠ x := by
  rw [List.find?_eq_some_iff_getElem, isFor_iff]
  refine and_congr_right fun _ => ⟨?_, ?_⟩
  · rintro ⟨i, hi, here, before⟩
    refine ⟨⟨i, hi⟩, here, ?_⟩
    intro k earlier mine
    have other := before k earlier
    rw [Bool.not_eq_true', ← Bool.not_eq_true, isFor_iff] at other
    exact other mine
  · rintro ⟨i, here, before⟩
    refine ⟨i, i.2, here, ?_⟩
    intro k earlier
    have other := before ⟨k, Nat.lt_trans earlier i.2⟩ earlier
    rw [Bool.not_eq_true', ← Bool.not_eq_true, isFor_iff]
    exact other

theorem find?_firsts (x : Name) (steps : List SubstStep) (seen : List Name) :
    (firsts steps seen).find? (isFor x) = if x ∈ seen then none else steps.find? (isFor x) := by
  induction steps generalizing seen with
  | nil => simp [firsts]
  | cons step steps ih =>
    rw [firsts]
    by_cases late : step.1 ∈ seen
    · rw [if_pos late, ih]
      by_cases known : x ∈ seen
      · rw [if_pos known, if_pos known]
      · have other : step.1 ≠ x := by
          rintro rfl
          exact known late
        rw [if_neg known, if_neg known, find?_cons_of_ne steps other]
    · rw [if_neg late]
      by_cases here : step.1 = x
      · subst here
        rw [find?_cons_self, find?_cons_self, if_neg late]
      · rw [find?_cons_of_ne _ here, find?_cons_of_ne _ here, ih]
        simp [Ne.symm here]

theorem env_firsts (steps : List SubstStep) : env (firsts steps []) = env steps := by
  funext x
  rw [env, env, find?_firsts, if_neg List.not_mem_nil]

/-- A reordering that keeps the first step for each name in front has the same first steps. -/
theorem Reorders.find?_eq {steps steps' : List SubstStep} (h : Reorders steps steps') (x : Name) :
    steps'.find? (isFor x) = steps.find? (isFor x) := by
  obtain ⟨place, same, kept⟩ := h
  cases found : steps.find? (isFor x) with
  | none =>
    rw [List.find?_eq_none] at found ⊢
    intro step member
    obtain ⟨i, rfl⟩ := List.mem_iff_get.1 member
    obtain ⟨i, rfl⟩ := place.surjective i
    rw [same]
    exact found _ (List.get_mem _ _)
  | some step =>
    obtain ⟨mine, i, rfl, before⟩ := find?_eq_some_iff.1 found
    refine find?_eq_some_iff.2 ⟨mine, place i, same i, ?_⟩
    -- Another step for the name that came to stand in front would be a later one.
    intro k earlier other
    obtain ⟨k, rfl⟩ := place.surjective k
    rw [same] at other
    have later : i < k := by
      rcases lt_trichotomy k i with sooner | here | later
      · exact absurd other (before k sooner)
      · exact absurd earlier (here ▸ lt_irrefl _)
      · exact later
    have first : ∀ k < i, (steps.get k).1 ≠ (steps.get i).1 := mine ▸ before
    exact lt_asymm earlier (kept i k first later (other.trans mine.symm))

theorem Reorders.env_eq {steps steps' : List SubstStep} (h : Reorders steps steps') :
    env steps' = env steps := by
  funext x
  rw [env, env, h.find?_eq]

end SubstStep

namespace Expr

open SubstStep

/-- Substitutes in sequence. -/
def substSteps (steps : List SubstStep) (e : Expr) : Expr :=
  steps.foldl (fun e step => e.subst step.1 step.2) e

/-- A name of the environment has no occurrence left that could be replaced again. -/
theorem subst_substAll_of_known (x : Name) (v : Value) (e : Expr) {ρ : Env} (h : ρ x ≠ none) :
    (e.substAll ρ).subst x v = e.substAll ρ := by
  induction e generalizing ρ with
  | num n => rfl
  | bool b => rfl
  | var y =>
    cases known : ρ y with
    | some w => simp [substAll, known]
    | none =>
      have other : y ≠ x := by
        rintro rfl
        exact h known
      simp [substAll, known, subst, other]
  | letIn y a b iha ihb =>
    rw [substAll, subst, iha h]
    by_cases same : y = x
    · rw [if_pos same]
    · have known : ρ.hide y x ≠ none := by
        rw [Env.hide, if_neg (Ne.symm same)]
        exact h
      rw [if_neg same, ihb known]
  | add a b iha ihb | le a b iha ihb | pair a b iha ihb => rw [substAll, subst, iha h, ihb h]
  | ite a b c iha ihb ihc => rw [substAll, subst, iha h, ihb h, ihc h]
  | head a iha | tail a iha => rw [substAll, subst, iha h]

/-- A step adds its name to an environment that does not provide it, and is lost on one that
does. -/
theorem subst_substAll_or (step : SubstStep) (e : Expr) (ρ : Env) :
    (e.substAll ρ).subst step.1 step.2 = e.substAll fun x => (ρ x).or (env [step] x) := by
  cases known : ρ step.1 with
  | none =>
    rw [subst_substAll step.1 step.2 e known]
    congr 1
    funext x
    by_cases same : step.1 = x
    · subst same
      rw [env_cons_self, known, Env.bind, if_pos rfl, Option.none_or]
    · rw [env_cons_of_ne _ same, env_nil, Option.or_none, Env.bind, if_neg (Ne.symm same)]
  | some v =>
    have provided : ρ step.1 ≠ none := by
      rw [known]
      exact Option.some_ne_none v
    rw [subst_substAll_of_known step.1 step.2 e provided]
    congr 1
    funext x
    by_cases same : step.1 = x
    · subst same
      rw [known, Option.some_or]
    · rw [env_cons_of_ne _ same, env_nil, Option.or_none]

/-- Steps that follow an environment add what it does not provide. -/
theorem substSteps_substAll (steps : List SubstStep) (e : Expr) (ρ : Env) :
    (e.substAll ρ).substSteps steps = e.substAll fun x => (ρ x).or (env steps x) := by
  induction steps generalizing ρ with
  | nil =>
    rw [substSteps, List.foldl_nil]
    congr 1
    funext x
    rw [env_nil, Option.or_none]
  | cons step steps ih =>
    have rest := ih fun x => (ρ x).or (env [step] x)
    rw [substSteps] at rest ⊢
    rw [List.foldl_cons, subst_substAll_or, rest]
    congr 1
    funext x
    rw [Option.or_assoc]
    by_cases same : step.1 = x
    · subst same
      rw [env_cons_self, env_cons_self, Option.some_or]
    · rw [env_cons_of_ne _ same, env_cons_of_ne _ same, env_nil, Option.none_or]

/-- Steps in sequence replace all their names at once. -/
theorem substSteps_eq_substAll (steps : List SubstStep) (e : Expr) :
    e.substSteps steps = e.substAll (env steps) := by
  have untouched : e.substAll .empty = e := substAll_eq_self e fun _ => rfl
  have all := substSteps_substAll steps e .empty
  rw [untouched] at all
  exact all

/-- The order of substitutions does not matter, as long as the first one for each name stays in
front of the others for it, and these others may as well be left out: every name is replaced by the
value that comes first for it. -/
theorem substSteps_first_wins (steps : List SubstStep) (e : Expr) :
    (∀ steps', Reorders steps steps' → e.substSteps steps' = e.substSteps steps) ∧
      e.substSteps (firsts steps []) = e.substSteps steps ∧
      e.substSteps steps = e.substAll (env steps) := by
  refine ⟨?_, ?_, substSteps_eq_substAll steps e⟩
  · intro steps' reordered
    rw [substSteps_eq_substAll, substSteps_eq_substAll, reordered.env_eq]
  · rw [substSteps_eq_substAll, substSteps_eq_substAll, env_firsts]

/-- Two values for `x` and one for `y`, which is moved to the front. -/
theorem substSteps_first_wins_twice :
    let one : SubstStep := ("x", .bool true)
    let two : SubstStep := ("x", .pair (.bool false) (.bool false))
    let other : SubstStep := ("y", .bool false)
    Reorders [one, two, other] [other, one, two] ∧
      ∀ e : Expr, e.substSteps [other, one, two] = e.substSteps [one, two, other] ∧
        e.substSteps [one, other] = e.substSteps [one, two, other] := by
  intro one two other
  have reordered : Reorders [one, two, other] [other, one, two] :=
    ⟨finRotate 3, by decide, by decide⟩
  refine ⟨reordered, ?_⟩
  intro e
  obtain ⟨moved, left, -⟩ := substSteps_first_wins [one, two, other] e
  exact ⟨moved _ reordered, left⟩

end Expr

end Twofold
