import Twofold.Proofs.InventedNames

/-!
# Generation under watch

The same generation once more, with what it does besides its result made visible: the parts of an
expression are one level less deep than the expression itself, and where there is no such level the
watched generation fails; and every name is noted when it is invented. Whatever is drawn, it does
not fail and gives what the generation gives, and the names that it notes are numbered without a
gap. With the bounds on what can be generated, this says how large an expression of a given depth
is.
-/

namespace Twofold.Chance

open Generator

/-- A generator, with the names that it has invented since it was watched. -/
structure Watched (σ : Type) where
  generator : Generator σ
  invented : List Name

/-- A watched step of generation. It fails where a part would have to be less deep than a leaf. -/
abbrev Watch (σ : Type) := StateT (Watched σ) Option

namespace Watch

variable {σ : Type}

/-- A step that invents no name. -/
def quietly {α : Type} (step : Gen σ α) : Watch σ α := fun w =>
  let (a, generator) := step w.generator
  some (a, { w with generator })

variable [Source σ]

/-- Invents a name and notes it. -/
def freshName : Watch σ Name := fun w =>
  let (x, generator) := Generator.freshName w.generator
  some (x, ⟨generator, w.invented ++ [x]⟩)

/-- A name from the scope, or an invented one. -/
def variableLeaf (scope : List Name) : Watch σ Expr := do
  if scope.isEmpty then return .var (← freshName)
  if ← quietly (ask Source.onceInTen) then return .var (← freshName)
  let i ← quietly (ask (Source.wideBelow scope.length))
  return .var (scope.getD i "")

/-- The form with a number, at any depth; `part` generates the parts. -/
def node (part : List Name → Watch σ Expr) (scope : List Name) : (form : Nat) → Watch σ Expr
  | 0 => quietly number
  | 1 => quietly boolean
  | 2 => variableLeaf scope
  | 3 => return .add (← part scope) (← part scope)
  | 4 => return .le (← part scope) (← part scope)
  | 5 => do
    let x ← freshName
    return .letIn x (← part scope) (← part (scope ++ [x]))
  | 6 => return .ite (← part scope) (← part scope) (← part scope)
  | 7 => return .pair (← part scope) (← part scope)
  | 8 => return .head (← part scope)
  | _ => return .tail (← part scope)

/-- An expression of at most the given depth. Which forms are drawn is all that keeps an expression
of depth `0` from having parts. -/
def generate : (depth : Nat) → (scope : List Name) → Watch σ Expr
  | 0, scope => do node (fun _ => failure) scope (← quietly (ask (Source.below 3)))
  | depth + 1, scope => do node (generate depth) scope (← quietly (ask (Source.below 10)))

end Watch

/-! ## Watching changes nothing -/

section Watching

variable {σ α β : Type}

/-- The watched step gives what the step gives, and notes the names with the numbers that the step
uses up. -/
def Watches (step : Gen σ α) (watched : Watch σ α) : Prop :=
  ∀ g names, ∃ more, watched ⟨g, names⟩ = some ((step g).1, ⟨(step g).2, names ++ more⟩) ∧
    Numbered g.nextName more (step g).2.nextName

namespace Watches

theorem pure (a : α) : Watches (pure a : Gen σ α) (Pure.pure a) := by
  intro g names
  refine ⟨[], ?_, .nil _⟩
  rw [List.append_nil]
  rfl

theorem bind {step : Gen σ α} {watched : Watch σ α} {f : α → Gen σ β} {f' : α → Watch σ β}
    (h : Watches step watched) (hf : ∀ a, Watches (f a) (f' a)) :
    Watches (step >>= f) (watched >>= f') := by
  intro g names
  obtain ⟨more, run, numbered⟩ := h g names
  obtain ⟨more', run', numbered'⟩ := hf (step g).1 (step g).2 (names ++ more)
  refine ⟨more ++ more', ?_, numbered.append numbered'⟩
  rw [← List.append_assoc]
  show (watched ⟨g, names⟩).bind (fun r => f' r.1 r.2) = _
  rw [run]
  exact run'

theorem quietly {step : Gen σ α} (h : ∀ g, (step g).2.nextName = g.nextName) :
    Watches step (Watch.quietly step) := by
  intro g names
  refine ⟨[], ?_, ?_⟩
  · rw [List.append_nil]
    rfl
  · rw [h]
    exact .nil _

variable [Source σ] [LawfulSource σ]

theorem freshName : Watches (freshName : Gen σ Name) Watch.freshName :=
  fun g _ => ⟨_, rfl, .single (invented_freshName g)⟩

theorem variableLeaf (scope : List Name) :
    Watches (variableLeaf scope : Gen σ Expr) (Watch.variableLeaf scope) := by
  have unbound : Watches (do return .var (← Generator.freshName) : Gen σ Expr)
      (do return .var (← Watch.freshName)) := .bind .freshName fun x => .pure _
  rw [Generator.variableLeaf, Watch.variableLeaf]
  by_cases empty : scope.isEmpty
  · rw [if_pos empty, if_pos empty]
    exact unbound
  · rw [if_neg empty, if_neg empty]
    refine .bind (.quietly fun _ => rfl) fun drawn => ?_
    split
    · exact unbound
    · exact .bind (.quietly fun _ => rfl) fun i => .pure _

/-- Only forms below the bound have to be watched. -/
theorem below {bound : Nat} {f : Nat → Gen σ α} {f' : Nat → Watch σ α} (positive : 0 < bound)
    (h : ∀ form < bound, Watches (f form) (f' form)) :
    Watches (ask (Source.below bound) >>= f)
      (Watch.quietly (ask (Source.below bound)) >>= f') :=
  fun g names => h _ (LawfulSource.below_lt bound g.source positive)
    ⟨(Source.below bound g.source).2, g.nextName⟩ names

/-- A form below `3` is a leaf: whatever the parts would be, none is asked for. -/
theorem leaf (part : List Name → Watch σ Expr) (scope : List Name) {form : Nat} (small : form < 3) :
    Watches (leaf scope form : Gen σ Expr) (Watch.node part scope form) := by
  interval_cases form
  · exact .quietly fun _ => rfl
  · exact .quietly fun _ => rfl
  · exact .variableLeaf scope

/-- At depth `0` only leaves are drawn, so the watched generation does not fail there. -/
theorem generate (depth : Nat) (scope : List Name) :
    Watches (generate depth scope : Gen σ Expr) (Watch.generate depth scope) := by
  induction depth generalizing scope with
  | zero => exact .below (by decide) fun form small => .leaf _ scope small
  | succ depth ih =>
    refine .below (by decide) fun form small => ?_
    by_cases isLeaf : form < 3
    · have leaf : Watches (Generator.leaf scope form : Gen σ Expr)
          (Watch.node (Watch.generate depth) scope form) := .leaf _ scope isLeaf
      interval_cases form <;> exact leaf
    · interval_cases form
      · exact .bind (ih scope) fun a => .bind (ih scope) fun b => .pure _
      · exact .bind (ih scope) fun a => .bind (ih scope) fun b => .pure _
      · exact .bind .freshName fun x => .bind (ih scope) fun a => .bind (ih _) fun b => .pure _
      · exact .bind (ih scope) fun a => .bind (ih scope) fun b => .bind (ih scope) fun c => .pure _
      · exact .bind (ih scope) fun a => .bind (ih scope) fun b => .pure _
      · exact .bind (ih scope) fun a => .pure _
      · exact .bind (ih scope) fun a => .pure _

end Watches

/-! ## Bounds -/

variable [Source σ] [LawfulSource σ]

/-- Whatever is drawn, the generation of an expression never needs a part that is less deep than a
leaf. The expression is at most as deep as was asked for, it has at most as many nodes as a full
tree of choices, and at most as many bindings as such a tree whose lowest nodes are bindings. -/
theorem generate_within_bounds (depth : Nat) (scope : List Name) (g : Generator σ) :
    (∃ names, Watch.generate depth scope ⟨g, []⟩ =
        some ((generate depth scope g).1, ⟨(generate depth scope g).2, names⟩)) ∧
      (generate depth scope g).1.depth ≤ depth ∧
      (generate depth scope g).1.size ≤ (3 ^ (depth + 1) - 1) / 2 ∧
      (depth = 0 → (generate depth scope g).1.lets = 0) ∧
      (1 ≤ depth → (generate depth scope g).1.lets ≤ 3 ^ (depth - 1)) := by
  obtain ⟨names, run, -⟩ := Watches.generate depth scope g []
  have generated := generates_generate depth scope g
  have nodes := generated.size_le
  have bindings := generated.lets_le
  refine ⟨⟨names, run⟩, generated.depth_le, by omega, ?_, ?_⟩
  · rintro rfl
    rw [pow_zero] at bindings
    omega
  · intro positive
    have power : 3 ^ (depth - 1) * 3 = 3 ^ depth := by
      rw [← pow_succ, Nat.sub_add_cancel positive]
    omega

end Watching

/-- A choice between three bindings has as many bindings as depth `2` allows. -/
theorem generate_within_bounds_seeded :
    (generate 2 [] (Generator.new (Keystream.ofSeed 3866))).1 =
        .ite (.letIn "é0" (.num ⟨0x4045000000000000⟩) (.num ⟨0xbff0000000000000⟩))
          (.letIn "a1" (.bool true) (.num ⟨0x3fb999999999999a⟩))
          (.letIn "ζ2" (.num ⟨0x0000000000000000⟩) (.num ⟨0x3fb999999999999a⟩)) ∧
      (generate 2 [] (Generator.new (Keystream.ofSeed 3866))).1.lets = 3 ∧
      (generate 2 [] (Generator.new (Keystream.ofSeed 3866))).1.lets ≤ 3 ^ (2 - 1) :=
  ⟨by decide +kernel, by decide +kernel,
    (generate_within_bounds 2 [] (Generator.new (Keystream.ofSeed 3866))).2.2.2.2 (by decide)⟩

end Twofold.Chance
