import Twofold.Proofs.WatchedGeneration

/-!
# Invented names and the scope

A generator does not look at the scope when it invents a name: the number alone makes the name new.
So a scope from outside may hold a name that is invented later, and then a binding may capture a
variable that was meant for the scope. For an expression of depth `d` at most `3 ^ d` names are
invented, and each of their numbers can come with each stem. Hence no draws make a collision if and
only if the scope has none of the names with the next `3 ^ d` numbers; the names that the same
generator invented before are never among these. Numbers have 64 bits, so all of this is about
generators that still have `3 ^ d` numbers left.
-/

namespace Twofold.Chance

open Generator

/-! ## What is invented -/

/-- The name of a binding was invented for the expression. -/
theorem Generated.inventedBetween_of_mem_binders {d k l : Nat} {scope : List Name} {e : Expr}
    {x : Name} (h : Generated d scope k e l) (member : x ∈ e.binders) : InventedBetween k l x := by
  induction h with
  | num | bool | known | unknown => cases member
  | add left right ihl ihr | le left right ihl ihr | pair left right ihl ihr =>
    rcases List.mem_append.1 member with member | member
    · exact (ihl member).mono (Nat.le_refl _) right.last_le.1
    · exact (ihr member).mono left.last_le.1 (Nat.le_refl _)
  | @letIn _ k l m _ _ _ _ name left right ihl ihr =>
    have before := left.last_le.1
    have after := right.last_le.1
    rcases List.mem_cons.1 member with rfl | member
    · exact ⟨k, Nat.le_refl k, by omega, name⟩
    · rcases List.mem_append.1 member with member | member
      · exact (ihl member).mono (Nat.le_succ k) after
      · exact (ihr member).mono (by omega) (Nat.le_refl m)
  | ite test yes no iht ihy ihn =>
    have first := test.last_le.1
    have second := yes.last_le.1
    have third := no.last_le.1
    simp only [Expr.binders, List.mem_append] at member
    rcases member with (member | member) | member
    · exact (iht member).mono (Nat.le_refl _) (by omega)
    · exact (ihy member).mono first third
    · exact (ihn member).mono (by omega) (Nat.le_refl _)
  | head arg ih | tail arg ih => exact ih member

section Inventions

variable {σ : Type} [Source σ]

/-- The names that are invented while an expression is generated, in this order. -/
def inventions (depth : Nat) (scope : List Name) (g : Generator σ) : List Name :=
  match Watch.generate depth scope ⟨g, []⟩ with
  | some (_, w) => w.invented
  | none => []

/-- Every number that is used up goes to one of the names. -/
theorem numbered_inventions [LawfulSource σ] (depth : Nat) (scope : List Name) (g : Generator σ) :
    Numbered g.nextName (inventions depth scope g) (generate depth scope g).2.nextName := by
  obtain ⟨names, run, numbered⟩ := Watches.generate depth scope g []
  rw [inventions, run]
  exact numbered

end Inventions

/-- Names that were invented before are not invented again. -/
theorem Older.not_inventedBetween {k l : Nat} {scope : List Name} (h : Older k scope) :
    ∀ x ∈ scope, ¬ InventedBetween k l x := by
  rintro x member ⟨i, above, -, found⟩
  obtain ⟨j, below, old⟩ := h x member
  have same := old.number_eq found
  omega

/-! ## What can be invented -/

/-- A source that always draws the same: three parts wherever there is room for parts, an invented
name wherever there is none, and one stem for all names. -/
structure Stubborn where
  stem : Nat

namespace Stubborn

instance : Source Stubborn where
  below bound s := (min 6 (bound - 1), s)
  wideBelow bound s := (min s.stem (bound - 1), s)
  coin s := (true, s)
  onceInTen s := (true, s)

instance : LawfulSource Stubborn where
  below_lt bound _ positive := by
    show min 6 (bound - 1) < bound
    omega
  wideBelow_lt bound s positive := by
    show min s.stem (bound - 1) < bound
    omega

/-- The name with number `k`. -/
def name (s : Stubborn) (k : Nat) : Name :=
  stems.getD (min s.stem (stems.length - 1)) "" ++ countText k

theorem exists_name {k : Nat} {x : Name} (h : Invented k x) : ∃ s : Stubborn, s.name k = x := by
  obtain ⟨stem, member, rfl⟩ := h
  obtain ⟨i, small, rfl⟩ := List.mem_iff_getElem.1 member
  refine ⟨⟨i⟩, ?_⟩
  rw [name, Nat.min_eq_left (Nat.le_sub_one_of_lt small), List.getD_eq_getElem _ _ small]

variable {α β : Type} {s : Stubborn} {m n : Nat}

/-- The watched step notes the next `n` names. -/
def Notes (s : Stubborn) (n : Nat) (step : Watch Stubborn α) : Prop :=
  ∀ k names, ∃ a, step ⟨⟨s, k⟩, names⟩ =
    some (a, ⟨⟨s, k + n⟩, names ++ (List.range' k n).map s.name⟩)

theorem Notes.pure (a : α) : Notes s 0 (pure a : Watch Stubborn α) := by
  intro k names
  refine ⟨a, ?_⟩
  rw [List.range'_zero, List.map_nil, List.append_nil]
  rfl

theorem Notes.bind {step : Watch Stubborn α} {f : α → Watch Stubborn β} (h : Notes s m step)
    (hf : ∀ a, Notes s n (f a)) : Notes s (m + n) (step >>= f) := by
  intro k names
  obtain ⟨a, first⟩ := h k names
  obtain ⟨b, second⟩ := hf a (k + m) (names ++ (List.range' k m).map s.name)
  refine ⟨b, ?_⟩
  show (step ⟨⟨s, k⟩, names⟩).bind (fun r => f r.1 r.2) = _
  rw [first, ← Nat.add_assoc, ← List.range'_append_1, List.map_append, ← List.append_assoc]
  exact second

/-- A full tree of choices has `3 ^ depth` leaves, all of them invented names. -/
theorem notes_generate (s : Stubborn) (depth : Nat) (scope : List Name) :
    Notes s (3 ^ depth) (Watch.generate depth scope) := by
  induction depth with
  | zero =>
    intro k names
    refine ⟨.var (s.name k), ?_⟩
    cases scope <;> rfl
  | succ depth ih =>
    have choice : Notes s (3 ^ depth + (3 ^ depth + (3 ^ depth + 0)))
        (Watch.node (Watch.generate depth) scope 6) :=
      .bind ih fun a => .bind ih fun b => .bind ih fun c => .pure _
    have parts : 3 ^ (depth + 1) = 3 ^ depth + (3 ^ depth + (3 ^ depth + 0)) := by
      rw [pow_succ]
      omega
    rw [parts]
    exact choice

/-- As many numbers are used up as the depth allows. -/
theorem nextName_generate (s : Stubborn) (depth : Nat) (scope : List Name) (k : Nat) :
    (generate depth scope ⟨s, k⟩).2.nextName = k + 3 ^ depth := by
  obtain ⟨e, noted⟩ := notes_generate s depth scope k []
  obtain ⟨more, watched, -⟩ := Watches.generate depth scope (⟨s, k⟩ : Generator Stubborn) []
  rw [noted] at watched
  have ends := congrArg (·.2.generator.nextName) (Option.some.inj watched)
  exact ends.symm

theorem inventions_eq (s : Stubborn) (depth : Nat) (scope : List Name) (k : Nat) :
    inventions depth scope ⟨s, k⟩ = (List.range' k (3 ^ depth)).map s.name := by
  obtain ⟨e, run⟩ := notes_generate s depth scope k []
  rw [inventions, run]
  rfl

/-- Each name with one of the next `3 ^ depth` numbers is invented by some draws, in every scope. -/
theorem exists_mem_inventions {k depth : Nat} {x : Name}
    (h : InventedBetween k (k + 3 ^ depth) x) (scope : List Name) :
    ∃ s : Stubborn, x ∈ inventions depth scope ⟨s, k⟩ := by
  obtain ⟨i, above, below, found⟩ := h
  obtain ⟨s, rfl⟩ := exists_name found
  refine ⟨s, ?_⟩
  rw [inventions_eq]
  exact List.mem_map.2 ⟨i, List.mem_range'_1.2 ⟨above, below⟩, rfl⟩

end Stubborn

/-! ## Collisions -/

/-- The number of the next name keeps to 64 bits, whatever is drawn, if and only if there is room
for a name at each leaf of a full tree of choices. -/
theorem numbers_fit_iff (k depth : Nat) (scope : List Name) :
    (∀ (σ : Type) [Source σ] [LawfulSource σ] (source : σ),
        (generate depth scope ⟨source, k⟩).2.nextName < 2 ^ 64) ↔
      k + 3 ^ depth < 2 ^ 64 := by
  constructor
  · intro fit
    have last := fit Stubborn ⟨0⟩
    rwa [Stubborn.nextName_generate] at last
  · intro room σ _ _ source
    have few := (generates_generate depth scope ⟨source, k⟩).last_le_pow
    exact Nat.lt_of_le_of_lt few room

/-- Whatever is drawn, a scope without the names with the next `3 ^ depth` numbers is avoided. -/
theorem avoids_of_apart {σ : Type} [Source σ] [LawfulSource σ] {k depth : Nat} {scope : List Name}
    (apart : ∀ x ∈ scope, ¬ InventedBetween k (k + 3 ^ depth) x) (source : σ) :
    (∀ x ∈ (generate depth scope ⟨source, k⟩).1.binders, x ∉ scope) ∧
      ∀ x ∈ inventions depth scope ⟨source, k⟩, x ∉ scope := by
  have generated := generates_generate depth scope ⟨source, k⟩
  have numbered := numbered_inventions depth scope ⟨source, k⟩
  have few := generated.last_le_pow
  constructor
  · intro x binder member
    have between := generated.inventedBetween_of_mem_binders binder
    exact apart x member (between.mono (Nat.le_refl k) few)
  · intro x noted member
    have between := numbered.inventedBetween noted
    exact apart x member (between.mono (Nat.le_refl k) few)

/-- For a generator whose next name has number `k`, a depth and a scope: whatever is drawn, the
number of the next name stays below `2 ^ 64`, if and only if `k + 3 ^ depth` is below it. Then these
say the same: whatever is drawn, neither a binding nor an invented variable has a name that is in
scope; and the scope has none of the names with the `3 ^ depth` numbers from `k` on. -/
theorem avoids_scope_iff (k depth : Nat) (scope : List Name) :
    ((∀ (σ : Type) [Source σ] [LawfulSource σ] (source : σ),
          (generate depth scope ⟨source, k⟩).2.nextName < 2 ^ 64) ↔
        k + 3 ^ depth < 2 ^ 64) ∧
      (k + 3 ^ depth < 2 ^ 64 →
        ((∀ (σ : Type) [Source σ] [LawfulSource σ] (source : σ),
            (∀ x ∈ (generate depth scope ⟨source, k⟩).1.binders, x ∉ scope) ∧
              ∀ x ∈ inventions depth scope ⟨source, k⟩, x ∉ scope) ↔
          ∀ x ∈ scope, ¬ InventedBetween k (k + 3 ^ depth) x)) := by
  refine ⟨numbers_fit_iff k depth scope, fun _ => ⟨fun avoids x member between => ?_, ?_⟩⟩
  · obtain ⟨s, invented⟩ := Stubborn.exists_mem_inventions between scope
    exact (avoids Stubborn s).2 x invented member
  · intro apart σ _ _ source
    exact avoids_of_apart apart source

/-- A name that was invented before is left alone by all that follows. -/
theorem avoids_scope_iff_older :
    (generate 1 ["b0"] (⟨Keystream.ofSeed 17, 1⟩ : Generator Keystream)).1 =
        .letIn "b1" (.num ⟨0xc00e000000000000⟩) (.var "b0") ∧
      1 + 3 ^ 1 < 2 ^ 64 ∧
      (∀ x ∈ (generate 1 ["b0"] (⟨Keystream.ofSeed 17, 1⟩ : Generator Keystream)).1.binders,
        x ∉ ["b0"]) ∧
      ∀ x ∈ inventions 1 ["b0"] (⟨Keystream.ofSeed 17, 1⟩ : Generator Keystream), x ∉ ["b0"] := by
  have older : Older 1 ["b0"] := by
    intro x member
    rw [List.mem_singleton.1 member]
    exact ⟨0, by decide, "b", by decide, by decide⟩
  have avoids := ((avoids_scope_iff 1 1 ["b0"]).2 (by decide)).2 older.not_inventedBetween
  exact ⟨by decide +kernel, by decide, avoids Keystream (Keystream.ofSeed 17)⟩

/-- A new generator knows nothing of a name in scope that it will invent itself. It binds the name,
and captures the variable that it then takes from the scope. -/
theorem scope_name_bound_again :
    (generate 1 ["b0"] (Generator.new (Keystream.ofSeed 17))).1 =
        .letIn "b0" (.num ⟨0xc00e000000000000⟩) (.var "b0") ∧
      ¬ ((∀ x ∈ (generate 1 ["b0"] (Generator.new (Keystream.ofSeed 17))).1.binders,
            x ∉ ["b0"]) ∧
          ∀ x ∈ inventions 1 ["b0"] (Generator.new (Keystream.ofSeed 17)), x ∉ ["b0"]) :=
  ⟨by decide +kernel, by decide +kernel⟩

end Twofold.Chance
