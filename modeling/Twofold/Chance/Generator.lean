import Twofold.Expr
import Twofold.Failure
import Twofold.Chance.Draw

/-!
# Random expressions

Expressions of bounded depth. Variables are taken from the scope, now and then one is left unbound;
invented names carry a running number, so no two of them are equal.
-/

namespace Twofold.Chance

/-- A source of chance, and the number of the next invented name. -/
structure Generator (σ : Type) where
  source : σ
  /-- Any natural number. Where numbers of names have 64 bits, a generator stands for one that
  counts with them only as long as this stays below `2 ^ 64`. -/
  nextName : Nat

/-- A step of generation. -/
abbrev Gen (σ : Type) := StateM (Generator σ)

namespace Generator

variable {σ : Type}

/-- A generator that has invented no name yet. -/
def new (source : σ) : Generator σ := ⟨source, 0⟩

/-- The numbers that occur: both zeros, negative ones, fractions, and one that no short binary
fraction equals. -/
def numberPool : List Number :=
  [⟨0x0000000000000000⟩, -- 0
   ⟨0x8000000000000000⟩, -- -0
   ⟨0x3ff0000000000000⟩, -- 1
   ⟨0xbff0000000000000⟩, -- -1
   ⟨0x4004000000000000⟩, -- 2.5
   ⟨0xc00e000000000000⟩, -- -3.75
   ⟨0x4045000000000000⟩, -- 42
   ⟨0x3fb999999999999a⟩] -- 0.1

/-- What invented names start with. -/
def stems : List String := ["a", "b", "x", "y", "ζ", "é"]

/-- Asks the source. -/
def ask {α : Type} (draw : σ → α × σ) : Gen σ α := fun g =>
  let (a, source) := draw g.source
  (a, { g with source })

variable [Source σ]

/-- A name that was not invented before. -/
def freshName : Gen σ Name := do
  let i ← ask (Source.wideBelow stems.length)
  let n ← modifyGet fun g => (g.nextName, { g with nextName := g.nextName + 1 })
  return stems.getD i "" ++ countText n

/-- A number. -/
def number : Gen σ Expr := do
  let i ← ask (Source.wideBelow numberPool.length)
  return .num (numberPool.getD i ⟨0⟩)

/-- A boolean. -/
def boolean : Gen σ Expr := do return .bool (← ask Source.coin)

/-- A name from the scope, or once in ten times, and always from an empty scope, an invented one. -/
def variableLeaf (scope : List Name) : Gen σ Expr := do
  if scope.isEmpty then return .var (← freshName)
  if ← ask Source.onceInTen then return .var (← freshName)
  let i ← ask (Source.wideBelow scope.length)
  return .var (scope.getD i "")

/-- The leaf with a number. -/
def leaf (scope : List Name) : Nat → Gen σ Expr
  | 0 => number
  | 1 => boolean
  | _ => variableLeaf scope

/-- An expression of at most the given depth. Its parts are generated from left to right; the name
of a binding is invented before its parts. -/
def generate : (depth : Nat) → (scope : List Name) → Gen σ Expr
  | 0, scope => do leaf scope (← ask (Source.below 3))
  | depth + 1, scope => do
    match ← ask (Source.below 10) with
    | 3 => return .add (← generate depth scope) (← generate depth scope)
    | 4 => return .le (← generate depth scope) (← generate depth scope)
    | 5 =>
      let x ← freshName
      return .letIn x (← generate depth scope) (← generate depth (scope ++ [x]))
    | 6 =>
      return .ite (← generate depth scope) (← generate depth scope) (← generate depth scope)
    | 7 => return .pair (← generate depth scope) (← generate depth scope)
    | 8 => return .head (← generate depth scope)
    | 9 => return .tail (← generate depth scope)
    | form => leaf scope form

end Generator

end Twofold.Chance
