import Twofold.Failure

/-!
# Reports

What a run of trials counted: the trials, those with a value, and those with each kind of failure.
-/

namespace Twofold.Trial

/-- Counts by kind of failure, in the order of the kinds. -/
structure Tally where
  entries : List (FailureKind × Nat)
deriving DecidableEq, Inhabited, Repr

namespace Tally

/-- Nothing counted. -/
def empty : Tally := ⟨[]⟩

/-- Replaces or adds the count of a kind at its place. -/
def insertEntry (k : FailureKind) (n : Nat) : List (FailureKind × Nat) → List (FailureKind × Nat)
  | [] => [(k, n)]
  | (j, m) :: rest =>
    if k = j then (k, n) :: rest
    else if k.rank < j.rank then (k, n) :: (j, m) :: rest
    else (j, m) :: insertEntry k n rest

/-- Sets the count of a kind. -/
def insert (t : Tally) (k : FailureKind) (n : Nat) : Tally := ⟨insertEntry k n t.entries⟩

/-- The count of a kind. -/
def count (t : Tally) (k : FailureKind) : Nat := (t.entries.lookup k).getD 0

/-- Counts one more of a kind. -/
def increment (t : Tally) (k : FailureKind) : Tally := t.insert k (t.count k + 1)

/-- The sum of all counts. -/
def total (t : Tally) : Nat := (t.entries.map Prod.snd).foldr (· + ·) 0

/-- The JSON form of the counts: a member for every kind that was counted. -/
def toJson (t : Tally) : Json := .object (t.entries.map fun (k, n) => (k.tag, .count n))

/-- The counts as a log shows them. -/
def text (t : Tally) : String :=
  "\x7b" ++ ", ".intercalate (t.entries.map fun (k, n) => k.tag ++ ": " ++ countText n) ++ "\x7d"

end Tally

/-- What a run counted. -/
structure Report where
  seed : UInt64
  trials : Nat
  values : Nat
  errors : Tally
deriving DecidableEq, Inhabited, Repr

namespace Report

/-- A run before its first trial. -/
def new (seed : UInt64) : Report := ⟨seed, 0, 0, .empty⟩

/-- Counts a trial by the kind of its failure. -/
def add (r : Report) : Option FailureKind → Report
  | none => { r with trials := r.trials + 1, values := r.values + 1 }
  | some k => { r with trials := r.trials + 1, errors := r.errors.increment k }

/-- The JSON form of a report. -/
def toJson (r : Report) : Json :=
  .object [("seed", .count r.seed.toNat), ("trials", .count r.trials), ("values", .count r.values),
    ("errors", r.errors.toJson)]

end Report

end Twofold.Trial
