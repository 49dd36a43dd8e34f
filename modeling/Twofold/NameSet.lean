/-!
# Sets of names

A finite set of names, kept as its strictly increasing list, so that two sets with the same members
are equal. Names are ordered by code points, which is the order of their UTF-8 bytes.
-/

namespace Twofold

/-- A name of a variable: any text. -/
abbrev Name := String

/-- A finite set of names. -/
structure NameSet where
  toList : List Name
  sorted : toList.Pairwise (· < ·)

namespace NameSet

/-- The empty set. -/
def empty : NameSet := ⟨[], .nil⟩

instance : EmptyCollection NameSet := ⟨empty⟩

instance : Membership Name NameSet := ⟨fun s x => x ∈ s.toList⟩

instance (x : Name) (s : NameSet) : Decidable (x ∈ s) :=
  inferInstanceAs (Decidable (x ∈ s.toList))

theorem mem_def {x : Name} {s : NameSet} : x ∈ s ↔ x ∈ s.toList := Iff.rfl

@[simp] theorem not_mem_empty (x : Name) : x ∉ (∅ : NameSet) := List.not_mem_nil

/-- The place of `x` in an increasing list. -/
def insertSorted (x : Name) : List Name → List Name
  | [] => [x]
  | y :: ys => if x < y then x :: y :: ys else if x = y then y :: ys else y :: insertSorted x ys

@[simp] theorem mem_insertSorted {x y : Name} {ys : List Name} :
    y ∈ insertSorted x ys ↔ y = x ∨ y ∈ ys := by
  induction ys with
  | nil => simp [insertSorted]
  | cons z zs ih =>
    rw [insertSorted]
    split
    · simp
    · split
      · next h => subst h; simp
      · simp only [List.mem_cons, ih]; grind

theorem sorted_insertSorted {x : Name} {ys : List Name} (h : ys.Pairwise (· < ·)) :
    (insertSorted x ys).Pairwise (· < ·) := by
  induction ys with
  | nil => simp [insertSorted]
  | cons y ys ih =>
    obtain ⟨hy, hys⟩ := List.pairwise_cons.1 h
    rw [insertSorted]
    split
    · next hxy =>
      refine List.pairwise_cons.2 ⟨fun z hz => ?_, h⟩
      rcases List.mem_cons.1 hz with rfl | hz
      · exact hxy
      · exact String.lt_trans hxy (hy z hz)
    · next hxy =>
      split
      · exact h
      · next hne =>
        refine List.pairwise_cons.2 ⟨fun z hz => ?_, ih hys⟩
        rcases mem_insertSorted.1 hz with rfl | hz
        · exact Classical.byContradiction fun hyz =>
            hne (String.le_antisymm (String.not_lt.1 hyz) (String.not_lt.1 hxy))
        · exact hy z hz

/-- The set with one more member. -/
def insert (s : NameSet) (x : Name) : NameSet :=
  ⟨insertSorted x s.toList, sorted_insertSorted s.sorted⟩

@[simp] theorem mem_insert {s : NameSet} {x y : Name} : y ∈ s.insert x ↔ y = x ∨ y ∈ s :=
  mem_insertSorted

end NameSet

end Twofold
