import Mathlib
import Twofold.Trial.Report

/-!
# Tallies

The entries of a tally stand in the order of the kinds, one for each kind that was counted. As long
as they do, counting one more of a kind adds one to the sum of all counts.
-/

namespace Twofold

theorem FailureKind.eq_of_rank_eq {j k : FailureKind} (h : j.rank = k.rank) : j = k := by
  revert h
  cases j <;> cases k <;> decide

namespace Trial.Tally

/-- The entries stand in the order of their kinds. -/
def Ordered (entries : List (FailureKind × Nat)) : Prop :=
  entries.Pairwise fun p q => p.1.rank < q.1.rank

theorem lookup_eq_none {k : FailureKind} {entries : List (FailureKind × Nat)}
    (h : ∀ p ∈ entries, k.rank < p.1.rank) : entries.lookup k = none := by
  rw [List.lookup_eq_none_iff]
  intro p hp
  have above := h p hp
  simp only [bne_iff_ne, ne_eq]
  rintro rfl
  exact Nat.lt_irrefl _ above

theorem mem_insertEntry {k : FailureKind} {n : Nat} {entries : List (FailureKind × Nat)}
    {p : FailureKind × Nat} (h : p ∈ insertEntry k n entries) : p = (k, n) ∨ p ∈ entries := by
  induction entries with
  | nil => exact Or.inl (List.mem_singleton.1 h)
  | cons q rest ih =>
    obtain ⟨j, m⟩ := q
    rw [insertEntry] at h
    split at h
    · rcases List.mem_cons.1 h with rfl | member
      · exact Or.inl rfl
      · exact Or.inr (List.mem_cons_of_mem _ member)
    · split at h
      · exact List.mem_cons.1 h
      · rcases List.mem_cons.1 h with rfl | member
        · exact Or.inr List.mem_cons_self
        · rcases ih member with rfl | member
          · exact Or.inl rfl
          · exact Or.inr (List.mem_cons_of_mem _ member)

theorem ordered_insertEntry {k : FailureKind} {n : Nat} {entries : List (FailureKind × Nat)}
    (h : Ordered entries) : Ordered (insertEntry k n entries) := by
  induction entries with
  | nil => exact List.pairwise_singleton _ _
  | cons q rest ih =>
    obtain ⟨j, m⟩ := q
    obtain ⟨above, ordered⟩ := List.pairwise_cons.1 h
    rw [insertEntry]
    split
    · next same =>
      subst same
      exact List.pairwise_cons.2 ⟨above, ordered⟩
    · next other =>
      split
      · next below =>
        refine List.pairwise_cons.2 ⟨fun p hp => ?_, h⟩
        rcases List.mem_cons.1 hp with rfl | hp
        · exact below
        · exact Nat.lt_trans below (above p hp)
      · next notBelow =>
        refine List.pairwise_cons.2 ⟨fun p hp => ?_, ih ordered⟩
        rcases mem_insertEntry hp with rfl | hp
        · have different : j.rank ≠ k.rank := fun same =>
            other (FailureKind.eq_of_rank_eq same).symm
          exact Nat.lt_of_le_of_ne (Nat.not_lt.1 notBelow) different
        · exact above p hp

theorem lookup_cons_eq (j k : FailureKind) (n : Nat) (rest : List (FailureKind × Nat)) :
    ((k, n) :: rest).lookup j = if j = k then some n else rest.lookup j := by
  by_cases same : j = k <;> simp [List.lookup_cons, beq_eq_decide, same]

/-- The count of a kind is the one that was set, and the other counts stay as they are. -/
theorem lookup_insertEntry (j k : FailureKind) (n : Nat) (entries : List (FailureKind × Nat)) :
    (insertEntry k n entries).lookup j = if j = k then some n else entries.lookup j := by
  induction entries with
  | nil => exact lookup_cons_eq j k n []
  | cons q rest ih =>
    obtain ⟨i, m⟩ := q
    rw [insertEntry]
    split
    · next same =>
      subst same
      rw [lookup_cons_eq, lookup_cons_eq]
      split <;> rfl
    · next other =>
      split
      · exact lookup_cons_eq j k n _
      · rw [lookup_cons_eq, lookup_cons_eq, ih]
        by_cases here : j = k
        · subst here
          rw [if_neg other, if_pos rfl, if_pos rfl]
        · rw [if_neg here, if_neg here]

theorem count_increment (t : Tally) (j k : FailureKind) :
    (t.increment k).count j = t.count j + if j = k then 1 else 0 := by
  have counted : (t.increment k).count j =
      (if j = k then some (t.count k + 1) else t.entries.lookup j).getD 0 :=
    congrArg (Option.getD · 0) (lookup_insertEntry j k (t.count k + 1) t.entries)
  rw [counted]
  split
  · next same =>
    subst same
    rfl
  · rfl

/-- The sum of all counts takes the new count of a kind in place of the old one. -/
theorem total_insertEntry {k : FailureKind} {n : Nat} {entries : List (FailureKind × Nat)}
    (h : Ordered entries) :
    total ⟨insertEntry k n entries⟩ + (entries.lookup k).getD 0 = total ⟨entries⟩ + n := by
  induction entries with
  | nil => simp [insertEntry, total]
  | cons q rest ih =>
    obtain ⟨j, m⟩ := q
    obtain ⟨above, ordered⟩ := List.pairwise_cons.1 h
    rw [insertEntry]
    split
    · next same =>
      subst same
      simp only [total, List.map_cons, List.foldr_cons, List.lookup_cons, beq_self_eq_true,
        Option.getD_some]
      omega
    · next other =>
      have skip : ((j, m) :: rest).lookup k = rest.lookup k := by
        rw [lookup_cons_eq, if_neg other]
      split
      · next below =>
        have missing : rest.lookup k = none :=
          lookup_eq_none fun p hp => Nat.lt_trans below (above p hp)
        simp only [total, List.map_cons, List.foldr_cons, skip, missing, Option.getD_none]
        omega
      · have rest := ih ordered
        simp only [total, List.map_cons, List.foldr_cons, skip] at rest ⊢
        omega

theorem total_increment {t : Tally} (h : Ordered t.entries) (k : FailureKind) :
    (t.increment k).total = t.total + 1 := by
  obtain ⟨entries⟩ := t
  have exchanged : total ⟨insertEntry k ((entries.lookup k).getD 0 + 1) entries⟩ +
      (entries.lookup k).getD 0 = total ⟨entries⟩ + ((entries.lookup k).getD 0 + 1) :=
    total_insertEntry h
  show total ⟨insertEntry k ((entries.lookup k).getD 0 + 1) entries⟩ = total ⟨entries⟩ + 1
  omega

end Trial.Tally

end Twofold
