import Twofold.Expr.Subst
import Twofold.Proofs.FreeNames

/-!
# The names that a substitution leaves

Substitution and the walk for free names stop at the same bindings, so what a substitution takes out
of an expression is every free occurrence of its name and nothing else. The set of free names loses
the name, and an expression in which it is not free stays as it is.
-/

namespace Twofold

namespace NameSet

/-- Sets with the same members are equal, since their lists are in order. -/
theorem ext {s t : NameSet} (h : ∀ x, x ∈ s ↔ x ∈ t) : s = t := by
  have perm : s.toList.Perm t.toList :=
    (List.perm_ext_iff_of_nodup s.nodup_toList t.nodup_toList).2 h
  have lists : s.toList = t.toList := perm.eq_of_pairwise
    (fun x y _ _ below above => absurd (String.lt_trans below above) (String.lt_irrefl x))
    s.sorted t.sorted
  cases s
  cases t
  cases lists
  rfl

/-- The set without a member. -/
def erase (s : NameSet) (x : Name) : NameSet := ⟨s.toList.filter (· ≠ x), s.sorted.filter _⟩

@[simp] theorem mem_erase {s : NameSet} {x y : Name} : y ∈ s.erase x ↔ y ∈ s ∧ y ≠ x := by
  rw [mem_def, erase, List.mem_filter, decide_eq_true_eq, mem_def]

end NameSet

/-- The expression that denotes a value has no names. -/
@[simp] theorem Value.freeOccurrences_toExpr (v : Value) (bound : List Name) :
    v.toExpr.freeOccurrences bound = [] := by
  induction v with
  | num n => rfl
  | bool b => rfl
  | pair a b iha ihb => rw [toExpr, Expr.freeOccurrences, iha, ihb, List.append_nil]

namespace Expr

theorem not_mem_of_mem_freeOccurrences {e : Expr} {bound : List Name} {x : Name}
    (free : x ∈ e.freeOccurrences bound) : x ∉ bound := by
  induction e generalizing bound with
  | num n => cases free
  | bool b => cases free
  | var y =>
    rw [freeOccurrences] at free
    split at free
    · cases free
    · next unbound => rwa [List.mem_singleton.1 free]
  | letIn y a b iha ihb =>
    rcases List.mem_append.1 free with free | free
    · exact iha free
    · intro member
      exact ihb free (List.mem_cons_of_mem y member)
  | add a b iha ihb | le a b iha ihb | pair a b iha ihb =>
    exact (List.mem_append.1 free).elim iha ihb
  | ite a b c iha ihb ihc =>
    rcases List.mem_append.1 free with free | free
    · exact (List.mem_append.1 free).elim iha ihb
    · exact ihc free
  | head a iha | tail a iha => exact iha free

/-- A substitution takes out the free occurrences of its name, wherever the walk has got to. -/
theorem freeOccurrences_subst (x : Name) (v : Value) (e : Expr) (bound : List Name) :
    (e.subst x v).freeOccurrences bound = (e.freeOccurrences bound).filter (· ≠ x) := by
  induction e generalizing bound with
  | num n => rfl
  | bool b => rfl
  | var y =>
    by_cases same : y = x
    · subst same
      rw [subst, if_pos rfl, Value.freeOccurrences_toExpr, freeOccurrences]
      split <;> simp
    · rw [subst, if_neg same, freeOccurrences]
      split <;> simp [same]
  | letIn y a b iha ihb =>
    rw [subst, freeOccurrences, freeOccurrences, List.filter_append, iha]
    congr 1
    by_cases same : y = x
    · -- The body is left alone, and no occurrence of the name is free in it.
      rw [if_pos same]
      symm
      apply List.filter_eq_self.2
      intro z free
      have unbound := not_mem_of_mem_freeOccurrences free
      rw [decide_eq_true_eq]
      rintro rfl
      exact unbound (same ▸ List.mem_cons_self)
    · rw [if_neg same, ihb]
  | add a b iha ihb | le a b iha ihb | pair a b iha ihb =>
    rw [subst, freeOccurrences, freeOccurrences, List.filter_append, iha, ihb]
  | ite a b c iha ihb ihc =>
    rw [subst, freeOccurrences, freeOccurrences, List.filter_append, List.filter_append, iha, ihb,
      ihc]
  | head a iha | tail a iha => rw [subst, freeOccurrences, freeOccurrences, iha]

/-- Where a name is not free, there is nothing to replace. -/
theorem subst_eq_self {x : Name} (v : Value) {e : Expr} {bound : List Name} (outer : x ∉ bound)
    (h : x ∉ e.freeOccurrences bound) : e.subst x v = e := by
  induction e generalizing bound with
  | num n => rfl
  | bool b => rfl
  | var y =>
    have other : y ≠ x := by
      rintro rfl
      rw [freeOccurrences, if_neg outer] at h
      exact h List.mem_cons_self
    rw [subst, if_neg other]
  | letIn y a b iha ihb =>
    rw [freeOccurrences, List.mem_append, not_or] at h
    rw [subst, iha outer h.1]
    by_cases same : y = x
    · rw [if_pos same]
    · have inner : x ∉ y :: bound := by simp [outer, Ne.symm same]
      rw [if_neg same, ihb inner h.2]
  | add a b iha ihb | le a b iha ihb | pair a b iha ihb =>
    rw [freeOccurrences, List.mem_append, not_or] at h
    rw [subst, iha outer h.1, ihb outer h.2]
  | ite a b c iha ihb ihc =>
    rw [freeOccurrences, List.mem_append, List.mem_append, not_or, not_or] at h
    rw [subst, iha outer h.1.1, ihb outer h.1.2, ihc outer h.2]
  | head a iha | tail a iha => rw [subst, iha outer h]

theorem freeVars_subst (x : Name) (v : Value) (e : Expr) :
    (e.subst x v).freeVars = e.freeVars.erase x := by
  apply NameSet.ext
  intro y
  rw [mem_freeVars, freeOccurrences_subst, List.mem_filter, decide_eq_true_eq, NameSet.mem_erase,
    mem_freeVars]

/-- A substitution removes its name from the free names and no other one, and it leaves alone
exactly the expressions in which the name is not free. -/
theorem subst_removes_name (x : Name) (v : Value) (e : Expr) :
    (e.subst x v).freeVars = e.freeVars.erase x ∧ (e.subst x v = e ↔ x ∉ e.freeVars) := by
  refine ⟨freeVars_subst x v e, ?_, ?_⟩
  · intro same free
    have removed : x ∉ (e.subst x v).freeVars := by
      rw [freeVars_subst, NameSet.mem_erase]
      intro kept
      exact kept.2 rfl
    rw [same] at removed
    exact removed free
  · intro absent
    rw [mem_freeVars] at absent
    exact subst_eq_self v List.not_mem_nil absent

/-- A binding of the name itself: the bound expression is reached, the body is not. -/
example : (letIn "x" (var "x") (var "x")).subst "x" (.bool true) =
    letIn "x" (bool true) (var "x") := by decide

end Expr

end Twofold
