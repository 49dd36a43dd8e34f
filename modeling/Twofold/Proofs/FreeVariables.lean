import Twofold.Proofs.Occurrences

/-!
# Free names by structure

The free names of an expression as the textbook defines them, from those of its parts: a binding
takes its name away from the free names of its body, and from those alone. The walk with a stack
adds these names to the ones that it has met, but for those that are on the stack, whichever stack
it starts with; and they are the names with an occurrence outside the bodies of their bindings.
-/

namespace Twofold

namespace NameSet

/-- The members. -/
def toFinset (s : NameSet) : Finset Name := ⟨s.toList, s.nodup_toList⟩

@[simp] theorem mem_toFinset {s : NameSet} {x : Name} : x ∈ s.toFinset ↔ x ∈ s := Iff.rfl

@[simp] theorem toFinset_empty : (∅ : NameSet).toFinset = ∅ := rfl

end NameSet

namespace Expr

/-- The free names, by structure. -/
def fv : Expr → Finset Name
  | num _ | bool _ => ∅
  | var x => {x}
  | add a b | le a b | pair a b => a.fv ∪ b.fv
  | letIn x a b => a.fv ∪ (b.fv \ {x})
  | ite a b c => a.fv ∪ b.fv ∪ c.fv
  | head a | tail a => a.fv

/-- `x` has an occurrence that is not in the body of a binding of `x`. -/
def OccursFree (x : Name) (e : Expr) : Prop := ∃ c : Frames, c.fill (var x) = e ∧ x ∉ c.scope

variable {e : Expr} {x : Name}

/-! ## The walk -/

/-- What the walk meets is free, unless the stack that it starts with captures it: a name that a
binding inside has pushed is taken away there, also if it is on the stack already. -/
theorem mem_freeOccurrences_iff {bound : List Name} :
    x ∈ e.freeOccurrences bound ↔ x ∈ e.fv ∧ x ∉ bound := by
  induction e generalizing bound with
  | num | bool => simp [freeOccurrences, fv]
  | var y =>
    rw [freeOccurrences, fv, Finset.mem_singleton]
    split
    · next captured =>
      simp only [List.not_mem_nil, false_iff, not_and, not_not]
      rintro rfl
      exact captured
    · next unbound =>
      rw [List.mem_singleton]
      exact ⟨fun same => ⟨same, same ▸ unbound⟩, And.left⟩
  | letIn y a b iha ihb =>
    rw [freeOccurrences, fv, List.mem_append, iha, ihb, List.mem_cons, not_or, Finset.mem_union,
      Finset.mem_sdiff, Finset.mem_singleton, or_and_right, and_assoc]
  | add a b iha ihb | le a b iha ihb | pair a b iha ihb =>
    rw [freeOccurrences, fv, List.mem_append, iha, ihb, Finset.mem_union, or_and_right]
  | ite a b c iha ihb ihc =>
    rw [freeOccurrences, fv, List.mem_append, List.mem_append, iha, ihb, ihc, Finset.mem_union,
      Finset.mem_union, or_and_right, or_and_right]
  | head a iha | tail a iha => exact iha

theorem bound_scanFree (e : Expr) (s : FreeScan) : (e.scanFree s).bound = s.bound := by
  rw [scanFree_eq]

theorem toFinset_free_scanFree (e : Expr) (s : FreeScan) :
    (e.scanFree s).free.toFinset = s.free.toFinset ∪ (e.fv \ s.bound.toFinset) := by
  ext x
  rw [scanFree_eq, NameSet.mem_toFinset, NameSet.mem_foldl_insert, mem_freeOccurrences_iff,
    Finset.mem_union, NameSet.mem_toFinset, Finset.mem_sdiff, List.mem_toFinset]

theorem toFinset_freeVars (e : Expr) : e.freeVars.toFinset = e.fv := by
  rw [freeVars, toFinset_free_scanFree]
  simp

/-! ## Occurrences -/

/-- An occurrence inside a node is one of the node, if the node does not bind the name there. -/
theorem OccursFree.fill (h : OccursFree x e) (f : Frame) (unbound : x ∉ f.binds) :
    OccursFree x (f.fill e) := by
  obtain ⟨c, rfl, apart⟩ := h
  refine ⟨f :: c, rfl, ?_⟩
  rw [Frames.scope, List.flatMap_cons, List.mem_append, not_or]
  exact ⟨unbound, apart⟩

theorem occursFree_of_mem_fv (h : x ∈ e.fv) : OccursFree x e := by
  induction e with
  | num | bool => cases h
  | var y =>
    rw [Finset.mem_singleton.1 h]
    exact ⟨[], rfl, List.not_mem_nil⟩
  | add a b iha ihb =>
    rcases Finset.mem_union.1 h with left | right
    · exact (iha left).fill (.addLeft b) List.not_mem_nil
    · exact (ihb right).fill (.addRight a) List.not_mem_nil
  | le a b iha ihb =>
    rcases Finset.mem_union.1 h with left | right
    · exact (iha left).fill (.leLeft b) List.not_mem_nil
    · exact (ihb right).fill (.leRight a) List.not_mem_nil
  | letIn y a b iha ihb =>
    rcases Finset.mem_union.1 h with bound | body
    · exact (iha bound).fill (.letBound y b) List.not_mem_nil
    · obtain ⟨free, other⟩ := Finset.mem_sdiff.1 body
      exact (ihb free).fill (.letBody y a) fun same =>
        other (Finset.mem_singleton.2 (List.mem_singleton.1 same))
  | ite a b c iha ihb ihc =>
    rcases Finset.mem_union.1 h with earlier | no
    · rcases Finset.mem_union.1 earlier with test | yes
      · exact (iha test).fill (.iteTest b c) List.not_mem_nil
      · exact (ihb yes).fill (.iteYes a c) List.not_mem_nil
    · exact (ihc no).fill (.iteNo a b) List.not_mem_nil
  | pair a b iha ihb =>
    rcases Finset.mem_union.1 h with first | second
    · exact (iha first).fill (.pairFirst b) List.not_mem_nil
    · exact (ihb second).fill (.pairSecond a) List.not_mem_nil
  | head a iha => exact (iha h).fill .head List.not_mem_nil
  | tail a iha => exact (iha h).fill .tail List.not_mem_nil

theorem mem_fv_iff_occursFree : x ∈ e.fv ↔ OccursFree x e := by
  refine ⟨occursFree_of_mem_fv, ?_⟩
  rintro ⟨c, rfl, apart⟩
  have met : x ∈ (c.fill (var x)).freeOccurrences [] :=
    Frames.mem_freeOccurrences_fill_var List.not_mem_nil apart
  exact (mem_freeOccurrences_iff.1 met).1

/-- From every stack and every set, the walk leaves the stack as it was and adds to the set the free
names that are not on the stack. So the free names that it finds are those by structure, and a name
is found to be free if and only if it has an occurrence outside the bodies of its bindings. -/
theorem scanFree_finds_fv (e : Expr) :
    (∀ s : FreeScan, (e.scanFree s).bound = s.bound ∧
        (e.scanFree s).free.toFinset = s.free.toFinset ∪ (e.fv \ s.bound.toFinset)) ∧
      e.freeVars.toFinset = e.fv ∧ ∀ x, e.isFree x = true ↔ OccursFree x e := by
  refine ⟨fun s => ⟨bound_scanFree e s, toFinset_free_scanFree e s⟩, toFinset_freeVars e, ?_⟩
  intro x
  rw [isFree, decide_eq_true_iff, ← NameSet.mem_toFinset, toFinset_freeVars, mem_fv_iff_occursFree]

/-- The name of a binding is free in what it is bound to, and a name that is bound twice around an
occurrence is not. -/
example : (letIn "x" (var "x") (letIn "x" (var "y") (var "x"))).freeVars.toList = ["x", "y"] := by
  decide

end Expr

end Twofold
