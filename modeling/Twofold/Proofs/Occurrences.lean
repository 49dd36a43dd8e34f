import Twofold.Proofs.ConstantFolding
import Twofold.Proofs.FreeNames

/-!
# Where names stand

The names of an expression with their places: those of its bindings, those of its variables, and
those that it introduces, which are the names of its bindings and of its free occurrences. A place
is an expression with a hole, and a name is bound there if the way to the hole leads through the
body of a binding of it.
-/

namespace Twofold

/-- The names that a node binds in the place that was left out. -/
def Frame.binds : Frame → List Name
  | letBody x _ => [x]
  | _ => []

/-- The names that are bound at the hole, the outermost first. -/
def Frames.scope (c : Frames) : List Name := c.flatMap Frame.binds

namespace Expr

/-- The names of the bindings, from left to right. -/
def binders : Expr → List Name
  | num _ | bool _ | var _ => []
  | add a b | le a b | pair a b => a.binders ++ b.binders
  | letIn x a b => x :: (a.binders ++ b.binders)
  | ite a b c => a.binders ++ b.binders ++ c.binders
  | head a | tail a => a.binders

/-- The names wherever they stand, at bindings and as variables, from left to right. -/
def mentions : Expr → List Name
  | num _ | bool _ => []
  | var x => [x]
  | add a b | le a b | pair a b => a.mentions ++ b.mentions
  | letIn x a b => x :: (a.mentions ++ b.mentions)
  | ite a b c => a.mentions ++ b.mentions ++ c.mentions
  | head a | tail a => a.mentions

/-- The names that are new: those of bindings, and those of occurrences that neither `bound` nor a
binding inside captures. -/
def introduced : Expr → (bound : List Name) → List Name
  | num _, _ | bool _, _ => []
  | var x, bound => if x ∈ bound then [] else [x]
  | add a b, bound | le a b, bound | pair a b, bound => a.introduced bound ++ b.introduced bound
  | letIn x a b, bound => x :: (a.introduced bound ++ b.introduced (x :: bound))
  | ite a b c, bound => a.introduced bound ++ b.introduced bound ++ c.introduced bound
  | head a, bound | tail a, bound => a.introduced bound

/-! ## How often a name stands somewhere -/

/-- What is introduced is what is bound and what is free. -/
theorem count_introduced (x : Name) (e : Expr) (bound : List Name) :
    (e.introduced bound).count x = e.binders.count x + (e.freeOccurrences bound).count x := by
  induction e generalizing bound with
  | num n => rfl
  | bool b => rfl
  | var y => rw [introduced, binders, freeOccurrences, List.count_nil, Nat.zero_add]
  | letIn y a b iha ihb =>
    simp only [introduced, binders, freeOccurrences, List.count_cons, List.count_append, iha, ihb]
    omega
  | add a b iha ihb | le a b iha ihb | pair a b iha ihb =>
    simp only [introduced, binders, freeOccurrences, List.count_append, iha, ihb]
    omega
  | ite a b c iha ihb ihc =>
    simp only [introduced, binders, freeOccurrences, List.count_append, iha, ihb, ihc]
    omega
  | head a iha | tail a iha => exact iha bound

/-- A name without bindings stands where it is free and nowhere else. -/
theorem count_mentions {x : Name} {e : Expr} {bound : List Name} (outer : x ∉ bound)
    (h : x ∉ e.binders) : e.mentions.count x = (e.freeOccurrences bound).count x := by
  induction e generalizing bound with
  | num n => rfl
  | bool b => rfl
  | var y =>
    rw [mentions, freeOccurrences]
    split
    · next captured =>
      have other : y ≠ x := by
        rintro rfl
        exact outer captured
      simp [other]
    · rfl
  | letIn y a b iha ihb =>
    simp only [binders, List.mem_cons, List.mem_append, not_or] at h
    obtain ⟨other, ha, hb⟩ := h
    have inner : x ∉ y :: bound := by simp [other, outer]
    rw [mentions, freeOccurrences, List.count_cons_of_ne (Ne.symm other), List.count_append,
      List.count_append, iha outer ha, ihb inner hb]
  | add a b iha ihb | le a b iha ihb | pair a b iha ihb =>
    rw [binders, List.mem_append, not_or] at h
    rw [mentions, freeOccurrences, List.count_append, List.count_append, iha outer h.1,
      ihb outer h.2]
  | ite a b c iha ihb ihc =>
    rw [binders, List.mem_append, List.mem_append, not_or, not_or] at h
    rw [mentions, freeOccurrences, List.count_append, List.count_append, List.count_append,
      List.count_append, iha outer h.1.1, ihb outer h.1.2, ihc outer h.2]
  | head a iha | tail a iha => exact iha outer h

end Expr

/-! ## Places -/

namespace Frame

variable {x : Name} {e : Expr}

theorem mem_binders_fill (f : Frame) (h : x ∈ f.binds ∨ x ∈ e.binders) :
    x ∈ (f.fill e).binders := by
  cases f with
  | letBody y a =>
    rcases h with here | inside
    · rw [List.mem_singleton.1 here]
      exact List.mem_cons_self
    · exact List.mem_cons_of_mem y (List.mem_append_right _ inside)
  | _ =>
    have inside := h.resolve_left List.not_mem_nil
    simp [fill, Expr.binders, inside]

theorem mem_freeOccurrences_fill (f : Frame) {bound : List Name}
    (h : x ∈ e.freeOccurrences (f.binds ++ bound)) : x ∈ (f.fill e).freeOccurrences bound := by
  cases f <;> simp_all [binds, fill, Expr.freeOccurrences]

/-- If all bindings have different names, so have those inside a node, and their names are not the
one that the node binds there. -/
theorem nodup_binders_of_fill (f : Frame) (h : (f.fill e).binders.Nodup) :
    e.binders.Nodup ∧ ∀ x ∈ f.binds, x ∉ e.binders := by
  cases f <;> simp_all [binds, fill, Expr.binders, List.nodup_append]

end Frame

namespace Frames

variable {x : Name} {e : Expr} {c : Frames}

theorem mem_binders_fill (h : x ∈ c.scope ∨ x ∈ e.binders) : x ∈ (c.fill e).binders := by
  induction c with
  | nil => exact h.resolve_left List.not_mem_nil
  | cons f c ih =>
    refine f.mem_binders_fill ?_
    rcases h with bound | inside
    · rw [scope, List.flatMap_cons, List.mem_append] at bound
      exact bound.imp_right fun inner => ih (Or.inl inner)
    · exact Or.inr (ih (Or.inr inside))

/-- A variable that is not bound at its place is free. -/
theorem mem_freeOccurrences_fill_var {bound : List Name} (outer : x ∉ bound) (h : x ∉ c.scope) :
    x ∈ (c.fill (.var x)).freeOccurrences bound := by
  induction c generalizing bound with
  | nil =>
    show x ∈ (Expr.var x).freeOccurrences bound
    rw [Expr.freeOccurrences, if_neg outer]
    exact List.mem_cons_self
  | cons f c ih =>
    rw [scope, List.flatMap_cons, List.mem_append, not_or] at h
    refine f.mem_freeOccurrences_fill (ih ?_ h.2)
    rw [List.mem_append, not_or]
    exact ⟨h.1, outer⟩

/-- If all bindings have different names, no binding has a name that is bound at its place. -/
theorem not_mem_binders_of_mem_scope (distinct : (c.fill e).binders.Nodup) (h : x ∈ c.scope) :
    x ∉ e.binders := by
  induction c with
  | nil => cases h
  | cons f c ih =>
    obtain ⟨inner, apart⟩ := f.nodup_binders_of_fill distinct
    rw [scope, List.flatMap_cons, List.mem_append] at h
    rcases h with here | deeper
    · intro inside
      exact apart x here (mem_binders_fill (Or.inr inside))
    · exact ih inner deeper

end Frames

end Twofold
