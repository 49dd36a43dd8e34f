import Twofold.Expr.Free
import Twofold.Proofs.Symbols

/-!
# Free occurrences

The occurrences of names that no binding captures, as a list in the order of the text. Both walks
over an expression, the one that collects the set of free names and the one that emits code, meet
exactly these occurrences; so the static data of a compiled expression has one symbol for each free
name, and its size can be told from the set.
-/

namespace Twofold

namespace Expr

/-- The occurrences of names that neither `bound` nor a binding inside captures, from left to
right. -/
def freeOccurrences : Expr → (bound : List Name) → List Name
  | num _, _ | bool _, _ => []
  | var x, bound => if x ∈ bound then [] else [x]
  | add a b, bound | le a b, bound | pair a b, bound =>
    a.freeOccurrences bound ++ b.freeOccurrences bound
  | letIn x a b, bound => a.freeOccurrences bound ++ b.freeOccurrences (x :: bound)
  | ite a b c, bound =>
    a.freeOccurrences bound ++ b.freeOccurrences bound ++ c.freeOccurrences bound
  | head a, bound | tail a, bound => a.freeOccurrences bound

/-- The walk for free names leaves its stack as it was and adds every free occurrence to the set. -/
theorem scanFree_eq (e : Expr) (s : FreeScan) :
    e.scanFree s = { s with free := (e.freeOccurrences s.bound).foldl NameSet.insert s.free } := by
  induction e generalizing s with
  | num n => rfl
  | bool b => rfl
  | var x => by_cases h : x ∈ s.bound <;> simp [scanFree, FreeScan.visit, freeOccurrences, h]
  | letIn x a b iha ihb =>
    rw [scanFree, iha, ihb, freeOccurrences, List.foldl_append]
    rfl
  | add a b iha ihb | le a b iha ihb | pair a b iha ihb =>
    rw [scanFree, iha, ihb, freeOccurrences, List.foldl_append]
  | ite a b c iha ihb ihc =>
    rw [scanFree, iha, ihb, ihc, freeOccurrences, List.foldl_append, List.foldl_append]
  | head a iha | tail a iha => rw [scanFree, iha, freeOccurrences]

end Expr

namespace NameSet

theorem mem_foldl_insert {xs : List Name} {s : NameSet} {y : Name} :
    y ∈ xs.foldl insert s ↔ y ∈ s ∨ y ∈ xs := by
  induction xs generalizing s with
  | nil => simp
  | cons x xs ih =>
    rw [List.foldl_cons, ih, mem_insert, List.mem_cons]
    constructor
    · rintro ((rfl | hs) | hxs)
      · exact Or.inr (Or.inl rfl)
      · exact Or.inl hs
      · exact Or.inr (Or.inr hxs)
    · rintro (hs | rfl | hxs)
      · exact Or.inl (Or.inr hs)
      · exact Or.inl (Or.inl rfl)
      · exact Or.inr hxs

theorem nodup_toList (s : NameSet) : s.toList.Nodup := by
  refine List.Pairwise.imp ?_ s.sorted
  intro x y below equal
  exact String.lt_irrefl y (equal ▸ below)

end NameSet

namespace Expr

/-- The free names are those with a free occurrence. -/
theorem mem_freeVars {e : Expr} {x : Name} : x ∈ e.freeVars ↔ x ∈ e.freeOccurrences [] := by
  rw [freeVars, scanFree_eq, NameSet.mem_foldl_insert]
  simp

/-- The bytes that the static data of an expression takes: 37 for the text about a test that is not
a boolean, and for each free name those of the name and 4 for its mark. -/
def dataSize (e : Expr) : Nat := 37 + (e.freeVars.toList.map fun x => 4 + x.utf8ByteSize).sum

/-- The symbols of a compiled expression are its free names. -/
theorem symbols_perm_freeVars (e : Expr) :
    (StaticData.new.extend (e.freeOccurrences [])).symbols.Perm e.freeVars.toList := by
  have distinct : (StaticData.new.extend (e.freeOccurrences [])).symbols.Nodup :=
    StaticData.nodup_symbols_extend _ List.nodup_nil
  refine (List.perm_ext_iff_of_nodup distinct (NameSet.nodup_toList _)).2 fun x => ?_
  rw [StaticData.mem_symbols_extend, ← NameSet.mem_def, mem_freeVars]
  simp [StaticData.new]

theorem size_extend_freeOccurrences (e : Expr) :
    (StaticData.new.extend (e.freeOccurrences [])).size = e.dataSize := by
  rw [StaticData.size_eq, ((symbols_perm_freeVars e).map _).sum_nat]
  rfl

end Expr

end Twofold
