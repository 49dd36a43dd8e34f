import Twofold.Chance.Generator
import Twofold.Proofs.Simulation

/-!
# Generated expressions

What a generator can produce, whatever is drawn, as a relation: the forms that a depth allows, with
the numbers of the invented names. Every bound on generated expressions comes by induction on it;
a choice has three parts, so everything that is counted grows at most threefold with the depth.
-/

namespace Twofold

namespace Chance

open Generator

/-- The invented names with number `k`. -/
def Invented (k : Nat) (x : Name) : Prop := ∃ stem ∈ stems, x = stem ++ countText k

/-- An expression of at most the given depth over the names in scope, for which the names with the
numbers from `first` up to, but not including, `last` were invented. -/
inductive Generated :
    (depth : Nat) → (scope : List Name) → (first : Nat) → Expr → (last : Nat) → Prop
  | num {d k : Nat} {scope : List Name} {n : Number} (pooled : n ∈ numberPool) :
      Generated d scope k (.num n) k
  | bool {d k : Nat} {scope : List Name} (b : Bool) : Generated d scope k (.bool b) k
  | known {d k : Nat} {scope : List Name} {x : Name} (h : x ∈ scope) :
      Generated d scope k (.var x) k
  | unknown {d k : Nat} {scope : List Name} {x : Name} (h : Invented k x) :
      Generated d scope k (.var x) (k + 1)
  | add {d k l m : Nat} {scope : List Name} {a b : Expr} (left : Generated d scope k a l)
      (right : Generated d scope l b m) : Generated (d + 1) scope k (.add a b) m
  | le {d k l m : Nat} {scope : List Name} {a b : Expr} (left : Generated d scope k a l)
      (right : Generated d scope l b m) : Generated (d + 1) scope k (.le a b) m
  | letIn {d k l m : Nat} {scope : List Name} {x : Name} {a b : Expr} (name : Invented k x)
      (bound : Generated d scope (k + 1) a l) (body : Generated d (scope ++ [x]) l b m) :
      Generated (d + 1) scope k (.letIn x a b) m
  | ite {d k l m n : Nat} {scope : List Name} {a b c : Expr} (test : Generated d scope k a l)
      (yes : Generated d scope l b m) (no : Generated d scope m c n) :
      Generated (d + 1) scope k (.ite a b c) n
  | pair {d k l m : Nat} {scope : List Name} {a b : Expr} (first : Generated d scope k a l)
      (second : Generated d scope l b m) : Generated (d + 1) scope k (.pair a b) m
  | head {d k l : Nat} {scope : List Name} {a : Expr} (arg : Generated d scope k a l) :
      Generated (d + 1) scope k (.head a) l
  | tail {d k l : Nat} {scope : List Name} {a : Expr} (arg : Generated d scope k a l) :
      Generated (d + 1) scope k (.tail a) l

/-! ## What a generator produces -/

section Draws

variable {σ : Type}

/-- The step produces an expression that the depth and the scope allow, from every generator. -/
def Generates (depth : Nat) (scope : List Name) (step : Gen σ Expr) : Prop :=
  ∀ g, Generated depth scope g.nextName (step g).1 (step g).2.nextName

theorem Generates.ask {α : Type} {depth : Nat} {scope : List Name} {draw : σ → α × σ}
    {f : α → Gen σ Expr} (h : ∀ a, Generates depth scope (f a)) :
    Generates depth scope (Generator.ask draw >>= f) :=
  fun g => h _ ⟨(draw g.source).2, g.nextName⟩

variable [Source σ] [LawfulSource σ]

theorem drawn_mem {α : Type} (xs : List α) (default : α) (nonempty : 0 < xs.length) (s : σ) :
    xs.getD (Source.wideBelow xs.length s).1 default ∈ xs := by
  have drawn := LawfulSource.wideBelow_lt xs.length s nonempty
  rw [List.getD_eq_getElem _ _ drawn]
  exact List.getElem_mem drawn

theorem invented_freshName (g : Generator σ) : Invented g.nextName (freshName g).1 :=
  ⟨_, drawn_mem stems "" (by decide) g.source, rfl⟩

theorem generates_fresh (depth : Nat) (scope : List Name) :
    Generates depth scope (do return .var (← freshName) : Gen σ Expr) :=
  fun g => .unknown (invented_freshName g)

theorem generates_leaf (depth : Nat) (scope : List Name) (form : Nat) :
    Generates depth scope (leaf scope form : Gen σ Expr) := by
  rw [leaf.eq_def]
  split
  · exact fun g => .num (drawn_mem numberPool _ (by decide) g.source)
  · exact fun g => .bool _
  · rw [variableLeaf]
    by_cases empty : scope.isEmpty
    · rw [if_pos empty]
      exact generates_fresh depth scope
    · rw [if_neg empty]
      refine .ask fun unbound => ?_
      split
      · exact generates_fresh depth scope
      · have nonempty : 0 < scope.length := List.length_pos_iff.2 (by simpa using empty)
        exact fun g => .known (drawn_mem scope "" nonempty g.source)

/-- Whatever is drawn, an expression comes out that the depth and the scope allow. -/
theorem generates_generate (depth : Nat) (scope : List Name) :
    Generates depth scope (generate depth scope : Gen σ Expr) := by
  induction depth generalizing scope with
  | zero => exact .ask fun form => generates_leaf 0 scope form
  | succ depth ih =>
    rw [generate]
    refine .ask fun form => ?_
    split
    · exact fun g => .add (ih scope _) (ih scope _)
    · exact fun g => .le (ih scope _) (ih scope _)
    · exact fun g => .letIn (invented_freshName g) (ih scope (freshName g).2) (ih _ _)
    · exact fun g => .ite (ih scope _) (ih scope _) (ih scope _)
    · exact fun g => .pair (ih scope _) (ih scope _)
    · exact fun g => .head (ih scope _)
    · exact fun g => .tail (ih scope _)
    · exact generates_leaf _ scope form

end Draws

end Chance

/-! ## Bounds -/

/-- The decimal digits of a number take a byte each. -/
theorem utf8ByteSize_countText (n : Nat) :
    (countText n).utf8ByteSize = (Nat.toDigits 10 n).length := by
  have digits : ∀ c ∈ Nat.toDigits 10 n, c.utf8Size = 1 := by
    intro c hc
    have digit := Nat.isDigit_of_mem_toDigits (by decide) (by decide) hc
    rw [Char.utf8Size_eq_one_iff]
    simp only [Char.isDigit, ge_iff_le, Bool.and_eq_true, decide_eq_true_eq] at digit
    exact UInt32.le_trans digit.2 (by decide)
  rw [countText, String.utf8ByteSize_ofList, Decimal.digitChars]
  generalize Nat.toDigits 10 n = cs at digits
  induction cs with
  | nil => rfl
  | cons c cs ih =>
    rw [String.utf8Len_cons, ih fun c hc => digits c (List.mem_cons_of_mem _ hc),
      digits c List.mem_cons_self, List.length_cons]

namespace Expr

theorem eq_of_mem_freeOccurrences_var {bound : List Name} {x y : Name}
    (free : x ∈ (var y).freeOccurrences bound) : x = y := by
  rw [freeOccurrences] at free
  split at free
  · cases free
  · exact List.mem_singleton.1 free

theorem cells_le_size (e : Expr) : e.cells ≤ e.size := by
  induction e with
  | num | bool | var => simp [cells, size]
  | add a b iha ihb | le a b iha ihb | pair a b iha ihb | letIn x a b iha ihb =>
    simp only [cells, size]
    omega
  | ite a b c iha ihb ihc =>
    simp only [cells, size]
    omega
  | head a iha | tail a iha =>
    simp only [cells, size]
    omega

theorem length_freeOccurrences_le (e : Expr) (bound : List Name) :
    (e.freeOccurrences bound).length ≤ e.size := by
  induction e generalizing bound with
  | num | bool => exact Nat.zero_le _
  | var x =>
    rw [freeOccurrences]
    split <;> simp [size]
  | add a b iha ihb | le a b iha ihb | pair a b iha ihb =>
    have := iha bound
    have := ihb bound
    simp only [freeOccurrences, List.length_append, size]
    omega
  | letIn x a b iha ihb =>
    have := iha bound
    have := ihb (x :: bound)
    simp only [freeOccurrences, List.length_append, size]
    omega
  | ite a b c iha ihb ihc =>
    have := iha bound
    have := ihb bound
    have := ihc bound
    simp only [freeOccurrences, List.length_append, size]
    omega
  | head a iha | tail a iha =>
    have := iha bound
    simp only [freeOccurrences, size]
    omega

/-- The static data of an expression all of whose free names are short. -/
theorem dataSize_le {e : Expr} {width : Nat} (short : ∀ x ∈ e.freeVars, x.utf8ByteSize ≤ width) :
    e.dataSize ≤ 37 + e.size * (4 + width) := by
  have distinct : e.freeVars.toList.length ≤ (e.freeOccurrences []).length :=
    ((NameSet.nodup_toList _).subperm fun x hx => mem_freeVars.1 hx).length_le
  have few : e.freeVars.toList.length ≤ e.size :=
    Nat.le_trans distinct (e.length_freeOccurrences_le [])
  have bytes : (e.freeVars.toList.map fun x => 4 + x.utf8ByteSize).sum ≤
      e.freeVars.toList.length * (4 + width) := by
    have each := List.sum_le_card_nsmul (e.freeVars.toList.map fun x => 4 + x.utf8ByteSize)
      (4 + width) fun n hn => by
        obtain ⟨x, hx, rfl⟩ := List.mem_map.1 hn
        exact Nat.add_le_add_left (short x hx) 4
    simpa using each
  have all := Nat.mul_le_mul_right (4 + width) few
  rw [dataSize]
  omega

end Expr

namespace Chance

open Generator

namespace Generated

variable {d k l : Nat} {scope : List Name} {e : Expr}

/-- A part is one level less deep than what it is a part of. -/
theorem depth_le (h : Generated d scope k e l) : e.depth ≤ d := by
  induction h with
  | num | bool | known | unknown => exact Nat.zero_le _
  | add left right ihl ihr | le left right ihl ihr | letIn _ left right ihl ihr
  | pair left right ihl ihr =>
    simp only [Expr.depth]
    omega
  | ite test yes no iht ihy ihn =>
    simp only [Expr.depth]
    omega
  | head arg ih | tail arg ih =>
    simp only [Expr.depth]
    omega

/-- A generated expression of depth `d` has at most `(3 ^ (d + 1) - 1) / 2` nodes. -/
theorem size_le (h : Generated d scope k e l) : 2 * e.size + 1 ≤ 3 ^ (d + 1) := by
  induction h with
  | num | bool | known | unknown => exact Nat.le_self_pow (Nat.succ_ne_zero _) 3
  | add left right ihl ihr | le left right ihl ihr | letIn _ left right ihl ihr
  | pair left right ihl ihr =>
    simp only [Expr.size, pow_succ] at *
    omega
  | ite test yes no iht ihy ihn =>
    simp only [Expr.size, pow_succ] at *
    omega
  | head arg ih | tail arg ih =>
    simp only [Expr.size, pow_succ] at *
    omega

/-- A generated expression of depth `d` has at most `3 ^ (d - 1)` bindings, and none if `d` is
`0`. -/
theorem lets_le (h : Generated d scope k e l) : 3 * e.lets ≤ 3 ^ d := by
  induction h with
  | num | bool | known | unknown => exact Nat.zero_le _
  | @letIn d _ _ _ _ _ _ _ _ left right ihl ihr =>
    have := Nat.one_le_pow d 3 (by decide)
    simp only [Expr.lets, pow_succ] at *
    omega
  | add left right ihl ihr | le left right ihl ihr | pair left right ihl ihr =>
    simp only [Expr.lets, pow_succ] at *
    omega
  | ite test yes no iht ihy ihn =>
    simp only [Expr.lets, pow_succ] at *
    omega
  | head arg ih | tail arg ih =>
    simp only [Expr.lets, pow_succ] at *
    omega

/-- At most one name is invented for each node. -/
theorem last_le (h : Generated d scope k e l) : k ≤ l ∧ l ≤ k + e.size := by
  induction h with
  | num | bool | known | unknown => simp [Expr.size]
  | add left right ihl ihr | le left right ihl ihr | letIn _ left right ihl ihr
  | pair left right ihl ihr =>
    simp only [Expr.size]
    omega
  | ite test yes no iht ihy ihn =>
    simp only [Expr.size]
    omega
  | head arg ih | tail arg ih =>
    simp only [Expr.size]
    omega

/-- For an expression of depth `d` at most `3 ^ d` names are invented: no more than its leaves could
be, and a binding, which invents one more, has only two parts. -/
theorem last_le_pow (h : Generated d scope k e l) : l ≤ k + 3 ^ d := by
  induction h with
  | num | bool | known => exact Nat.le_add_right _ _
  | unknown => exact Nat.add_le_add_left (Nat.one_le_pow _ 3 (by decide)) _
  | @letIn d _ _ _ _ _ _ _ _ left right ihl ihr =>
    have := Nat.one_le_pow d 3 (by decide)
    rw [pow_succ]
    omega
  | add left right ihl ihr | le left right ihl ihr | pair left right ihl ihr =>
    rw [pow_succ]
    omega
  | ite test yes no iht ihy ihn =>
    rw [pow_succ]
    omega
  | head arg ih | tail arg ih =>
    rw [pow_succ]
    omega

/-- A name that is free is in scope or was invented. -/
theorem mem_scope_or_invented (h : Generated d scope k e l) {bound : List Name} {x : Name}
    (free : x ∈ e.freeOccurrences bound) : x ∈ scope ∨ ∃ i < l, Invented i x := by
  have later {m n : Nat} {P : Prop} (hmn : m ≤ n) (found : P ∨ ∃ i < m, Invented i x) :
      P ∨ ∃ i < n, Invented i x :=
    found.imp_right fun ⟨i, hi, name⟩ => ⟨i, Nat.lt_of_lt_of_le hi hmn, name⟩
  induction h generalizing bound with
  | num | bool => cases free
  | known member =>
    rw [Expr.eq_of_mem_freeOccurrences_var free]
    exact Or.inl member
  | @unknown _ k _ _ name =>
    rw [Expr.eq_of_mem_freeOccurrences_var free]
    exact Or.inr ⟨k, Nat.lt_succ_self k, name⟩
  | add left right ihl ihr | le left right ihl ihr | pair left right ihl ihr =>
    rcases List.mem_append.1 free with free | free
    · exact later right.last_le.1 (ihl free)
    · exact ihr free
  | @letIn _ k _ _ _ y _ _ name left right ihl ihr =>
    rcases List.mem_append.1 free with free | free
    · exact later right.last_le.1 (ihl free)
    · rcases ihr free with member | found
      · rcases List.mem_append.1 member with member | same
        · exact Or.inl member
        · rw [List.mem_singleton.1 same]
          have := left.last_le.1
          have := right.last_le.1
          exact Or.inr ⟨k, by omega, name⟩
      · exact Or.inr found
  | ite test yes no iht ihy ihn =>
    simp only [Expr.freeOccurrences, List.mem_append] at free
    rcases free with (free | free) | free
    · exact later (Nat.le_trans yes.last_le.1 no.last_le.1) (iht free)
    · exact later no.last_le.1 (ihy free)
    · exact ihn free
  | head arg ih | tail arg ih => exact ih free

end Generated

/-- An invented name is a stem of at most two bytes and at most twenty digits. -/
theorem Invented.utf8ByteSize_le {k : Nat} {x : Name} (h : Invented k x) (small : k < 2 ^ 64) :
    x.utf8ByteSize ≤ 22 := by
  obtain ⟨stem, member, rfl⟩ := h
  have stems : ∀ stem ∈ stems, stem.utf8ByteSize ≤ 2 := by decide
  have digits : (Nat.toDigits 10 k).length ≤ 20 :=
    (Nat.length_toDigits_le_iff (by decide) (by decide)).2 (Nat.lt_of_lt_of_le small (by decide))
  have := stems stem member
  rw [String.utf8ByteSize_append, utf8ByteSize_countText]
  omega

/-- A generated expression of depth at most ten, made before too many names were invented, keeps
the limits of locals, static data and memory. -/
theorem Generated.limits {d k l : Nat} {e : Expr} (h : Generated d [] k e l) (shallow : d ≤ 10)
    (small : l ≤ 2 ^ 64) :
    e.WithinLimits ∧ (e.dataSize + 7) / 8 * 8 + 12 * e.cells ≤ 2 ^ 24 := by
  have nodes : 2 * e.size + 1 ≤ 3 ^ 11 :=
    Nat.le_trans h.size_le (Nat.pow_le_pow_right (by decide) (Nat.succ_le_succ shallow))
  have bindings : 3 * e.lets ≤ 3 ^ 10 :=
    Nat.le_trans h.lets_le (Nat.pow_le_pow_right (by decide) shallow)
  have short : ∀ x ∈ e.freeVars, x.utf8ByteSize ≤ 22 := by
    intro x free
    rcases h.mem_scope_or_invented (Expr.mem_freeVars.1 free) with member | ⟨i, hi, name⟩
    · cases member
    · exact name.utf8ByteSize_le (Nat.lt_of_lt_of_le hi small)
  have data := Expr.dataSize_le short
  have cells := e.cells_le_size
  norm_num at nodes bindings
  refine ⟨⟨?_, ?_⟩, ?_⟩
  · simp only [Emitter.maxLocals]
    omega
  · simp only [StaticData.limit]
    omega
  · omega

end Chance

end Twofold
