import Twofold.Proofs.Generation
import Twofold.Proofs.Occurrences

/-!
# The names of a generator

A generator numbers the names that it invents. The digits behind the stem give the number back, so
no name is invented twice, for an expression or otherwise, as long as the generator lives. What a
generated expression introduces are exactly the names that were invented for it, in the order of
their numbers. Hence every binding has a name of its own, and a variable belongs to the one binding
of its name or has a name that stands nowhere else.
-/

namespace Twofold

namespace Chance

open Generator

/-! ## Numbers of names -/

/-- A stem is one character, however many bytes it takes, so the digits begin at the same place in
all names, and tell the number. -/
theorem Invented.number_eq {i j : Nat} {x : Name} (h : Invented i x) (h' : Invented j x) :
    i = j := by
  obtain ⟨stem, member, rfl⟩ := h
  obtain ⟨stem', member', same⟩ := h'
  have stems : ∀ stem ∈ stems, stem.toList.length = 1 := by decide
  have texts := congrArg String.toList same
  rw [String.toList_append, String.toList_append] at texts
  have digits := (List.append_inj texts ((stems stem member).trans (stems stem' member').symm)).2
  rw [countText, countText, String.toList_ofList, String.toList_ofList] at digits
  have numbers := congrArg (Nat.ofDigitChars 10 · 0) digits
  simpa [Decimal.digitChars] using numbers

/-- The invented names with a number from `first` up to, but not including, `last`. -/
def InventedBetween (first last : Nat) (x : Name) : Prop :=
  ∃ i, first ≤ i ∧ i < last ∧ Invented i x

theorem InventedBetween.mono {k k' l l' : Nat} {x : Name} (h : InventedBetween k l x)
    (earlier : k' ≤ k) (later : l ≤ l') : InventedBetween k' l' x := by
  obtain ⟨i, above, below, found⟩ := h
  exact ⟨i, Nat.le_trans earlier above, Nat.lt_of_lt_of_le below later, found⟩

/-- The names have the numbers from `first` up to, but not including, `last`, in this order. -/
inductive Numbered : (first : Nat) → List Name → (last : Nat) → Prop
  | nil (k : Nat) : Numbered k [] k
  | cons {k l : Nat} {x : Name} {xs : List Name} (name : Invented k x)
      (rest : Numbered (k + 1) xs l) : Numbered k (x :: xs) l

namespace Numbered

variable {k l m : Nat} {x : Name} {xs ys : List Name}

theorem single (h : Invented k x) : Numbered k [x] (k + 1) := .cons h (.nil _)

theorem append (h : Numbered k xs l) (h' : Numbered l ys m) : Numbered k (xs ++ ys) m := by
  induction h with
  | nil k => exact h'
  | cons name _ ih => exact .cons name (ih h')

theorem first_le_last (h : Numbered k xs l) : k ≤ l := by
  induction h with
  | nil k => exact Nat.le_refl k
  | cons _ _ ih => exact Nat.le_of_succ_le ih

theorem inventedBetween (h : Numbered k xs l) (member : x ∈ xs) : InventedBetween k l x := by
  induction h with
  | nil k => cases member
  | @cons k l y ys name rest ih =>
    rcases List.mem_cons.1 member with rfl | later
    · exact ⟨k, Nat.le_refl k, rest.first_le_last, name⟩
    · exact (ih later).mono (Nat.le_succ k) (Nat.le_refl l)

/-- Names with different numbers are different. -/
theorem nodup (h : Numbered k xs l) : xs.Nodup := by
  induction h with
  | nil k => exact List.nodup_nil
  | @cons k l y ys name rest ih =>
    refine List.nodup_cons.2 ⟨?_, ih⟩
    intro again
    obtain ⟨i, above, -, found⟩ := rest.inventedBetween again
    have same := name.number_eq found
    omega

end Numbered

/-! ## Names of generated expressions -/

/-- The names in scope were invented before the one with number `k`. -/
def Older (k : Nat) (scope : List Name) : Prop := ∀ x ∈ scope, ∃ i < k, Invented i x

theorem Older.mono {k l : Nat} {scope : List Name} (h : Older k scope) (later : k ≤ l) :
    Older l scope := by
  intro x member
  obtain ⟨i, below, found⟩ := h x member
  exact ⟨i, Nat.lt_of_lt_of_le below later, found⟩

/-- What a generated expression introduces are the names that were invented for it: a variable from
the scope is captured by the binding that put it there, and an invented one by none. -/
theorem Generated.numbered {d k l : Nat} {scope bound : List Name} {e : Expr}
    (h : Generated d scope k e l) (older : Older k scope) (same : ∀ x, x ∈ bound ↔ x ∈ scope) :
    Numbered k (e.introduced bound) l := by
  induction h generalizing bound with
  | num => exact .nil _
  | bool => exact .nil _
  | known member =>
    rw [Expr.introduced, if_pos ((same _).2 member)]
    exact .nil _
  | @unknown _ k _ x name =>
    -- The name is newer than all names in scope.
    have fresh : x ∉ bound := by
      intro captured
      obtain ⟨i, below, old⟩ := older x ((same x).1 captured)
      exact absurd (old.number_eq name) (Nat.ne_of_lt below)
    rw [Expr.introduced, if_neg fresh]
    exact .single name
  | add left right ihl ihr | le left right ihl ihr | pair left right ihl ihr =>
    exact (ihl older same).append (ihr (older.mono left.last_le.1) same)
  | @letIn _ k l _ scope x _ _ name left right ihl ihr =>
    have before := left.last_le.1
    have inner : Older l (scope ++ [x]) := by
      intro y member
      rcases List.mem_append.1 member with outer | own
      · exact older.mono (by omega) y outer
      · rw [List.mem_singleton.1 own]
        exact ⟨k, before, name⟩
    -- Only the body has the name in scope, and there it stands last and not first.
    have captured (y : Name) : y ∈ x :: bound ↔ y ∈ scope ++ [x] := by
      rw [List.mem_cons, List.mem_append, List.mem_singleton, same, or_comm]
    exact .cons name ((ihl (older.mono (Nat.le_succ k)) same).append (ihr inner captured))
  | ite test yes no iht ihy ihn =>
    have early := test.last_le.1
    have late := yes.last_le.1
    exact ((iht older same).append (ihy (older.mono early) same)).append
      (ihn (older.mono (Nat.le_trans early late)) same)
  | head arg ih | tail arg ih => exact ih older same

/-! ## The life of a generator -/

/-- What a generator is asked for: a name, or an expression of at most some depth. -/
inductive Request where
  | name
  | expression (depth : Nat)
deriving DecidableEq, Repr

/-- What a generator gives. -/
inductive Product where
  | name (x : Name)
  | expression (e : Expr)
deriving DecidableEq, Repr

namespace Request

variable {σ : Type} [Source σ]

/-- Serves a request. An expression is generated with no names in scope. -/
def serve : Request → Gen σ Product
  | name => do return .name (← freshName)
  | expression depth => do return .expression (← generate depth [])

/-- Serves one request after the other. -/
def serveAll (requests : List Request) : Gen σ (List Product) := requests.mapM serve

end Request

namespace Product

/-- The names that are new: one that was asked for, or those of bindings and free occurrences. -/
def introduced : Product → List Name
  | name x => [x]
  | expression e => e.introduced []

/-- The names of bindings. -/
def binders : Product → List Name
  | name _ => []
  | expression e => e.binders

/-- The names that no binding has: one that was asked for, or those of free occurrences. -/
def loose : Product → List Name
  | name x => [x]
  | expression e => e.freeOccurrences []

/-- The names wherever they stand. -/
def mentions : Product → List Name
  | name x => [x]
  | expression e => e.mentions

end Product

/-- Names are used as if each had one meaning only, in all that a generator has given. -/
structure BinderConvention (ps : List Product) : Prop where
  /-- All names that were invented are different. -/
  distinct : (ps.flatMap Product.introduced).Nodup
  /-- Every binding has a name of its own. -/
  binders : (ps.flatMap Product.binders).Nodup
  /-- A variable stands in the body of the only binding of its name, or its name stands nowhere
  else. -/
  occurrences : ∀ e, .expression e ∈ ps → ∀ (c : Frames) (x : Name), c.fill (.var x) = e →
    (x ∈ c.scope ∧ (ps.flatMap Product.binders).count x = 1) ∨
      (ps.flatMap Product.mentions).count x = 1
  /-- No binding has a name that is free somewhere. -/
  apart : ∀ e, .expression e ∈ ps → ∀ x ∈ e.freeVars, x ∉ ps.flatMap Product.binders
  /-- No binding shadows another one. -/
  unshadowed : ∀ e, .expression e ∈ ps → ∀ (c : Frames) (x : Name) (a b : Expr),
    c.fill (.letIn x a b) = e → x ∉ c.scope

namespace Product

variable {x : Name} {ps : List Product}

theorem count_introduced (x : Name) (ps : List Product) :
    (ps.flatMap introduced).count x =
      (ps.flatMap binders).count x + (ps.flatMap loose).count x := by
  induction ps with
  | nil => rfl
  | cons p ps ih =>
    have here : p.introduced.count x = p.binders.count x + p.loose.count x := by
      cases p with
      | name y => exact (Nat.zero_add _).symm
      | expression e => exact e.count_introduced x []
    simp only [List.flatMap_cons, List.count_append, ih, here]
    omega

/-- A name without bindings stands where it is loose and nowhere else. -/
theorem count_mentions (h : x ∉ ps.flatMap binders) :
    (ps.flatMap mentions).count x = (ps.flatMap loose).count x := by
  induction ps with
  | nil => rfl
  | cons p ps ih =>
    rw [List.flatMap_cons, List.mem_append, not_or] at h
    have here : p.mentions.count x = p.loose.count x := by
      cases p with
      | name y => rfl
      | expression e => exact Expr.count_mentions List.not_mem_nil h.1
    rw [List.flatMap_cons, List.flatMap_cons, List.count_append, List.count_append, ih h.2, here]

/-- Where all introduced names are different, a loose one stands alone. -/
theorem stands_alone (distinct : (ps.flatMap introduced).Nodup) (h : x ∈ ps.flatMap loose) :
    x ∉ ps.flatMap binders ∧ (ps.flatMap mentions).count x = 1 := by
  have once := List.nodup_iff_count_le_one.1 distinct x
  have some : 0 < (ps.flatMap loose).count x := List.count_pos_iff.2 h
  rw [count_introduced] at once
  have unbound : x ∉ ps.flatMap binders := List.count_eq_zero.1 (by omega)
  rw [count_mentions unbound]
  exact ⟨unbound, by omega⟩

theorem nodup_binders (distinct : (ps.flatMap introduced).Nodup) :
    (ps.flatMap binders).Nodup := by
  apply List.nodup_iff_count_le_one.2
  intro x
  have once := List.nodup_iff_count_le_one.1 distinct x
  rw [count_introduced] at once
  omega

end Product

/-- The convention only needs the introduced names to be different. -/
theorem BinderConvention.of_distinct {ps : List Product}
    (distinct : (ps.flatMap Product.introduced).Nodup) : BinderConvention ps where
  distinct := distinct
  binders := Product.nodup_binders distinct
  occurrences e member c x here := by
    by_cases bound : x ∈ c.scope
    · have binder : x ∈ ps.flatMap Product.binders :=
        List.mem_flatMap.2 ⟨_, member, here ▸ Frames.mem_binders_fill (Or.inl bound)⟩
      exact Or.inl ⟨bound, List.count_eq_one_of_mem (Product.nodup_binders distinct) binder⟩
    · have free : x ∈ e.freeOccurrences [] :=
        here ▸ Frames.mem_freeOccurrences_fill_var List.not_mem_nil bound
      exact Or.inr (Product.stands_alone distinct (List.mem_flatMap.2 ⟨_, member, free⟩)).2
  apart e member x free :=
    have loose := List.mem_flatMap.2 ⟨_, member, Expr.mem_freeVars.1 free⟩
    (Product.stands_alone distinct loose).1
  unshadowed e member c x a b here shadowed := by
    have own : e.binders.Nodup :=
      (List.nodup_flatMap.1 (Product.nodup_binders distinct)).1 _ member
    rw [← here] at own
    exact Frames.not_mem_binders_of_mem_scope own shadowed List.mem_cons_self

section Life

variable {σ : Type} [Source σ] [LawfulSource σ]

/-- A request introduces the names that were invented for it. -/
theorem numbered_serve (request : Request) (g : Generator σ) :
    Numbered g.nextName (request.serve g).1.introduced (request.serve g).2.nextName := by
  cases request with
  | name => exact .single (invented_freshName g)
  | expression depth =>
    have unscoped : Older g.nextName [] := by
      intro x member
      cases member
    exact (generates_generate depth [] g).numbered unscoped fun _ => Iff.rfl

theorem numbered_serveAll (requests : List Request) (g : Generator σ) :
    Numbered g.nextName ((Request.serveAll requests g).1.flatMap Product.introduced)
      (Request.serveAll requests g).2.nextName := by
  induction requests generalizing g with
  | nil => exact .nil _
  | cons request requests ih =>
    rw [Request.serveAll, List.mapM_cons]
    exact (numbered_serve request g).append (ih (request.serve g).2)

/-- Whatever is drawn and asked for, the names that a generator introduces are numbered without a
gap in the order in which they come, and are used by the binder convention, in all of its life. -/
theorem binder_convention_for_life (source : σ) (requests : List Request) :
    Numbered 0 ((Request.serveAll requests (Generator.new source)).1.flatMap Product.introduced)
        (Request.serveAll requests (Generator.new source)).2.nextName ∧
      BinderConvention (Request.serveAll requests (Generator.new source)).1 := by
  have numbered := numbered_serveAll requests (Generator.new source)
  exact ⟨numbered, .of_distinct numbered.nodup⟩

end Life

/-- A binding that leaves a name free in each of its parts and has one occurrence, and a name. -/
theorem binder_convention_for_life_seeded :
    (Request.serveAll [.expression 2, .name] (Generator.new (Keystream.ofSeed 26))).1 =
      [.expression (.letIn "b0" (.var "y1") (.ite (.num ⟨0xbff0000000000000⟩) (.var "a2")
        (.var "b0"))), .name "b3"] ∧
      BinderConvention
        (Request.serveAll [.expression 2, .name] (Generator.new (Keystream.ofSeed 26))).1 :=
  ⟨by decide +kernel, (binder_convention_for_life (Keystream.ofSeed 26) _).2⟩

end Chance

end Twofold
