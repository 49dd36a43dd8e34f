import Mathlib
import Twofold.Compile.StaticData

/-!
# Symbols of static data

Interning a name either finds its symbol or adds one behind all others, so locations that have been
given out stay. `extend` is the static data after a list of names has been interned one by one, and
the size of the result is the only thing that decides whether all of them fit.
-/

namespace Twofold.StaticData

/-- The static data with a symbol for `x`. -/
def add (d : StaticData) (x : Name) : StaticData :=
  if x ∈ d.symbols then d else ⟨d.symbols ++ [x]⟩

/-- The static data with symbols for all names of a list. -/
def extend (d : StaticData) (xs : List Name) : StaticData := xs.foldl add d

/-- Where the symbol for `x` stands, if there is one. -/
def location (d : StaticData) (x : Name) : Location := (d.find? x).getD default

@[simp] theorem symbols_add_of_mem {d : StaticData} {x : Name} (h : x ∈ d.symbols) :
    (d.add x).symbols = d.symbols := by
  rw [add, if_pos h]

@[simp] theorem symbols_add_of_not_mem {d : StaticData} {x : Name} (h : x ∉ d.symbols) :
    (d.add x).symbols = d.symbols ++ [x] := by
  rw [add, if_neg h]

@[simp] theorem extend_nil (d : StaticData) : d.extend [] = d := rfl

theorem extend_cons (d : StaticData) (x : Name) (xs : List Name) :
    d.extend (x :: xs) = (d.add x).extend xs := rfl

@[simp] theorem extend_append (d : StaticData) (xs ys : List Name) :
    d.extend (xs ++ ys) = (d.extend xs).extend ys := List.foldl_append

/-! ## Members and sizes -/

theorem mem_symbols_add {d : StaticData} {x y : Name} :
    y ∈ (d.add x).symbols ↔ y ∈ d.symbols ∨ y = x := by
  by_cases h : x ∈ d.symbols
  · rw [symbols_add_of_mem h]
    constructor
    · exact Or.inl
    · rintro (hy | rfl)
      · exact hy
      · exact h
  · rw [symbols_add_of_not_mem h, List.mem_append, List.mem_singleton]

theorem mem_symbols_extend {d : StaticData} {xs : List Name} {y : Name} :
    y ∈ (d.extend xs).symbols ↔ y ∈ d.symbols ∨ y ∈ xs := by
  induction xs generalizing d with
  | nil => simp
  | cons x xs ih =>
    rw [extend_cons, ih, mem_symbols_add, List.mem_cons]
    exact or_assoc

theorem nodup_symbols_extend {d : StaticData} (xs : List Name) (h : d.symbols.Nodup) :
    (d.extend xs).symbols.Nodup := by
  induction xs generalizing d with
  | nil => exact h
  | cons x xs ih =>
    rw [extend_cons]
    apply ih
    by_cases hx : x ∈ d.symbols
    · rwa [symbols_add_of_mem hx]
    · rw [symbols_add_of_not_mem hx, List.nodup_append]
      refine ⟨h, by simp, ?_⟩
      intro a ha b hb hab
      rw [List.mem_singleton] at hb
      exact hx (hb ▸ hab ▸ ha)

/-- The symbols that were there before come first. -/
theorem prefix_extend (d : StaticData) (xs : List Name) : d.symbols <+: (d.extend xs).symbols := by
  induction xs generalizing d with
  | nil => exact List.prefix_refl _
  | cons x xs ih =>
    rw [extend_cons]
    refine List.IsPrefix.trans ?_ (ih (d.add x))
    by_cases hx : x ∈ d.symbols
    · simp only [symbols_add_of_mem hx, List.prefix_refl]
    · rw [symbols_add_of_not_mem hx]
      exact List.prefix_append _ _

theorem size_eq (d : StaticData) : d.size = testMessage.len + (d.symbols.map symbolSize).sum := by
  rw [size, List.sum_eq_foldr]

theorem size_add_of_not_mem {d : StaticData} {x : Name} (h : x ∉ d.symbols) :
    (d.add x).size = d.size + symbolSize x := by
  simp only [size_eq, symbols_add_of_not_mem h, List.map_append, List.map_cons, List.map_nil,
    List.sum_append, List.sum_cons, List.sum_nil]
  omega

/-- A symbol that is there needs no room, and a new one needs its own. -/
theorem size_add_le_iff {d : StaticData} {x : Name} (fits : d.size ≤ limit) :
    (d.add x).size ≤ limit ↔ x ∈ d.symbols ∨ d.size + symbolSize x ≤ limit := by
  by_cases known : x ∈ d.symbols
  · simp [add, known, fits]
  · simp [size_add_of_not_mem, known]

theorem size_le_of_prefix {d d' : StaticData} (h : d.symbols <+: d'.symbols) :
    d.size ≤ d'.size := by
  obtain ⟨rest, hrest⟩ := h
  rw [size_eq, size_eq, ← hrest, List.map_append, List.sum_append]
  omega

theorem size_le_extend (d : StaticData) (xs : List Name) : d.size ≤ (d.extend xs).size :=
  size_le_of_prefix (prefix_extend d xs)

/-! ## Locations -/

theorem locate?_eq_none {x : Name} {offset : Nat} {ys : List Name} (h : x ∉ ys) :
    locate? x offset ys = none := by
  induction ys generalizing offset with
  | nil => rfl
  | cons y ys ih =>
    rw [List.mem_cons, not_or] at h
    rw [locate?, if_neg (Ne.symm h.1), ih h.2]

/-- A symbol starts where the symbols before it end. -/
theorem locate?_append_cons {x : Name} {offset : Nat} {ys zs : List Name} (h : x ∉ ys) :
    locate? x offset (ys ++ x :: zs) =
      some ⟨offset + (ys.map symbolSize).sum, symbolSize x⟩ := by
  induction ys generalizing offset with
  | nil => simp [locate?]
  | cons y ys ih =>
    rw [List.mem_cons, not_or] at h
    rw [List.cons_append, locate?, if_neg (Ne.symm h.1), ih h.2, List.map_cons, List.sum_cons,
      Nat.add_assoc]

/-- Every symbol starts where the symbols before it end. -/
theorem find?_of_mem {d : StaticData} {x : Name} (h : x ∈ d.symbols) :
    ∃ ys zs, d.symbols = ys ++ x :: zs ∧
      d.find? x = some ⟨(StaticData.mk ys).size, symbolSize x⟩ := by
  obtain ⟨ys, zs, split, hx⟩ := List.eq_append_cons_of_mem h
  refine ⟨ys, zs, split, ?_⟩
  rw [find?, split, locate?_append_cons hx]
  rfl

/-- Symbols that are added later do not move the others. -/
theorem location_eq_of_prefix {d d' : StaticData} {x : Name} (h : x ∈ d.symbols)
    (hp : d.symbols <+: d'.symbols) : d'.location x = d.location x := by
  obtain ⟨ys, zs, split, hx⟩ := List.eq_append_cons_of_mem h
  obtain ⟨rest, hrest⟩ := hp
  rw [location, location, find?, find?, ← hrest, split, List.append_assoc, List.cons_append,
    locate?_append_cons hx, locate?_append_cons hx]

theorem find?_eq_location {d : StaticData} {x : Name} (h : x ∈ d.symbols) :
    d.find? x = some (d.location x) := by
  obtain ⟨ys, zs, -, found⟩ := find?_of_mem h
  rw [location, found, Option.getD_some]

theorem mem_symbols_of_find? {d : StaticData} {x : Name} {loc : Location}
    (h : d.find? x = some loc) : x ∈ d.symbols := by
  by_contra missing
  rw [find?, locate?_eq_none missing] at h
  cases h

theorem find?_of_prefix {d d' : StaticData} {x : Name} {loc : Location}
    (h : d.find? x = some loc) (hp : d.symbols <+: d'.symbols) : d'.find? x = some loc := by
  have known := mem_symbols_of_find? h
  rw [find?_eq_location (hp.subset known), location_eq_of_prefix known hp, ← h,
    find?_eq_location known]

/-- Interning gives the place of a symbol that is there. -/
theorem intern_of_find? {d : StaticData} {x : Name} {loc : Location} (h : d.find? x = some loc) :
    d.intern x = .ok (loc, d) := by
  rw [intern, h]

/-- Interning fails only for a new name, and only for lack of room. -/
theorem intern_eq (d : StaticData) (x : Name) :
    d.intern x =
      if x ∈ d.symbols ∨ d.size + symbolSize x ≤ limit then .ok ((d.add x).location x, d.add x)
      else .error (.dataTooLarge x) := by
  by_cases h : x ∈ d.symbols
  · simp only [intern, find?_eq_location h, h, true_or, if_true, add]
  · have missing : d.find? x = none := locate?_eq_none h
    have added : (d.add x).location x = ⟨d.size, symbolSize x⟩ := by
      rw [location, find?, symbols_add_of_not_mem h, locate?_append_cons h]
      rfl
    by_cases room : limit < d.size + symbolSize x
    · have full : ¬ d.size + symbolSize x ≤ limit := by omega
      simp only [intern, missing, room, h, full, or_self, if_true, if_false]
    · have fits : d.size + symbolSize x ≤ limit := by omega
      simp only [intern, missing, room, h, fits, added, or_true, if_true, if_false]
      rw [add, if_neg h]

end Twofold.StaticData
