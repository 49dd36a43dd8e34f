import Twofold.Compile.Emit
import Twofold.Proofs.StaticTexts

/-!
# Requests for symbols

Static data comes about by one request for a symbol after another, in any order, with repetitions,
and some of them refused for lack of room. A `Ledger` keeps the locations that were given. Whatever
the requests were, the ledger has exactly the entries of the static data, so all that was given is
still true: a name is read back from its location, and locations of different names are apart.
-/

namespace Twofold

open Heap

/-- No address is in both stretches. -/
def Location.Apart (a b : Location) : Prop := a.ptr + a.len ≤ b.ptr ∨ b.ptr + b.len ≤ a.ptr

namespace StaticData

variable {d : StaticData} {x y : Name} {a b : Location}

/-- A symbol ends before the next one begins. -/
theorem size_add_symbolSize_le {xs ys : List Name} (h : xs ++ [x] <+: ys) :
    (StaticData.mk xs).size + symbolSize x ≤ (StaticData.mk ys).size := by
  have whole : (StaticData.mk (xs ++ [x])).size = (StaticData.mk xs).size + symbolSize x := by
    simp only [size_eq, List.map_append, List.sum_append, List.map_cons, List.map_nil,
      List.sum_singleton, Nat.add_assoc]
  rw [← whole]
  exact size_le_of_prefix h

/-- A location lies behind the symbols in front of it, and its symbol is the next one. -/
theorem exists_before_of_find? (h : d.find? x = some a) :
    ∃ xs, xs ++ [x] <+: d.symbols ∧ a = ⟨(StaticData.mk xs).size, symbolSize x⟩ := by
  obtain ⟨xs, ys, split, found⟩ := find?_of_mem (mem_symbols_of_find? h)
  refine ⟨xs, ⟨ys, by rw [split, List.append_assoc, List.singleton_append]⟩, ?_⟩
  rw [h] at found
  exact Option.some.inj found

theorem find?_end_le (h : d.find? x = some a) : a.ptr + a.len ≤ d.size := by
  obtain ⟨xs, front, rfl⟩ := exists_before_of_find? h
  exact size_add_symbolSize_le front

/-- The symbols stand behind the message for a test. -/
theorem testMessage_apart (h : d.find? x = some a) : testMessage.Apart a := by
  obtain ⟨xs, -, rfl⟩ := exists_before_of_find? h
  refine Or.inl ?_
  show 0 + testMessage.len ≤ (StaticData.mk xs).size
  rw [size_eq]
  omega

/-- The symbols of two names do not overlap. -/
theorem find?_apart (hx : d.find? x = some a) (hy : d.find? y = some b) (h : x ≠ y) :
    a.Apart b := by
  obtain ⟨xs, before_x, rfl⟩ := exists_before_of_find? hx
  obtain ⟨ys, before_y, rfl⟩ := exists_before_of_find? hy
  have last_ne : xs ++ [x] ≠ ys ++ [y] := by
    intro same
    exact h (List.singleton_inj.1 (List.append_inj_right' same rfl))
  -- Of two beginnings of one list, each with its symbol at the end, one is inside the other.
  rcases List.prefix_or_prefix_of_prefix before_x before_y with first | first
  · rcases List.prefix_concat_iff.1 first with same | shorter
    · exact absurd same last_ne
    · exact Or.inl (size_add_symbolSize_le shorter)
  · rcases List.prefix_concat_iff.1 first with same | shorter
    · exact absurd same.symm last_ne
    · exact Or.inr (size_add_symbolSize_le shorter)

/-- One more symbol is one more entry, and leaves the others. -/
theorem find?_add_eq_some_iff :
    (d.add x).find? y = some a ↔ (y = x ∧ a = (d.add x).location x) ∨ d.find? y = some a := by
  have added : (d.add x).find? x = some ((d.add x).location x) :=
    find?_eq_location (mem_symbols_add.2 (Or.inr rfl))
  constructor
  · intro found
    by_cases old : y ∈ d.symbols
    · have kept := find?_of_prefix (find?_eq_location old) (prefix_extend d [x])
      rw [extend_cons, extend_nil, found] at kept
      rw [find?_eq_location old, kept]
      exact Or.inr rfl
    · rcases mem_symbols_add.1 (mem_symbols_of_find? found) with known | rfl
      · exact absurd known old
      · rw [added] at found
        exact Or.inl ⟨rfl, (Option.some.inj found).symm⟩
  · rintro (⟨rfl, rfl⟩ | found)
    · exact added
    · exact find?_of_prefix found (prefix_extend d [x])

/-- The heap begins at the first multiple of its alignment that is not inside the static data. -/
theorem isLeast_heapStart (d : StaticData) :
    IsLeast {n | 8 ∣ n ∧ d.size ≤ n} d.heapStart := by
  refine ⟨⟨Nat.dvd_mul_left _ _, d.size_le_heapStart⟩, ?_⟩
  rintro n ⟨⟨k, rfl⟩, behind⟩
  rw [heapStart]
  simp only [Cell.align]
  omega

end StaticData

/-- Interning gives the location of a symbol that is there or has room. Otherwise it fails and
leaves the emitter as it was. -/
theorem Emitter.intern_eq (x : Name) (s : Emitter) :
    Emitter.intern x s =
      if x ∈ s.data.symbols ∨ s.data.size + StaticData.symbolSize x ≤ StaticData.limit then
        .ok ((s.data.add x).location x) { s with data := s.data.add x }
      else .error (.dataTooLarge x) s := by
  rw [intern, StaticData.intern_eq]
  by_cases room : x ∈ s.data.symbols ∨ s.data.size + StaticData.symbolSize x ≤ StaticData.limit
  · rw [if_pos room, if_pos room]
  · rw [if_neg room, if_neg room]

theorem Emitter.intern_granted_iff (x : Name) (s : Emitter) :
    (∃ loc t, Emitter.intern x s = .ok loc t) ↔
      x ∈ s.data.symbols ∨ s.data.size + StaticData.symbolSize x ≤ StaticData.limit := by
  rw [intern_eq]
  constructor
  · rintro ⟨loc, t, granted⟩
    by_contra full
    rw [if_neg full] at granted
    cases granted
  · intro room
    exact ⟨_, _, if_pos room⟩

theorem Emitter.eq_of_intern_refused {x : Name} {s t : Emitter} {err : CompileError}
    (h : Emitter.intern x s = .error err t) : t = s := by
  rw [intern_eq] at h
  split at h
  · cases h
  · cases h
    rfl

/-! ## Ledgers -/

/-- An emitter, and the names whose symbols it was asked for with the locations that it gave. -/
structure Ledger where
  emitter : Emitter
  given : List (Name × Location)

namespace Ledger

/-- Asks for the symbol of a name; a request that is refused gives no location. -/
def request (l : Ledger) (x : Name) : Ledger :=
  match Emitter.intern x l.emitter with
  | .ok loc s => ⟨s, (x, loc) :: l.given⟩
  | .error _ s => ⟨s, l.given⟩

/-- Asks for the symbols of names one after another, starting without any symbol. -/
def requests (xs : List Name) : Ledger := xs.foldl request ⟨.new 0, []⟩

/-- The ledger has the entries of the static data, which is within its limit. -/
structure Sound (l : Ledger) : Prop where
  within : l.emitter.data.size ≤ StaticData.limit
  given_iff : ∀ x loc, (x, loc) ∈ l.given ↔ l.emitter.data.find? x = some loc

variable {l : Ledger} {x : Name}

theorem sound_new : Sound ⟨.new 0, []⟩ where
  within := by decide
  given_iff x loc := by
    constructor
    · intro given
      cases given
    · intro found
      cases found

/-- A request leaves the ledger sound, granted or refused. -/
theorem Sound.request (h : Sound l) (x : Name) : Sound (l.request x) := by
  rw [Ledger.request, Emitter.intern_eq]
  by_cases room : x ∈ l.emitter.data.symbols ∨
      l.emitter.data.size + StaticData.symbolSize x ≤ StaticData.limit
  · rw [if_pos room]
    refine ⟨(StaticData.size_add_le_iff h.within).2 room, ?_⟩
    intro y loc
    rw [List.mem_cons, Prod.mk.injEq, h.given_iff, StaticData.find?_add_eq_some_iff]
  · rw [if_neg room]
    exact h

theorem sound_requests (xs : List Name) : Sound (requests xs) := by
  have run (l : Ledger) (h : Sound l) : Sound (xs.foldl Ledger.request l) := by
    induction xs generalizing l with
    | nil => exact h
    | cons x xs ih => exact ih (l.request x) (h.request x)
  exact run _ sound_new

/-- The names with an entry are those with a symbol. -/
theorem Sound.mem_names_iff (h : Sound l) :
    x ∈ l.given.map Prod.fst ↔ x ∈ l.emitter.data.symbols := by
  constructor
  · intro named
    obtain ⟨⟨y, loc⟩, given, rfl⟩ := List.mem_map.1 named
    exact StaticData.mem_symbols_of_find? ((h.given_iff y loc).1 given)
  · intro known
    have given := (h.given_iff x _).2 (StaticData.find?_eq_location known)
    exact List.mem_map.2 ⟨_, given, rfl⟩

/-- A name is read back from every location that was given for it. -/
theorem Sound.readable (h : Sound l) {loc : Location} (given : (x, loc) ∈ l.given)
    (m : ByteArray) :
    readSymbol (l.emitter.data.bytes ++ m) (UInt32.ofNat loc.ptr) (UInt32.ofNat loc.len) =
      .ok x := by
  have found := (h.given_iff x loc).1 given
  have known := StaticData.mem_symbols_of_find? found
  have place : l.emitter.data.location x = loc := by rw [StaticData.location, found]; rfl
  have small : l.emitter.data.bytes.size < 2 ^ 32 := by
    rw [StaticData.size_bytes]
    exact Nat.lt_of_le_of_lt h.within (by decide)
  rw [← place]
  exact readSymbol_location known (StaticData.below_append _ m) small

/-- Whatever symbols were asked for: from each location that was given, the name is read back out of
any memory that begins with the static data; a name has one location, and locations of different
names and of the message do not overlap. A request is granted if and only if the name has a symbol
or there is room for it, and changes nothing if it is refused. The static data stays within its
limit, so that all addresses and sizes are words, and the heap starts at the first multiple of 8
behind it. -/
theorem symbols_readable (xs : List Name) :
    let l := requests xs
    let d := l.emitter.data
    (∀ x loc, (x, loc) ∈ l.given →
      (∀ m, readSymbol (d.bytes ++ m) (UInt32.ofNat loc.ptr) (UInt32.ofNat loc.len) = .ok x) ∧
      (UInt32.ofNat loc.ptr).toNat = loc.ptr ∧ (UInt32.ofNat loc.len).toNat = loc.len ∧
      StaticData.testMessage.Apart loc ∧
      ∀ y loc', (y, loc') ∈ l.given → (x = y → loc = loc') ∧ (x ≠ y → loc.Apart loc')) ∧
    (∀ x, (∃ loc s, Emitter.intern x l.emitter = .ok loc s) ↔
      x ∈ l.given.map Prod.fst ∨ d.bytes.size + (4 + x.utf8ByteSize) ≤ 8388608) ∧
    (∀ x err s, Emitter.intern x l.emitter = .error err s → s = l.emitter) ∧
    d.bytes.size ≤ 8388608 ∧ (UInt32.ofNat d.bytes.size).toNat = d.bytes.size ∧
    (UInt32.ofNat d.heapStart).toNat = d.heapStart ∧
    IsLeast {n | 8 ∣ n ∧ d.bytes.size ≤ n} d.heapStart := by
  intro l d
  have sound : Sound l := sound_requests xs
  have within : d.size ≤ 8388608 := sound.within
  have start : d.heapStart ≤ 8388608 := d.isLeast_heapStart.2 ⟨by decide, within⟩
  have isWord (n : Nat) (h : n ≤ 8388608) : (UInt32.ofNat n).toNat = n :=
    UInt32.toNat_ofNat_of_lt' (Nat.lt_of_le_of_lt h (by decide))
  rw [StaticData.size_bytes]
  refine ⟨?_, ?_, ?_, within, isWord _ within, isWord _ start, d.isLeast_heapStart⟩
  · intro x loc given
    have found := (sound.given_iff x loc).1 given
    have inside : loc.ptr + loc.len ≤ 8388608 :=
      Nat.le_trans (StaticData.find?_end_le found) within
    refine ⟨sound.readable given, isWord _ (by omega), isWord _ (by omega),
      StaticData.testMessage_apart found, ?_⟩
    intro y loc' given'
    have found' := (sound.given_iff y loc').1 given'
    constructor
    · rintro rfl
      exact Option.some.inj (found.symm.trans found')
    · exact StaticData.find?_apart found found'
  · intro x
    rw [sound.mem_names_iff]
    exact Emitter.intern_granted_iff x l.emitter
  · intro x err s refused
    exact Emitter.eq_of_intern_refused refused

/-- The symbol of the empty name is the mark alone, and a name may begin with the mark. -/
theorem symbols_readable_marked :
    let l := requests ["x", "", "var:x", "x"]
    l.given = [("x", ⟨37, 5⟩), ("var:x", ⟨46, 9⟩), ("", ⟨42, 4⟩), ("x", ⟨37, 5⟩)] ∧
      (∀ m, readSymbol (l.emitter.data.bytes ++ m) 42 4 = .ok "") ∧
      (∀ m, readSymbol (l.emitter.data.bytes ++ m) 46 9 = .ok "var:x") ∧
      Location.Apart ⟨37, 5⟩ ⟨46, 9⟩ := by
  intro l
  have given : l.given = [("x", ⟨37, 5⟩), ("var:x", ⟨46, 9⟩), ("", ⟨42, 4⟩), ("x", ⟨37, 5⟩)] := by
    decide
  obtain ⟨entries, -⟩ := symbols_readable ["x", "", "var:x", "x"]
  have unnamed : ("", ⟨42, 4⟩) ∈ l.given := by simp [given]
  have marked : ("var:x", ⟨46, 9⟩) ∈ l.given := by simp [given]
  have repeated : ("x", ⟨37, 5⟩) ∈ l.given := by simp [given]
  refine ⟨given, (entries _ _ unnamed).1, (entries _ _ marked).1, ?_⟩
  obtain ⟨-, -, -, -, others⟩ := entries _ _ repeated
  exact (others _ _ marked).2 (by decide)

end Ledger

end Twofold
