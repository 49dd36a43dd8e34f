import Twofold.Proofs.Bytes

/-!
# Reading any memory

What is read from a memory whatever its bytes are. A value is read exactly if the memory represents
it (`Represents`). Otherwise the failure is the first one on a walk over the cells, depth first,
that looks at a component completely before it looks at the address of the next one (`looks`).
Addresses go down on this walk, so it ends, and none of those that are computed on it is cut off in
a word (`readWithin`).
-/

namespace Twofold.Heap

variable {m : ByteArray} {ptr : UInt32}

/-! ## Values in memory -/

/-- A word stands at an address, its lowest byte first. -/
def HoldsWord (m : ByteArray) (a : Nat) (w : UInt32) : Prop :=
  Bytes.slice m a 4 = Bytes.ofNat 4 w.toNat

/-- The bits of a number stand at an address, their lowest byte first. -/
def HoldsNumber (m : ByteArray) (a : Nat) (n : Number) : Prop :=
  Bytes.slice m a 8 = Bytes.ofNat 8 n.bits.toNat

instance (m : ByteArray) (a : Nat) (w : UInt32) : Decidable (HoldsWord m a w) :=
  inferInstanceAs (Decidable (_ = _))

theorem holdsWord_iff {a : Nat} {w : UInt32} : HoldsWord m a w ↔ word m a = w := by
  have short : Bytes.toNat (Bytes.slice m a 4) < UInt32.size := by
    have bound := Bytes.toNat_lt (Bytes.slice m a 4)
    rwa [Bytes.length_slice] at bound
  rw [HoldsWord, Bytes.slice_eq_ofNat_iff w.toNat_lt, word, ← UInt32.toNat_inj,
    UInt32.toNat_ofNat_of_lt' short]

theorem holdsNumber_iff {a : Nat} {n : Number} : HoldsNumber m a n ↔ number m a = n := by
  have short : Bytes.toNat (Bytes.slice m a 8) < UInt64.size := by
    have bound := Bytes.toNat_lt (Bytes.slice m a 8)
    rwa [Bytes.length_slice] at bound
  rw [HoldsNumber, Bytes.slice_eq_ofNat_iff n.bits.toNat_lt, number, Number.mk.injEq,
    ← UInt64.toNat_inj, UInt64.toNat_ofNat_of_lt' short]

/-- The cell at an address represents a value. All of the cell is in the memory; the components of a
pair are represented by cells at lower addresses, wherever these are. -/
inductive Represents (m : ByteArray) : (ptr : UInt32) → Value → Prop
  | num {ptr : UInt32} {n : Number} (inside : ptr.toNat + Cell.size ≤ m.size)
      (tag : HoldsWord m ptr.toNat Cell.number)
      (content : HoldsNumber m (ptr.toNat + Cell.first) n) : Represents m ptr (.num n)
  | bool {ptr : UInt32} {b : Bool} (inside : ptr.toNat + Cell.size ≤ m.size)
      (tag : HoldsWord m ptr.toNat Cell.boolean)
      (content : ¬ HoldsWord m (ptr.toNat + Cell.first) 0 ↔ b = true) : Represents m ptr (.bool b)
  | pair {ptr a b : UInt32} {v w : Value} (inside : ptr.toNat + Cell.size ≤ m.size)
      (tag : HoldsWord m ptr.toNat Cell.pair)
      (first : HoldsWord m (ptr.toNat + Cell.first) a)
      (second : HoldsWord m (ptr.toNat + Cell.second) b)
      (below : a.toNat < ptr.toNat) (below' : b.toNat < ptr.toNat)
      (left : Represents m a v) (right : Represents m b w) : Represents m ptr (.pair v w)

/-! ## What reading does at a cell -/

/-- Reads a component of the pair at `ptr`. -/
def readComponent (m : ByteArray) (ptr component : UInt32) : Except ReadError Value :=
  if component.toNat < ptr.toNat then readValue m component
  else .error (.forwardReference ptr.toNat component.toNat)

/-- A tag that a cell can have. -/
def IsTag (w : UInt32) : Prop := w = Cell.number ∨ w = Cell.boolean ∨ w = Cell.pair

instance (w : UInt32) : Decidable (IsTag w) := inferInstanceAs (Decidable (_ ∨ _))

theorem readValue_outside (outside : m.size < ptr.toNat + Cell.size) :
    readValue m ptr = .error (.outOfBounds ptr.toNat Cell.size m.size) := by
  rw [readValue, if_pos outside]

theorem readValue_number (inside : ptr.toNat + Cell.size ≤ m.size)
    (tag : word m ptr.toNat = Cell.number) :
    readValue m ptr = .ok (.num (number m (ptr.toNat + Cell.first))) := by
  rw [readValue, if_neg (Nat.not_lt.2 inside), tag]
  rfl

theorem readValue_boolean (inside : ptr.toNat + Cell.size ≤ m.size)
    (tag : word m ptr.toNat = Cell.boolean) :
    readValue m ptr = .ok (.bool (word m (ptr.toNat + Cell.first) != 0)) := by
  rw [readValue, if_neg (Nat.not_lt.2 inside), tag]
  rfl

/-- The first component of a pair is read completely before the second one is looked at. -/
theorem readValue_pair (inside : ptr.toNat + Cell.size ≤ m.size)
    (tag : word m ptr.toNat = Cell.pair) :
    readValue m ptr = do
      let first ← readComponent m ptr (word m (ptr.toNat + Cell.first))
      let second ← readComponent m ptr (word m (ptr.toNat + Cell.second))
      return .pair first second := by
  have numberless : ¬ Cell.pair = Cell.number := by decide
  have booleanless : ¬ Cell.pair = Cell.boolean := by decide
  rw [readValue, if_neg (Nat.not_lt.2 inside), tag, if_neg numberless, if_neg booleanless,
    if_pos rfl]
  simp only [readComponent]
  split
  · congr 1
    funext first
    split
    · rfl
    · rfl
  · rfl

theorem readValue_unknown (inside : ptr.toNat + Cell.size ≤ m.size)
    (tag : ¬ IsTag (word m ptr.toNat)) :
    readValue m ptr = .error (.unknownTag (signed (word m ptr.toNat)) ptr.toNat) := by
  simp only [IsTag, not_or] at tag
  rw [readValue, if_neg (Nat.not_lt.2 inside), if_neg tag.1, if_neg tag.2.1, if_neg tag.2.2]

/-- What holds of all cells: it holds of a pair if it holds of everything below, and of the others
as they are. -/
@[elab_as_elim]
theorem cell_induction (m : ByteArray) {motive : UInt32 → Prop}
    (outside : ∀ ptr : UInt32, m.size < ptr.toNat + Cell.size → motive ptr)
    (number : ∀ ptr : UInt32, ptr.toNat + Cell.size ≤ m.size → word m ptr.toNat = Cell.number →
      motive ptr)
    (boolean : ∀ ptr : UInt32, ptr.toNat + Cell.size ≤ m.size → word m ptr.toNat = Cell.boolean →
      motive ptr)
    (pair : ∀ ptr : UInt32, ptr.toNat + Cell.size ≤ m.size → word m ptr.toNat = Cell.pair →
      (∀ a : UInt32, a.toNat < ptr.toNat → motive a) → motive ptr)
    (unknown : ∀ ptr : UInt32, ptr.toNat + Cell.size ≤ m.size → ¬ IsTag (word m ptr.toNat) →
      motive ptr)
    (ptr : UInt32) : motive ptr := by
  induction ptr using WellFounded.induction (measure UInt32.toNat).wf with
  | _ ptr ih =>
    by_cases reach : m.size < ptr.toNat + Cell.size
    · exact outside ptr reach
    have inside := Nat.not_lt.1 reach
    by_cases tag : IsTag (word m ptr.toNat)
    · rcases tag with tag | tag | tag
      · exact number ptr inside tag
      · exact boolean ptr inside tag
      · exact pair ptr inside tag ih
    · exact unknown ptr inside tag

/-! ## Values -/

theorem readComponent_eq_ok {a : UInt32} {v : Value} (h : readComponent m ptr a = .ok v) :
    a.toNat < ptr.toNat ∧ readValue m a = .ok v := by
  by_cases below : a.toNat < ptr.toNat
  · rw [readComponent, if_pos below] at h
    exact ⟨below, h⟩
  · rw [readComponent, if_neg below] at h
    cases h

/-- What is read from a memory is represented there. -/
theorem represents_of_readValue {v : Value} (h : readValue m ptr = .ok v) :
    Represents m ptr v := by
  induction ptr using cell_induction m generalizing v with
  | outside ptr outside =>
    rw [readValue_outside outside] at h
    cases h
  | number ptr inside tag =>
    rw [readValue_number inside tag] at h
    cases h
    exact .num inside (holdsWord_iff.2 tag) (holdsNumber_iff.2 rfl)
  | boolean ptr inside tag =>
    rw [readValue_boolean inside tag] at h
    cases h
    refine .bool inside (holdsWord_iff.2 tag) ?_
    rw [holdsWord_iff, bne_iff_ne]
  | pair ptr inside tag ih =>
    rw [readValue_pair inside tag] at h
    cases left : readComponent m ptr (word m (ptr.toNat + Cell.first)) with
    | error err =>
      rw [left] at h
      cases h
    | ok a =>
      cases right : readComponent m ptr (word m (ptr.toNat + Cell.second)) with
      | error err =>
        rw [left, right] at h
        cases h
      | ok b =>
        rw [left, right] at h
        cases h
        obtain ⟨below, first⟩ := readComponent_eq_ok left
        obtain ⟨below', second⟩ := readComponent_eq_ok right
        exact .pair inside (holdsWord_iff.2 tag) (holdsWord_iff.2 rfl) (holdsWord_iff.2 rfl) below
          below' (ih _ below first) (ih _ below' second)
  | unknown ptr inside tag =>
    rw [readValue_unknown inside tag] at h
    cases h

/-- A value that is represented in a memory is read from there. -/
theorem Represents.readValue_eq {v : Value} (h : Represents m ptr v) : readValue m ptr = .ok v := by
  induction h with
  | num inside tag content =>
    rw [readValue_number inside (holdsWord_iff.1 tag), holdsNumber_iff.1 content]
  | @bool ptr b inside tag content =>
    have truth : (word m (ptr.toNat + Cell.first) != 0) = b := by
      rw [Bool.eq_iff_iff, bne_iff_ne, ← content, holdsWord_iff]
    rw [readValue_boolean inside (holdsWord_iff.1 tag), truth]
  | pair inside tag first second below below' _ _ left right =>
    rw [readValue_pair inside (holdsWord_iff.1 tag), holdsWord_iff.1 first, holdsWord_iff.1 second,
      readComponent, readComponent, if_pos below, if_pos below', left, right]
    rfl

/-! ## The first flaw -/

/-- Something that reading looks at: a cell as such, or the address of a component of the pair
at `ptr`. -/
inductive Look where
  | cell (ptr : UInt32)
  | component (ptr address : UInt32)

/-- The cell that is looked at, or whose component is. -/
def Look.owner : Look → UInt32
  | cell ptr => ptr
  | component ptr _ => ptr

/-- What is wrong there, if anything is. -/
def flaw? (m : ByteArray) : Look → Option ReadError
  | .cell ptr =>
    if m.size < ptr.toNat + Cell.size then some (.outOfBounds ptr.toNat Cell.size m.size)
    else if IsTag (word m ptr.toNat) then none
    else some (.unknownTag (signed (word m ptr.toNat)) ptr.toNat)
  | .component ptr address =>
    if address.toNat < ptr.toNat then none
    else some (.forwardReference ptr.toNat address.toNat)

/-- All that there is to look at from a cell on, depth first: the cell; if it is a pair, the address
of its first component and all from there on; and only then the address of its second component and
all from there on. Addresses that are not lower are not followed. -/
def looks (m : ByteArray) (ptr : UInt32) : List Look :=
  if word m ptr.toNat = Cell.pair then
    let a := word m (ptr.toNat + Cell.first)
    let b := word m (ptr.toNat + Cell.second)
    .cell ptr :: .component ptr a :: (if a.toNat < ptr.toNat then looks m a else []) ++
      .component ptr b :: if b.toNat < ptr.toNat then looks m b else []
  else [.cell ptr]
termination_by ptr.toNat

/-- All that there is to look at for a component of the pair at `ptr`. -/
def componentLooks (m : ByteArray) (ptr a : UInt32) : List Look :=
  .component ptr a :: if a.toNat < ptr.toNat then looks m a else []

theorem looks_pair (tag : word m ptr.toNat = Cell.pair) :
    looks m ptr = .cell ptr :: (componentLooks m ptr (word m (ptr.toNat + Cell.first)) ++
      componentLooks m ptr (word m (ptr.toNat + Cell.second))) := by
  rw [looks, if_pos tag]
  rfl

theorem looks_of_ne (tag : word m ptr.toNat ≠ Cell.pair) : looks m ptr = [.cell ptr] := by
  rw [looks, if_neg tag]

/-- The cell itself comes first. -/
theorem exists_looks_eq_cons (m : ByteArray) (ptr : UInt32) :
    ∃ rest, looks m ptr = .cell ptr :: rest := by
  by_cases tag : word m ptr.toNat = Cell.pair
  · exact ⟨_, looks_pair tag⟩
  · exact ⟨[], looks_of_ne tag⟩

theorem flaw?_cell_of_isTag (inside : ptr.toNat + Cell.size ≤ m.size)
    (tag : IsTag (word m ptr.toNat)) : flaw? m (.cell ptr) = none := by
  rw [flaw?, if_neg (Nat.not_lt.2 inside), if_pos tag]

/-- Of what there is to look at, this is the first thing with a flaw. -/
def FirstFlaw (m : ByteArray) (ls : List Look) (l : Look) (err : ReadError) : Prop :=
  flaw? m l = some err ∧
    ∃ before after, ls = before ++ l :: after ∧ ∀ l' ∈ before, flaw? m l' = none

/-- The failure of a result. -/
def failure? : Except ReadError Value → Option ReadError
  | .ok _ => none
  | .error err => some err

theorem failure?_eq_some_iff {r : Except ReadError Value} {err : ReadError} :
    failure? r = some err ↔ r = .error err := by
  cases r <;> simp [failure?]

/-- Two results in sequence fail as the first one does, or else as the second one. -/
theorem failure?_pair (r r' : Except ReadError Value) :
    failure? (do return .pair (← r) (← r')) = (failure? r).or (failure? r') := by
  cases r with
  | error err => rfl
  | ok v =>
    cases r' with
    | error err => rfl
    | ok w => rfl

theorem findSome?_componentLooks {a : UInt32}
    (h : a.toNat < ptr.toNat → (looks m a).findSome? (flaw? m) = failure? (readValue m a)) :
    (componentLooks m ptr a).findSome? (flaw? m) = failure? (readComponent m ptr a) := by
  rw [componentLooks, readComponent, List.findSome?_cons, flaw?]
  by_cases below : a.toNat < ptr.toNat
  · simp only [if_pos below, h below]
  · simp only [if_neg below, failure?]

/-- The first flaw that there is to see is the failure. -/
theorem findSome?_looks (m : ByteArray) (ptr : UInt32) :
    (looks m ptr).findSome? (flaw? m) = failure? (readValue m ptr) := by
  induction ptr using cell_induction m with
  | outside ptr outside =>
    -- The bytes that are there may make it a pair; the cell itself comes first all the same.
    obtain ⟨rest, walk⟩ := exists_looks_eq_cons m ptr
    have flaw : flaw? m (.cell ptr) = some (.outOfBounds ptr.toNat Cell.size m.size) := by
      rw [flaw?, if_pos outside]
    rw [walk, List.findSome?_cons, flaw, readValue_outside outside, failure?]
  | number ptr inside tag =>
    have walk : looks m ptr = [.cell ptr] := looks_of_ne (by rw [tag]; decide)
    rw [walk, List.findSome?_cons, flaw?_cell_of_isTag inside (Or.inl tag),
      readValue_number inside tag]
    rfl
  | boolean ptr inside tag =>
    have walk : looks m ptr = [.cell ptr] := looks_of_ne (by rw [tag]; decide)
    rw [walk, List.findSome?_cons, flaw?_cell_of_isTag inside (Or.inr (Or.inl tag)),
      readValue_boolean inside tag]
    rfl
  | pair ptr inside tag ih =>
    rw [looks_pair tag, List.findSome?_cons, flaw?_cell_of_isTag inside (Or.inr (Or.inr tag)),
      List.findSome?_append, findSome?_componentLooks (ih _), findSome?_componentLooks (ih _),
      readValue_pair inside tag, ← failure?_pair]
  | unknown ptr inside tag =>
    have walk : looks m ptr = [.cell ptr] :=
      looks_of_ne fun pair => tag (Or.inr (Or.inr pair))
    have flaw : flaw? m (.cell ptr) =
        some (.unknownTag (signed (word m ptr.toNat)) ptr.toNat) := by
      rw [flaw?, if_neg (Nat.not_lt.2 inside), if_neg tag]
    rw [walk, List.findSome?_cons, flaw, readValue_unknown inside tag, failure?]

/-- From a cell in the memory on, all cells are in the memory. -/
theorem inside_of_mem_looks {l : Look} (inside : ptr.toNat + Cell.size ≤ m.size)
    (h : l ∈ looks m ptr) : l.owner.toNat + Cell.size ≤ m.size := by
  have single {ptr : UInt32} (inside : ptr.toNat + Cell.size ≤ m.size)
      (tag : word m ptr.toNat ≠ Cell.pair) (h : l ∈ looks m ptr) :
      l.owner.toNat + Cell.size ≤ m.size := by
    rw [looks_of_ne tag, List.mem_singleton] at h
    rw [h]
    exact inside
  induction ptr using cell_induction m with
  | outside ptr outside => omega
  | number ptr inside tag => exact single inside (by rw [tag]; decide) h
  | boolean ptr inside tag => exact single inside (by rw [tag]; decide) h
  | pair ptr inside tag ih =>
    have inComponent (a : UInt32) (h : l ∈ componentLooks m ptr a) :
        l.owner.toNat + Cell.size ≤ m.size := by
      rcases List.mem_cons.1 h with rfl | h
      · exact inside
      · by_cases below : a.toNat < ptr.toNat
        · rw [if_pos below] at h
          exact ih a below (by omega) h
        · rw [if_neg below] at h
          cases h
    rw [looks_pair tag, List.mem_cons, List.mem_append] at h
    rcases h with rfl | h | h
    · exact inside
    · exact inComponent _ h
    · exact inComponent _ h
  | unknown ptr inside tag => exact single inside (fun pair => tag (Or.inr (Or.inr pair))) h

/-- In the memory there are two kinds of flaws. -/
theorem flaw?_cases {l : Look} {err : ReadError} (inside : l.owner.toNat + Cell.size ≤ m.size)
    (h : flaw? m l = some err) :
    (∃ q, l = .cell q ∧ err = .unknownTag (signed (word m q.toNat)) q.toNat) ∨
      ∃ q a, l = .component q a ∧ err = .forwardReference q.toNat a.toNat := by
  cases l with
  | cell q =>
    rw [Look.owner] at inside
    rw [flaw?, if_neg (Nat.not_lt.2 inside)] at h
    split at h
    · cases h
    · exact Or.inl ⟨q, rfl, (Option.some.inj h).symm⟩
  | component q a =>
    rw [flaw?] at h
    split at h
    · cases h
    · exact Or.inr ⟨q, a, rfl, (Option.some.inj h).symm⟩

/-- If the cell is in the memory, a failure is the first flaw, and of one of two kinds. -/
theorem exists_firstFlaw {err : ReadError} (inside : ptr.toNat + Cell.size ≤ m.size)
    (h : readValue m ptr = .error err) :
    ∃ l, FirstFlaw m (looks m ptr) l err ∧
      ((∃ q, l = .cell q ∧ err = .unknownTag (signed (word m q.toNat)) q.toNat) ∨
        ∃ q a, l = .component q a ∧ err = .forwardReference q.toNat a.toNat) := by
  have first : (looks m ptr).findSome? (flaw? m) = some err := by
    rw [findSome?_looks, failure?_eq_some_iff, h]
  obtain ⟨before, l, after, walk, flaw, sound⟩ := List.findSome?_eq_some_iff.1 first
  have member : l ∈ looks m ptr := by
    rw [walk]
    exact List.mem_append_cons_self
  exact ⟨l, ⟨flaw, before, after, walk, sound⟩,
    flaw?_cases (inside_of_mem_looks inside member) flaw⟩

/-! ## Addresses as words -/

/-- The address that is `n` bytes further on, unless it is too large for a word. -/
def advance? (ptr : UInt32) (n : Nat) : Option UInt32 :=
  if ptr.toNat + n < 2 ^ 32 then some (ptr + UInt32.ofNat n) else none

/-- An address inside a cell of a memory is a word. -/
theorem exists_advance? {n : Nat} (small : m.size ≤ 2 ^ 32)
    (inside : ptr.toNat + Cell.size ≤ m.size) (hn : n < Cell.size) :
    ∃ a, advance? ptr n = some a ∧ a.toNat = ptr.toNat + n := by
  have short : ptr.toNat + n < 2 ^ 32 := by omega
  refine ⟨_, if_pos short, ?_⟩
  rw [UInt32.toNat_add, UInt32.toNat_ofNat_of_lt' (by simp only [UInt32.size]; omega),
    Nat.mod_eq_of_lt short]

/-- The component whose address is at an offset of the pair at `ptr`, if `read` reads values. -/
def componentAt (read : UInt32 → ExceptT ReadError Option Value) (m : ByteArray) (ptr : UInt32)
    (offset : Nat) : ExceptT ReadError Option Value := do
  let component := word m (← advance? ptr offset).toNat
  if component.toNat < ptr.toNat then read component
  else throw (.forwardReference ptr.toNat component.toNat)

/-- Reading with all addresses computed as words and at most `depth` cells open at a time. There is
no result if an address is too large or if the cells are nested deeper. -/
def readWithin (m : ByteArray) : (depth : Nat) → (ptr : UInt32) → ExceptT ReadError Option Value
  | 0, _ => .mk none
  | depth + 1, ptr =>
    if m.size < ptr.toNat + Cell.size then
      throw (.outOfBounds ptr.toNat Cell.size m.size)
    else if word m ptr.toNat = Cell.number then do
      return .num (number m (← advance? ptr Cell.first).toNat)
    else if word m ptr.toNat = Cell.boolean then do
      return .bool (word m (← advance? ptr Cell.first).toNat != 0)
    else if word m ptr.toNat = Cell.pair then do
      let first ← componentAt (readWithin m depth) m ptr Cell.first
      let second ← componentAt (readWithin m depth) m ptr Cell.second
      return .pair first second
    else throw (.unknownTag (signed (word m ptr.toNat)) ptr.toNat)

theorem run_componentAt {read : UInt32 → ExceptT ReadError Option Value} {offset : Nat}
    (small : m.size ≤ 2 ^ 32) (inside : ptr.toNat + Cell.size ≤ m.size) (hn : offset < Cell.size)
    (h : ∀ a : UInt32, a.toNat < ptr.toNat → (read a).run = some (readValue m a)) :
    (componentAt read m ptr offset).run =
      some (readComponent m ptr (word m (ptr.toNat + offset))) := by
  obtain ⟨a, advanced, place⟩ := exists_advance? small inside hn
  rw [componentAt, advanced, ← place, readComponent]
  show (if (word m a.toNat).toNat < ptr.toNat then read (word m a.toNat) else _).run = _
  by_cases below : (word m a.toNat).toNat < ptr.toNat
  · rw [if_pos below, if_pos below]
    exact h _ below
  · rw [if_neg below, if_neg below]
    rfl

/-- The cells that are open lie one below the other, and where a cell is in the memory all addresses
inside it are words. -/
theorem run_readWithin {depth : Nat} (small : m.size ≤ 2 ^ 32) (h : ptr.toNat < depth) :
    (readWithin m depth ptr).run = some (readValue m ptr) := by
  induction depth generalizing ptr with
  | zero => omega
  | succ depth ih =>
    induction ptr using cell_induction m with
    | outside ptr outside =>
      rw [readWithin, if_pos outside, readValue_outside outside]
      rfl
    | number ptr inside tag =>
      obtain ⟨a, advanced, place⟩ := exists_advance? small inside (by decide : Cell.first < _)
      rw [readWithin, if_neg (Nat.not_lt.2 inside), if_pos tag, readValue_number inside tag,
        advanced, ← place]
      rfl
    | boolean ptr inside tag =>
      obtain ⟨a, advanced, place⟩ := exists_advance? small inside (by decide : Cell.first < _)
      have notNumber : word m ptr.toNat ≠ Cell.number := by rw [tag]; decide
      rw [readWithin, if_neg (Nat.not_lt.2 inside), if_neg notNumber, if_pos tag,
        readValue_boolean inside tag, advanced, ← place]
      rfl
    | pair ptr inside tag _ =>
      have notNumber : word m ptr.toNat ≠ Cell.number := by rw [tag]; decide
      have notBoolean : word m ptr.toNat ≠ Cell.boolean := by rw [tag]; decide
      have below (a : UInt32) (ha : a.toNat < ptr.toNat) :
          (readWithin m depth a).run = some (readValue m a) := ih (by omega)
      have first := run_componentAt small inside (by decide : Cell.first < _) below
      have second := run_componentAt small inside (by decide : Cell.second < _) below
      rw [ExceptT.run] at first second
      rw [readWithin, if_neg (Nat.not_lt.2 inside), if_neg notNumber, if_neg notBoolean,
        if_pos tag, readValue_pair inside tag, first, second]
      cases readComponent m ptr (word m (ptr.toNat + Cell.first)) with
      | error err => rfl
      | ok v =>
        cases readComponent m ptr (word m (ptr.toNat + Cell.second)) with
        | error err => rfl
        | ok w => rfl
    | unknown ptr inside tag =>
      rw [readValue_unknown inside tag]
      simp only [IsTag, not_or] at tag
      rw [readWithin, if_neg (Nat.not_lt.2 inside), if_neg tag.1, if_neg tag.2.1, if_neg tag.2.2]
      rfl

/-! ## Any memory -/

/-- Reading a value from any memory ends, with no address being cut off in a word. It fails for lack
of memory exactly if the cell is not all there, and gives exactly the value that the cell
represents. If the cell is there and represents none, the failure is the first flaw that there is to
see depth first: a tag that no cell has, or a component that is not below its pair. -/
theorem readValue_exact {m : ByteArray} (small : m.size ≤ 2 ^ 32) (ptr : UInt32) :
    (∀ depth, ptr.toNat < depth → (readWithin m depth ptr).run = some (readValue m ptr)) ∧
      (readValue m ptr = .error (.outOfBounds ptr.toNat 12 m.size) ↔ m.size < ptr.toNat + 12) ∧
      (∀ v, readValue m ptr = .ok v ↔ Represents m ptr v) ∧
      (ptr.toNat + 12 ≤ m.size → (¬ ∃ v, Represents m ptr v) →
        ∃ l err, FirstFlaw m (looks m ptr) l err ∧ readValue m ptr = .error err ∧
          ((∃ q, l = .cell q ∧ err = .unknownTag (signed (word m q.toNat)) q.toNat) ∨
            ∃ q a, l = .component q a ∧ err = .forwardReference q.toNat a.toNat)) := by
  refine ⟨fun depth => run_readWithin small, ⟨?_, readValue_outside⟩, ?_, ?_⟩
  · intro failed
    by_contra reach
    obtain ⟨l, -, ⟨q, -, other⟩ | ⟨q, a, -, other⟩⟩ := exists_firstFlaw (Nat.not_lt.1 reach) failed
    · cases other
    · cases other
  · intro v
    exact ⟨represents_of_readValue, Represents.readValue_eq⟩
  · intro inside nothing
    cases result : readValue m ptr with
    | ok v => exact absurd ⟨v, represents_of_readValue result⟩ nothing
    | error err =>
      obtain ⟨l, first, kind⟩ := exists_firstFlaw inside result
      exact ⟨l, err, first, rfl, kind⟩

/-- A boolean that is neither `0` nor `1`, and behind it a pair that is its own second component. -/
def circular : ByteArray :=
  ⟨#[2, 0, 0, 0, 5, 0, 0, 0, 0, 0, 0, 0, 3, 0, 0, 0, 0, 0, 0, 0, 12, 0, 0, 0]⟩

theorem readValue_exact_circular :
    circular.size ≤ 2 ^ 32 ∧ readValue circular 0 = .ok (.bool true) ∧
      readValue circular 12 = .error (.forwardReference 12 12) ∧
      readValue circular 13 = .error (.outOfBounds 13 12 24) ∧
      ∃ l, FirstFlaw circular (looks circular 12) l (.forwardReference 12 12) := by
  have small : circular.size ≤ 2 ^ 32 := by decide
  obtain ⟨-, -, values, -⟩ := readValue_exact small 0
  obtain ⟨within, -, values', flaws⟩ := readValue_exact small 12
  obtain ⟨-, outside, -, -⟩ := readValue_exact small 13
  have truth : Represents circular 0 (.bool true) := .bool (by decide) (by decide) (by decide)
  have failed : readValue circular 12 = .error (.forwardReference 12 12) := by
    have bounded : (readWithin circular 13 12).run = some (.error (.forwardReference 12 12)) := rfl
    rw [within 13 (by decide)] at bounded
    exact Option.some.inj bounded
  have nothing : ¬ ∃ v, Represents circular 12 v := by
    rintro ⟨v, represented⟩
    rw [(values' v).2 represented] at failed
    cases failed
  obtain ⟨l, err, first, failed', -⟩ := flaws (by decide) nothing
  rw [failed] at failed'
  cases failed'
  exact ⟨small, (values _).2 truth, failed, outside.2 (by decide), l, first⟩

end Twofold.Heap
