import Twofold.Proofs.Reader
import Twofold.Proofs.WellTyped

/-!
# Reading what was written

Every part of the binary format is read back as what was written, from exactly the bytes that were
written: `Reads p bs a` says that `p` reads `a` from `bs` and stops there, whatever follows. Sizes
and numbers of items are bounded by the size of the whole, so one bound on that is enough; indices
are bounded on their own.
-/

namespace Twofold

open Wasm

namespace Wasm

/-- The bytes of a byte string. -/
abbrev raw (b : ByteArray) : List UInt8 := b.data.toList

theorem raw_append (a b : ByteArray) : raw (a ++ b) = raw a ++ raw b := ByteArray.toList_data_append

theorem raw_toByteArray (bs : List UInt8) : raw bs.toByteArray = bs := List.toList_data_toByteArray

theorem toByteArray_raw (b : ByteArray) : (raw b).toByteArray = b :=
  ByteArray.ext (by simp [raw, List.data_toByteArray])

theorem length_raw (b : ByteArray) : (raw b).length = b.size := by
  simp [raw, ByteArray.size_data]

theorem raw_concat {α : Type} (f : α → ByteArray) (xs : List α) :
    raw (Bytes.concat (xs.map f)) = xs.flatMap fun x => raw (f x) := by
  induction xs with
  | nil => rfl
  | cons x xs ih => rw [List.map_cons, Bytes.concat_cons, raw_append, ih, List.flatMap_cons]

namespace Reader

variable {α β : Type}

/-- `p` reads `a` from `bs` and stops there. -/
def Reads (p : Reader α) (bs : List UInt8) (a : α) : Prop :=
  ∀ rest, p (bs ++ rest) = some (a, rest)

/-! ## Readers in general -/

namespace Reads

theorem pure (a : α) : Reads (Pure.pure a) [] a := fun _ => rfl

theorem bind {p : Reader α} {f : α → Reader β} {bs cs : List UInt8} {a : α} {b : β}
    (hp : Reads p bs a) (hf : Reads (f a) cs b) : Reads (p >>= f) (bs ++ cs) b := by
  intro rest
  show StateT.bind p f (bs ++ cs ++ rest) = _
  rw [StateT.bind, List.append_assoc, hp]
  exact hf rest

/-- The last part of a value. -/
theorem last {p : Reader α} {f : α → β} {bs : List UInt8} {a : α} (hp : Reads p bs a) :
    Reads (do return f (← p)) bs (f a) := by
  have h := hp.bind (f := fun a => (Pure.pure (f a) : Reader β)) (pure (f a))
  rwa [List.append_nil] at h

theorem map {p : Reader α} (f : α → β) {bs : List UInt8} {a : α} (hp : Reads p bs a) :
    Reads (f <$> p) bs (f a) := by
  intro rest
  show StateT.map f p (bs ++ rest) = _
  rw [StateT.map, hp]
  rfl

/-- Without more bytes behind, none is left. -/
theorem eq_some {p : Reader α} {bs : List UInt8} {a : α} (hp : Reads p bs a) :
    p bs = some (a, []) := by
  have h := hp []
  rwa [List.append_nil] at h

/-- Where nothing can be read, something was written. -/
theorem size_pos {p : Reader α} {b : ByteArray} {a : α} (hp : Reads p (raw b) a)
    (empty : p [] = none) : 0 < b.size := by
  rw [← length_raw]
  refine List.length_pos_iff.2 fun nothing => ?_
  have h := hp.eq_some
  rw [nothing, empty] at h
  cases h

theorem exactly {p : Reader α} {bs : List UInt8} {a : α} (hp : p bs = some (a, [])) :
    Reads (Reader.exactly p bs) [] a := by
  intro rest
  rw [Reader.exactly, hp]
  rfl

end Reads

theorem reads_byte (b : UInt8) : Reads byte [b] b := fun _ => rfl

theorem reads_expect (b : UInt8) : Reads (expect b) [b] () := by
  intro rest
  simp [expect, byte, bind, StateT.bind, guard, pure, StateT.pure]

theorem reads_take (bs : List UInt8) : Reads (take bs.length) bs bs := by
  intro rest
  simp [take]

/-! ## Integers -/

/-- The width that is left for the bytes behind the first one. -/
theorem two_pow_sub {width : Nat} (h : 7 ≤ width) : 2 ^ width = 128 * 2 ^ (width - 7) := by
  obtain ⟨k, rfl⟩ := Nat.exists_eq_add_of_le h
  rw [Nat.pow_add, Nat.add_sub_cancel_left]

theorem lt_of_two_pow_lt {width k : Nat} (h : 2 ^ k < 2 ^ width) : k < width :=
  (Nat.pow_lt_pow_iff_right (by decide)).1 h

theorem toNat_byte {n : Nat} (h : n < 256) : (UInt8.ofNat n).toNat = n :=
  UInt8.toNat_ofNat_of_lt' h

theorem reads_unsigned {width n : Nat} (fits : n < 2 ^ width) :
    Reads (unsigned width) (Leb128.unsigned n) n := by
  intro rest
  fun_induction Leb128.unsigned n generalizing width with
  | case1 n small =>
    rw [List.singleton_append, unsigned, toNat_byte (by omega), if_pos small, if_pos fits]
  | case2 n large ih =>
    have wide : 7 < width := lt_of_two_pow_lt (by omega)
    have fewer : n / 128 < 2 ^ (width - 7) := by
      rw [two_pow_sub (Nat.le_of_lt wide)] at fits
      omega
    have marked : ¬ n % 128 + 128 < 128 := by omega
    rw [List.cons_append, unsigned, toNat_byte (by omega), if_neg marked, if_pos wide, ih fewer]
    simp only [Nat.add_sub_cancel, Nat.div_add_mod]

theorem reads_signed {width : Nat} {n : Int} (low : -(2 ^ (width - 1) : Nat) ≤ n)
    (high : n < (2 ^ (width - 1) : Nat)) : Reads (signed width) (Leb128.signed n) n := by
  intro rest
  fun_induction Leb128.signed n generalizing width with
  | case1 n small =>
    rw [List.singleton_append, signed, toNat_byte (by omega)]
    by_cases sign : 0 ≤ n
    · have first : (n % 128).toNat < 64 := by omega
      have fits : (n % 128).toNat < 2 ^ (width - 1) := by omega
      have value : ((n % 128).toNat : Int) = n := by omega
      rw [if_pos first, if_pos fits, value]
    · have first : ¬ (n % 128).toNat < 64 := by omega
      have second : (n % 128).toNat < 128 := by omega
      have fits : 128 - (n % 128).toNat ≤ 2 ^ (width - 1) := by omega
      have value : ((n % 128).toNat : Int) - 128 = n := by omega
      rw [if_neg first, if_pos second, if_pos fits, value]
  | case2 n large ih =>
    have wide : 6 < width - 1 := lt_of_two_pow_lt (by omega)
    have power : 2 ^ (width - 1) = 128 * 2 ^ (width - 7 - 1) := by
      rw [two_pow_sub wide, Nat.sub_right_comm]
    have marked : ¬ (n % 128).toNat + 128 < 64 ∧ ¬ (n % 128).toNat + 128 < 128 := by omega
    have value : 128 * (n / 128) + ((n % 128).toNat : Int) = n := by omega
    rw [List.cons_append, signed, toNat_byte (by omega), if_neg marked.1, if_neg marked.2,
      if_pos (by omega), ih (by omega) (by omega)]
    simp only [Nat.add_sub_cancel, value]

/-! ## Lists and sized bytes -/

theorem reads_many {p : Reader β} {write : α → List UInt8} {read : α → β} {xs : List α}
    (item : ∀ x ∈ xs, Reads p (write x) (read x)) :
    Reads (many p xs.length) (xs.flatMap write) (xs.map read) := by
  induction xs with
  | nil => exact .pure []
  | cons x xs ih =>
    have head := item x List.mem_cons_self
    have tail := ih fun y hy => item y (List.mem_cons_of_mem _ hy)
    rw [List.flatMap_cons]
    exact head.bind tail.last

theorem size_le_size_concat (write : α → ByteArray) {xs : List α} {x : α} (h : x ∈ xs) :
    (write x).size ≤ (Bytes.concat (xs.map write)).size := by
  induction xs with
  | nil => cases h
  | cons y xs ih =>
    rw [List.map_cons, Bytes.concat_cons, ByteArray.size_append]
    rcases List.mem_cons.1 h with rfl | h
    · exact Nat.le_add_right _ _
    · exact Nat.le_add_left_of_le (ih h)

/-- Items that are not empty are no more than their bytes. -/
theorem length_le_size_concat {write : α → ByteArray} {xs : List α}
    (filled : ∀ x ∈ xs, 0 < (write x).size) : xs.length ≤ (Bytes.concat (xs.map write)).size := by
  induction xs with
  | nil => exact Nat.zero_le _
  | cons x xs ih =>
    have first := filled x List.mem_cons_self
    have others := ih fun y hy => filled y (List.mem_cons_of_mem _ hy)
    rw [List.map_cons, Bytes.concat_cons, ByteArray.size_append, List.length_cons]
    omega

theorem reads_vec {width : Nat} {p : Reader β} {write : α → ByteArray} (read : α → β)
    {xs : List α} (fits : (Binary.vec (xs.map write)).size < 2 ^ width) (empty : p [] = none)
    (item : ∀ x ∈ xs, (write x).size < 2 ^ width → Reads p (raw (write x)) (read x)) :
    Reads (vec width p) (raw (Binary.vec (xs.map write))) (xs.map read) := by
  rw [Binary.vec, ByteArray.size_append] at fits
  have items : ∀ x ∈ xs, Reads p (raw (write x)) (read x) := by
    intro x hx
    have := size_le_size_concat write hx
    exact item x hx (by omega)
  have count := length_le_size_concat fun x hx => (items x hx).size_pos empty
  rw [Binary.vec, raw_append, raw_toByteArray, raw_concat, List.length_map]
  exact (reads_unsigned (by omega)).bind (reads_many items)

theorem reads_sized {width : Nat} {b : ByteArray} (fits : (Binary.sized b).size < 2 ^ width) :
    Reads (sized width) (raw (Binary.sized b)) (raw b) := by
  rw [Binary.sized, ByteArray.size_append] at fits
  rw [Binary.sized, raw_append, raw_toByteArray]
  refine (reads_unsigned (by omega)).bind ?_
  rw [← length_raw]
  exact reads_take _

theorem reads_inside {width : Nat} {p : Reader α} {b : ByteArray} {a : α}
    (fits : (Binary.sized b).size < 2 ^ width)
    (h : b.size < 2 ^ width → p (raw b) = some (a, [])) :
    Reads (inside width p) (raw (Binary.sized b)) a := by
  have inner : b.size < 2 ^ width := by
    rw [Binary.sized, ByteArray.size_append] at fits
    omega
  have bytes := (reads_sized fits).bind (f := exactly p) (.exactly (h inner))
  rwa [List.append_nil] at bytes

theorem reads_name {width : Nat} {s : String} (fits : (Binary.name s).size < 2 ^ width) :
    Reads (name width) (raw (Binary.name s)) s := by
  intro rest
  have bytes : sized width (raw (Binary.name s) ++ rest) = some (raw s.toUTF8, rest) :=
    reads_sized fits rest
  simp only [name, bind, StateT.bind, bytes, Option.bind_some, toByteArray_raw, fromUTF8?_toUTF8]
  rfl

/-! ## Instructions -/

theorem reads_valType (t : ValType) : Reads valType [Binary.valType t] t := by
  intro rest
  cases t <;> rfl

theorem reads_access {width align offset : Nat} (small : align < 128) (wide : 7 ≤ width)
    (fits : offset < 2 ^ width) :
    Reads (access width align) (UInt8.ofNat align :: Leb128.unsigned offset) offset := by
  have first : Leb128.unsigned align = [UInt8.ofNat align] := by
    rw [Leb128.unsigned, if_pos small]
  have narrow : align < 2 ^ width :=
    Nat.lt_of_lt_of_le small (Nat.pow_le_pow_right (Nat.succ_pos 1) wide)
  have aligned := reads_unsigned narrow
  rw [first] at aligned
  refine aligned.bind ?_
  intro rest
  simp [guard, bind, StateT.bind, pure, StateT.pure, reads_unsigned fits rest]

end Reader

/-- The index or offset of an instruction. -/
def Instr.operand : Instr → Nat
  | .call n | .localGet n | .localSet n | .globalGet n | .globalSet n | .i32Load n | .f64Load n
  | .i32Store n | .f64Store n => n
  | _ => 0

namespace Reader

theorem reads_opcode {width : Nat} {opcode : UInt8} {operands : List UInt8} {i : Instr}
    {p : Reader Instr} (h : Reads p operands i)
    (chosen : ∀ bs, instr width (opcode :: bs) = p bs) :
    Reads (instr width) (opcode :: operands) i :=
  fun rest => (chosen _).trans (h rest)

theorem reads_instr {width : Nat} {i : Instr} (wide : 32 ≤ width) (small : i.operand < 2 ^ width) :
    Reads (instr width) (Binary.instr i) i := by
  cases i with
  | ifThen result =>
    cases result with
    | none => exact fun _ => rfl
    | some t =>
      intro rest
      cases t <;> rfl
  | call n | localGet n | localSet n | globalGet n | globalSet n =>
    exact reads_opcode (reads_unsigned small).last fun _ => rfl
  | i32Load n | i32Store n =>
    exact reads_opcode (reads_access (by decide : 2 < 128) (by omega) small).last fun _ => rfl
  | f64Load n | f64Store n =>
    exact reads_opcode (reads_access (by decide : 3 < 128) (by omega) small).last fun _ => rfl
  | memorySize | memoryGrow => exact fun _ => rfl
  | i32Const w =>
    have low : -(2 ^ (32 - 1) : Nat) ≤ w.toBitVec.toInt := by
      simpa using BitVec.le_toInt w.toBitVec
    have high : w.toBitVec.toInt < (2 ^ (32 - 1) : Nat) := by
      simpa using BitVec.toInt_lt (x := w.toBitVec)
    have value : (⟨BitVec.ofInt 32 w.toBitVec.toInt⟩ : UInt32) = w := by rw [BitVec.ofInt_toInt]
    have constant : Reads (do return Instr.i32Const ⟨BitVec.ofInt 32 (← signed 32)⟩)
        (Leb128.signed w.toBitVec.toInt) (.i32Const ⟨BitVec.ofInt 32 w.toBitVec.toInt⟩) :=
      (reads_signed low high).last
    rw [value] at constant
    exact reads_opcode constant fun _ => rfl
  | f64Const n =>
    have bytes := reads_take (Bytes.ofNat 8 n.bits.toNat)
    rw [Bytes.length_ofNat] at bytes
    have short : n.bits.toNat < 256 ^ 8 := n.bits.toNat_lt
    have value : UInt64.ofNat (Bytes.toNat (Bytes.ofNat 8 n.bits.toNat)) = n.bits := by
      rw [Bytes.toNat_ofNat, Nat.mod_eq_of_lt short, UInt64.ofNat_toNat]
    have constant : Reads (do return Instr.f64Const ⟨UInt64.ofNat (Bytes.toNat (← take 8))⟩)
        (Bytes.ofNat 8 n.bits.toNat)
        (.f64Const ⟨UInt64.ofNat (Bytes.toNat (Bytes.ofNat 8 n.bits.toNat))⟩) := bytes.last
    rw [value] at constant
    exact reads_opcode constant fun _ => rfl
  | _ => exact fun _ => rfl

/-- The last instruction closes the others. -/
def closes : List Bool → List Instr → Bool
  | _, [] => false
  | opened, i :: is =>
    if i = .close ∧ opened = [] then is.isEmpty
    else
      match nest opened i with
      | some opened => closes opened is
      | none => false

theorem reads_instrs {width count : Nat} {opened : List Bool} {is : List Instr} (wide : 32 ≤ width)
    (closed : closes opened is = true) (small : ∀ i ∈ is, i.operand < 2 ^ width)
    (enough : is.length ≤ count) :
    Reads (instrs width count opened) (is.flatMap Binary.instr) is := by
  induction is generalizing opened count with
  | nil => simp [closes] at closed
  | cons i is ih =>
    cases count with
    | zero => simp at enough
    | succ count =>
      rw [List.flatMap_cons]
      refine (reads_instr wide (small i List.mem_cons_self)).bind ?_
      rw [closes] at closed
      split at closed
      next last =>
        rw [List.isEmpty_iff.1 closed, if_pos last]
        exact .pure _
      next more =>
        rw [if_neg more]
        cases nested : nest opened i with
        | none => simp [nested] at closed
        | some opened' =>
          rw [nested] at closed
          rw [List.length_cons] at enough
          exact (ih closed (fun j hj => small j (List.mem_cons_of_mem _ hj)) (by omega)).last

theorem length_instr_pos (i : Instr) : 0 < (Binary.instr i).length := by
  cases i with
  | ifThen result => cases result <;> exact Nat.succ_pos _
  | _ => exact Nat.succ_pos _

theorem length_le_length_flatMap (is : List Instr) :
    is.length ≤ (is.flatMap Binary.instr).length := by
  induction is with
  | nil => simp
  | cons i is ih =>
    have first := length_instr_pos i
    rw [List.flatMap_cons, List.length_append, List.length_cons]
    omega

theorem reads_code {width : Nat} {is : List Instr} (wide : 32 ≤ width)
    (closed : closes [] is = true) (small : ∀ i ∈ is, i.operand < 2 ^ width) :
    Reads (code width) (raw (Binary.code is)) is := by
  intro rest
  have enough := length_le_length_flatMap is
  rw [Binary.code, raw_toByteArray, code]
  exact reads_instrs wide closed small (by rw [List.length_append]; omega) rest

theorem reads_constant {width : Nat} (wide : 32 ≤ width) (w : UInt32) :
    Reads (code width) (raw (Binary.code [.i32Const w, .close])) [.i32Const w, .close] := by
  refine reads_code wide rfl fun i hi => ?_
  simp only [List.mem_cons, List.not_mem_nil, or_false] at hi
  rcases hi with rfl | rfl <;> exact Nat.two_pow_pos width

/-! ## Parts of sections -/

variable {α β : Type} {width : Nat}

theorem lt_two_pow (wide : 32 ≤ width) {n : Nat} (h : n < 2 ^ 32) : n < 2 ^ width :=
  Nat.lt_of_lt_of_le h (Nat.pow_le_pow_right (Nat.succ_pos 1) wide)

theorem reads_localGroup (wide : 32 ≤ width) (t : ValType) :
    Reads (localGroup width) [1, Binary.valType t] (1, t) := by
  have one : Leb128.unsigned 1 = [1] := by rw [Leb128.unsigned, if_pos (by decide)]; rfl
  have count := reads_unsigned (lt_two_pow wide (by decide : 1 < 2 ^ 32))
  rw [one] at count
  exact count.bind (reads_valType t).last

theorem reads_body {types : List ValType} {is : List Instr} (wide : 32 ≤ width)
    (fits : (Binary.body types is).size < 2 ^ width) (closed : closes [] is = true)
    (small : ∀ i ∈ is, i.operand < 2 ^ 32) :
    Reads (body width) (raw (Binary.body types is)) ⟨types.map (1, ·), is⟩ := by
  rw [Binary.body, ByteArray.size_append] at fits
  rw [Binary.body, raw_append]
  have locals : Reads (vec width (localGroup width)) (raw (Binary.locals types))
      (types.map (1, ·)) := by
    refine reads_vec (1, ·) (by rw [← Binary.locals]; omega) rfl fun t _ _ => ?_
    rw [raw_toByteArray]
    exact reads_localGroup wide t
  exact locals.bind (reads_code wide closed fun i hi => lt_two_pow wide (small i hi)).last

theorem reads_valTypes {types : List ValType}
    (fits : (Binary.vec (types.map fun t => [Binary.valType t].toByteArray)).size < 2 ^ width) :
    Reads (vec width valType)
      (raw (Binary.vec (types.map fun t => [Binary.valType t].toByteArray))) types := by
  have items : Reads (vec width valType) _ (types.map id) := reads_vec id fits rfl fun t _ _ => by
    rw [raw_toByteArray]
    exact reads_valType t
  rwa [List.map_id] at items

theorem reads_funcType {t : FuncType} (fits : (Binary.funcType t).size < 2 ^ width) :
    Reads (funcType width) (raw (Binary.funcType t)) t := by
  rw [Binary.funcType, ByteArray.size_append, ByteArray.size_append] at fits
  rw [Binary.funcType, raw_append, raw_append, raw_toByteArray, List.append_assoc]
  exact (reads_expect 0x60).bind ((reads_valTypes (by omega)).bind (reads_valTypes (by omega)).last)

theorem reads_importEntry {i : Import} (wide : 32 ≤ width)
    (fits : (Binary.importEntry i).size < 2 ^ width) (small : i.type < 2 ^ 32) :
    Reads (importEntry width) (raw (Binary.importEntry i)) i := by
  rw [Binary.importEntry, ByteArray.size_append, ByteArray.size_append] at fits
  rw [Binary.importEntry, raw_append, raw_append, raw_toByteArray, List.append_assoc]
  refine (reads_name (by omega)).bind ((reads_name (by omega)).bind ?_)
  exact (reads_expect 0x00).bind (reads_unsigned (lt_two_pow wide small)).last

theorem reads_limits {l : Limits} (wide : 32 ≤ width) (least : l.min < 2 ^ 32)
    (most : l.max < 2 ^ 32) : Reads (limits width) (raw (Binary.limits l)) l := by
  rw [Binary.limits, raw_toByteArray]
  exact (reads_expect 0x01).bind ((reads_unsigned (lt_two_pow wide least)).bind
    (reads_unsigned (lt_two_pow wide most)).last)

theorem reads_global (wide : 32 ≤ width) (g : Global) :
    Reads (global width) (raw (Binary.global g)) (.i32, true, [.i32Const g.init, .close]) := by
  rw [Binary.global, raw_append, raw_toByteArray]
  have mutable : Reads byte [1] 1 := reads_byte 1
  have guarded : Reads (guard ((1 : UInt8).toNat ≤ 1)) [] () := .pure ()
  exact (reads_valType .i32).bind (mutable.bind (guarded.bind (reads_constant wide g.init).last))

theorem reads_exportEntry {e : Export} (wide : 32 ≤ width)
    (fits : (Binary.exportEntry e).size < 2 ^ width) (small : e.index < 2 ^ 32) :
    Reads (exportEntry width) (raw (Binary.exportEntry e)) e := by
  obtain ⟨title, kind, index⟩ := e
  rw [Binary.exportEntry, ByteArray.size_append] at fits
  rw [Binary.exportEntry, raw_append, raw_toByteArray]
  have indexed := reads_unsigned (lt_two_pow wide small)
  refine (reads_name (by omega)).bind ?_
  cases kind with
  | func =>
    have kind : Reads exportKind [0x00] .func := fun _ => rfl
    exact kind.bind indexed.last
  | memory =>
    have kind : Reads exportKind [0x02] .memory := fun _ => rfl
    exact kind.bind indexed.last

theorem reads_segment {d : DataSegment} (wide : 32 ≤ width)
    (fits : (Binary.dataSegment d).size < 2 ^ width) :
    Reads (segment width) (raw (Binary.dataSegment d))
      ([.i32Const d.offset, .close], raw d.bytes) := by
  rw [Binary.dataSegment, ByteArray.size_append] at fits
  rw [Binary.dataSegment, raw_append, raw_append, raw_toByteArray, List.append_assoc]
  exact (reads_expect 0x00).bind ((reads_constant wide d.offset).bind
    (reads_sized (by omega)).last)

/-! ## Modules -/

theorem reads_numbered {id : UInt8} {b : ByteArray} {s : Section}
    (fits : (Binary.numbered id b).size < 2 ^ width)
    (h : b.size < 2 ^ width → content width id.toNat (raw b) = some (s, [])) :
    Reads (numbered width) (raw (Binary.numbered id b)) s := by
  rw [Binary.numbered, ByteArray.size_append] at fits
  rw [Binary.numbered, raw_append, raw_toByteArray]
  exact (reads_byte id).bind (reads_inside (by omega) h)

theorem reads_custom {c : Custom} (fits : (Binary.custom c).size < 2 ^ width) :
    Reads (numbered width) (raw (Binary.custom c)) (.custom c.name (raw c.content.toUTF8)) := by
  refine reads_numbered fits fun inner => ?_
  rw [ByteArray.size_append] at inner
  have title : name width (raw (Binary.name c.name) ++ raw c.content.toUTF8) =
      some (c.name, raw c.content.toUTF8) := reads_name (by omega) _
  show content width 0 _ = _
  rw [raw_append]
  simp only [content, bind, StateT.bind, title, Option.bind_some]
  rfl

/-- A section that is a list. -/
theorem reads_list {id : UInt8} {p : Reader β} {write : α → ByteArray} (read : α → β)
    {xs : List α} {make : List β → Section}
    (fits : (Binary.numbered id (Binary.vec (xs.map write))).size < 2 ^ width)
    (chosen : content width id.toNat = make <$> vec width p) (empty : p [] = none)
    (item : ∀ x ∈ xs, (write x).size < 2 ^ width → Reads p (raw (write x)) (read x)) :
    Reads (numbered width) (raw (Binary.numbered id (Binary.vec (xs.map write))))
      (make (xs.map read)) := by
  refine reads_numbered fits fun inner => ?_
  have items := reads_vec read inner empty item
  rw [chosen]
  exact (items.map make).eq_some

theorem all_concat {p : Reader β} {parts : List (ByteArray × β)} {count : Nat}
    (empty : p [] = none) (item : ∀ q ∈ parts, Reads p (raw q.1) q.2)
    (enough : (Bytes.concat (parts.map Prod.fst)).size ≤ count) :
    all p count (raw (Bytes.concat (parts.map Prod.fst))) = some (parts.map Prod.snd) := by
  rw [raw_concat]
  induction parts generalizing count with
  | nil => cases count <;> rfl
  | cons q parts ih =>
    have first := item q List.mem_cons_self
    have filled := first.size_pos empty
    rw [List.map_cons, Bytes.concat_cons, ByteArray.size_append] at enough
    rw [← length_raw] at filled
    obtain ⟨b, bs, split⟩ := List.exists_cons_of_length_pos filled
    cases count with
    | zero => rw [length_raw] at filled; omega
    | succ count =>
      have behind := ih (fun x hx => item x (List.mem_cons_of_mem _ hx))
        (by rw [length_raw] at filled; omega : _ ≤ count)
      rw [List.flatMap_cons, split, List.cons_append, all, ← List.cons_append, ← split, first]
      · simp only [behind, Option.map_eq_map, Option.map_some, List.map_cons]
      · exact List.cons_ne_nil _ _

end Reader

/-- The operands of a function are within the format, and its last instruction closes its body. -/
structure Func.Encodable (f : Func) : Prop where
  type : f.type < 2 ^ 32
  closed : Reader.closes [] f.body = true
  small : ∀ i ∈ f.body, i.operand < 2 ^ 32

structure Module.Encodable (m : Module) : Prop where
  imports : ∀ i ∈ m.imports, i.type < 2 ^ 32
  funcs : ∀ f ∈ m.funcs, f.Encodable
  memory : m.memory.min < 2 ^ 32 ∧ m.memory.max < 2 ^ 32
  exports : ∀ e ∈ m.exports, e.index < 2 ^ 32

namespace Module

/-- The sections of a module, with their bytes. -/
def parts (m : Module) : List (ByteArray × Section) :=
  [(Binary.numbered 1 (Binary.vec (m.types.map Binary.funcType)), .types m.types),
    (Binary.numbered 2 (Binary.vec (m.imports.map Binary.importEntry)), .imports m.imports),
    (Binary.numbered 3 (Binary.vec (m.funcs.map fun f => (Leb128.unsigned f.type).toByteArray)),
      .funcs (m.funcs.map (·.type))),
    (Binary.numbered 5 (Binary.vec ([m.memory].map Binary.limits)), .memories [m.memory]),
    (Binary.numbered 6 (Binary.vec (m.globals.map Binary.global)),
      .globals (m.globals.map fun g => (.i32, true, [.i32Const g.init, .close]))),
    (Binary.numbered 7 (Binary.vec (m.exports.map Binary.exportEntry)), .exports m.exports),
    (Binary.numbered 10
        (Binary.vec (m.funcs.map fun f => Binary.sized (Binary.body f.locals f.body))),
      .bodies (m.funcs.map fun f => ⟨f.locals.map (1, ·), f.body⟩)),
    (Binary.numbered 11 (Binary.vec (m.data.map Binary.dataSegment)),
      .data (m.data.map fun d => ([.i32Const d.offset, .close], raw d.bytes)))] ++
    m.customs.map fun c => (Binary.custom c, .custom c.name (raw c.content.toUTF8))

theorem encode_eq (m : Module) :
    Binary.encode m = Binary.header ++ Bytes.concat (m.parts.map Prod.fst) := by
  have customs : (m.customs.map fun c =>
      (Binary.custom c, Section.custom c.name (raw c.content.toUTF8))).map Prod.fst =
        m.customs.map Binary.custom := by
    rw [List.map_map]
    rfl
  have none : Bytes.concat [] = ByteArray.empty := rfl
  rw [parts, List.map_append, Bytes.concat_append, customs]
  simp only [Binary.encode, Binary.bodies, List.map_cons, List.map_nil, Bytes.concat_cons, none,
    ByteArray.append_empty, ByteArray.append_assoc]

theorem size_body_le {m : Module} {f : Func} (h : f ∈ m.funcs) :
    (Binary.body f.locals f.body).size ≤ (Binary.encode m).size := by
  have body := Reader.size_le_size_concat
    (fun f : Func => Binary.sized (Binary.body f.locals f.body)) h
  rw [Binary.sized, ByteArray.size_append] at body
  simp only [Binary.encode, Binary.numbered, Binary.bodies, Binary.sized, Binary.vec,
    ByteArray.size_append] at body ⊢
  omega

/-- Every section is read back. -/
theorem reads_parts {m : Module} {width : Nat} (wide : 32 ≤ width) (ok : m.Encodable)
    (fits : (Binary.encode m).size < 2 ^ width) :
    ∀ q ∈ m.parts, Reader.Reads (Reader.numbered width) (raw q.1) q.2 := by
  have bound : ∀ q ∈ m.parts, q.1.size < 2 ^ width := by
    rw [encode_eq, ByteArray.size_append] at fits
    intro q hq
    have := Reader.size_le_size_concat Prod.fst hq
    omega
  unfold parts at bound ⊢
  simp only [List.cons_append, List.nil_append, List.forall_mem_cons, List.forall_mem_map]
    at bound ⊢
  obtain ⟨b₁, b₂, b₃, b₅, b₆, b₇, b₁₀, b₁₁, bc⟩ := bound
  refine ⟨?_, ?_, ?_, ?_, ?_, ?_, ?_, ?_, fun c hc => Reader.reads_custom (bc c hc)⟩
  · have types := Reader.reads_list id b₁ rfl rfl fun t _ h => Reader.reads_funcType h
    rwa [List.map_id] at types
  · have imports := Reader.reads_list id b₂ rfl rfl fun i hi h =>
      Reader.reads_importEntry wide h (ok.imports i hi)
    rwa [List.map_id] at imports
  · refine Reader.reads_list (·.type) b₃ rfl rfl fun f hf _ => ?_
    rw [raw_toByteArray]
    exact Reader.reads_unsigned (Reader.lt_two_pow wide (ok.funcs f hf).type)
  · have memories := Reader.reads_list id b₅ rfl rfl fun l hl _ => by
      rw [List.mem_singleton.1 hl]
      exact Reader.reads_limits wide ok.memory.1 ok.memory.2
    rwa [List.map_id] at memories
  · exact Reader.reads_list _ b₆ rfl rfl fun g _ _ => Reader.reads_global wide g
  · have exports := Reader.reads_list id b₇ rfl rfl fun e he h =>
      Reader.reads_exportEntry wide h (ok.exports e he)
    rwa [List.map_id] at exports
  · refine Reader.reads_list _ b₁₀ rfl rfl fun f hf h => Reader.reads_inside h fun inner => ?_
    exact (Reader.reads_body wide inner (ok.funcs f hf).closed (ok.funcs f hf).small).eq_some
  · exact Reader.reads_list _ b₁₁ rfl rfl fun d _ h => Reader.reads_segment wide h

/-- A module is read back from its bytes. -/
theorem sections_encode {m : Module} {width : Nat} (wide : 32 ≤ width) (ok : m.Encodable)
    (fits : (Binary.encode m).size < 2 ^ width) :
    Reader.sections width (raw (Binary.encode m)) = some (m.parts.map Prod.snd) := by
  have split : raw (Binary.encode m) = [0x00, 0x61, 0x73, 0x6d, 0x01, 0x00, 0x00, 0x00] ++
      raw (Bytes.concat (m.parts.map Prod.fst)) := by
    rw [encode_eq, raw_append, Binary.header, raw_toByteArray]
  have enough : (Bytes.concat (m.parts.map Prod.fst)).size ≤ (raw (Binary.encode m)).length := by
    rw [split, List.length_append, length_raw]
    exact Nat.le_add_left _ _
  have read := Reader.all_concat rfl (reads_parts wide ok fits) enough
  rw [split] at read ⊢
  exact read

end Module

end Wasm

/-! ## Compiled expressions -/

namespace Expr

/-- The choices in the code of an expression are closed in it. -/
theorem closes_code {symbol : Name → Location} (e : Expr) (scope : List (Name × Nat)) (next : Nat)
    (opened : List Bool) (is : List Instr) :
    Reader.closes opened (e.code symbol scope next ++ is) = Reader.closes opened is := by
  induction e generalizing scope next opened is with
  | num n => simp [code, Reader.closes, Reader.nest]
  | bool b => simp [code, Reader.closes, Reader.nest]
  | var x =>
    rw [code]
    cases scope.lookup x <;> simp [Support.word, Reader.closes, Reader.nest]
  | add a b iha ihb | le a b iha ihb | pair a b iha ihb | letIn x a b iha ihb =>
    simp [code, iha, ihb, Reader.closes, Reader.nest]
  | ite a b c iha ihb ihc => simp [code, iha, ihb, ihc, Reader.closes, Reader.nest]
  | head a iha | tail a iha => simp [code, iha, Reader.closes, Reader.nest]

/-- The code of an expression has no operand but functions and declared locals. -/
theorem operand_code {symbol : Name → Location} {bound : Nat} (e : Expr)
    {scope : List (Name × Nat)} {next : Nat} (functions : Support.entry ≤ bound)
    (declared : next + e.lets ≤ bound) (inside : ∀ x i, scope.lookup x = some i → i < bound) :
    ∀ i ∈ e.code symbol scope next, i.operand < bound := by
  have called : ∀ f ≤ Support.test, (Instr.call f).operand < bound := by
    intro f hf
    exact Nat.lt_of_le_of_lt hf functions
  have positive : 0 < bound := Nat.lt_of_lt_of_le (by decide) functions
  induction e generalizing scope next with
  | num n | bool b =>
    simp only [code, List.forall_mem_cons, List.not_mem_nil, false_implies, implies_true, and_true]
    exact ⟨positive, called _ (by decide)⟩
  | var x =>
    rw [code]
    cases found : scope.lookup x with
    | some i =>
      rw [List.forall_mem_singleton]
      exact inside x i found
    | none =>
      simp only [List.forall_mem_cons, List.not_mem_nil, false_implies, implies_true, and_true]
      exact ⟨positive, positive, called _ (by decide), positive⟩
  | add a b iha ihb | le a b iha ihb | pair a b iha ihb =>
    rw [lets] at declared
    simp only [code, List.forall_mem_append, List.forall_mem_singleton]
    exact ⟨⟨iha (by omega) inside, ihb (by omega) inside⟩, called _ (by decide)⟩
  | letIn x a b iha ihb =>
    rw [lets] at declared
    simp only [code, List.forall_mem_append, List.forall_mem_singleton]
    refine ⟨⟨iha (by omega) inside, ?_⟩, ihb (by omega) fun y i found => ?_⟩
    · show next + a.lets < bound
      omega
    · rw [List.lookup_cons] at found
      split at found
      · have := Option.some.inj found
        omega
      · exact inside y i found
  | ite a b c iha ihb ihc =>
    rw [lets] at declared
    simp only [code, List.forall_mem_append, List.forall_mem_cons, List.not_mem_nil, false_implies,
      implies_true, and_true]
    exact ⟨⟨⟨⟨⟨iha (by omega) inside, called _ (by decide), positive⟩, ihb (by omega) inside⟩,
      positive⟩, ihc (by omega) inside⟩, positive⟩
  | head a iha | tail a iha =>
    simp only [code, List.forall_mem_append, List.forall_mem_singleton]
    exact ⟨iha declared inside, called _ (by decide)⟩

theorem encodable_support : ∀ f ∈ Support.funcs, f.Encodable := by
  have h : ∀ f ∈ Support.funcs, f.type < 2 ^ 32 ∧ Reader.closes [] f.body = true ∧
      ∀ i ∈ f.body, i.operand < 2 ^ 32 := by decide
  exact fun f hf => ⟨(h f hf).1, (h f hf).2.1, (h f hf).2.2⟩

/-- The module of an expression within the limits is within the format. -/
theorem encodable_program {e : Expr} (within : e.WithinLimits) : e.program.Encodable where
  imports := (by decide : ∀ i ∈ Program.imports, i.type < 2 ^ 32)
  funcs := by
    show ∀ f ∈ Support.funcs ++ [_], f.Encodable
    rw [List.forall_mem_append, List.forall_mem_singleton]
    refine ⟨encodable_support, (by decide : Support.typeMain < 2 ^ 32), ?_, ?_⟩
    · rw [mainCode, closes_code]
      rfl
    · have declared : 0 + e.lets ≤ 2 ^ 32 := by
        have := within.1
        simp only [Emitter.maxLocals] at this
        omega
      rw [List.forall_mem_append, List.forall_mem_singleton]
      exact ⟨e.operand_code (by decide) declared (fun _ _ found => by cases found), by decide⟩
  memory := ⟨Nat.lt_of_le_of_lt (initialPages_le within) (by decide),
    (by decide : Program.maxPages < 2 ^ 32)⟩
  exports := (by decide : ∀ e ∈ [(⟨Program.runName, .func, Support.entry⟩ : Export),
    ⟨Program.memoryName, .memory, 0⟩], e.index < 2 ^ 32)

/-- The bytes of a compiled expression are read to their end, in any width that their number fits
in: nine sections, with the code and the data that emission made. The bytes of the last body are
those of a body without locals in which its locals were declared. -/
theorem sections_compile {e : Expr} {m : Module} {width : Nat} (compiled : e.compile = .ok m)
    (wide : 32 ≤ width) (fits : (Binary.encode m).size < 2 ^ width) :
    ∃ t main bytes, e.emit (.new 0) = .ok () t ∧
      main = ⟨List.replicate e.lets (1, .i32), t.code.toList ++ [.close]⟩ ∧
      Binary.declare? t.locals.toList (Binary.body [] (t.code.toList ++ [.close])) = some bytes ∧
      Reader.body width (raw bytes) = some (main, []) ∧
      Support.funcs.length = 9 ∧ (UInt32.ofNat t.data.heapStart).toNat = t.data.heapStart ∧
      Reader.sections width (raw (Binary.encode m)) = some
        [.types Support.types, .imports Program.imports,
          .funcs (Support.funcs.map (·.type) ++ [Support.typeMain]),
          .memories [⟨Program.initialPages t.data, 256⟩],
          .globals [(.i32, true, [.i32Const (UInt32.ofNat t.data.heapStart), .close])],
          .exports [⟨"run", .func, Program.imports.length + Support.funcs.length⟩,
            ⟨"memory", .memory, 0⟩],
          .bodies (Support.funcs.map (fun f => ⟨f.locals.map (1, ·), f.body⟩) ++ [main]),
          .data [([.i32Const 0, .close], raw t.data.bytes)],
          .custom "pairlang" (raw "0.1.0".toUTF8)] := by
  obtain ⟨rfl, within⟩ := eq_program_of_compile compiled
  obtain ⟨t, emitted, locals, made, data⟩ := emit_new within
  have ok := encodable_program within
  have small : e.data.heapStart < 2 ^ 32 := by
    have room := e.data.heapStart_le_initial
    have pages := initialPages_le within
    simp only [Program.maxPages, pageSize] at room pages
    omega
  have last : ⟨Support.typeMain, List.replicate e.lets .i32, e.mainCode ++ [.close]⟩ ∈
      e.program.funcs := List.mem_append_right _ (List.mem_singleton_self _)
  have main := ok.funcs _ last
  refine ⟨t, _, _, emitted, rfl, Binary.declare?_body _ _, ?_, rfl, ?_, ?_⟩
  · have short := Nat.lt_of_le_of_lt (Module.size_body_le last) fits
    have read := Reader.reads_body wide short main.closed main.small
    rw [List.map_replicate] at read
    rw [locals, made]
    exact read.eq_some
  · rw [data]
    exact UInt32.toNat_ofNat_of_lt' small
  · have funcs : e.program.funcs = Support.funcs ++
        [⟨Support.typeMain, List.replicate e.lets .i32, e.mainCode ++ [.close]⟩] := rfl
    rw [Module.sections_encode wide ok fits, data, made, Module.parts, funcs]
    simp only [List.map_append, List.map_cons, List.map_nil, List.map_replicate]
    rfl

theorem sections_compile_binding :
    (letIn "x" (num ⟨0⟩) (pair (var "x") (var "y"))).compile =
        .ok (program (letIn "x" (num ⟨0⟩) (pair (var "x") (var "y")))) ∧
      (Binary.encode (program (letIn "x" (num ⟨0⟩) (pair (var "x") (var "y"))))).size < 2 ^ 32 ∧
      ∃ t sections, emit (letIn "x" (num ⟨0⟩) (pair (var "x") (var "y"))) (.new 0) = .ok () t ∧
        Reader.sections 32
          (raw (Binary.encode (program (letIn "x" (num ⟨0⟩) (pair (var "x") (var "y")))))) =
            some sections ∧
        sections.length = 9 ∧
        sections[7]? = some (.data [([.i32Const 0, .close], raw t.data.bytes)]) := by
  have compiled := compile_eq_program (e := letIn "x" (num ⟨0⟩) (pair (var "x") (var "y")))
    ⟨by decide, by decide⟩
  have fits : (Binary.encode (program (letIn "x" (num ⟨0⟩) (pair (var "x") (var "y"))))).size <
      2 ^ 32 := by decide +kernel
  obtain ⟨t, main, bytes, emitted, -, -, -, -, -, read⟩ :=
    sections_compile compiled (Nat.le_refl 32) fits
  exact ⟨compiled, fits, t, _, emitted, read, rfl, rfl⟩

end Expr

end Twofold
