import Twofold.Proofs.Bytes
import Twofold.Proofs.Symbols

/-!
# Texts in the static data

The static data is as long as its size says, and the stretch at the location of a text holds that
text: the message for a test at `testMessage`, the symbol of a name at the location of the name.
A memory that begins with the static data gives them back.
-/

namespace Twofold

open Heap

namespace Bytes

theorem concat_cons (m : ByteArray) (ms : List ByteArray) : concat (m :: ms) = m ++ concat ms := by
  have after (start : ByteArray) (ms : List ByteArray) :
      ms.foldl (· ++ ·) start = start ++ concat ms := by
    induction ms generalizing start with
    | nil => simp [concat]
    | cons m ms ih =>
      have first : concat (m :: ms) = m ++ concat ms := by
        rw [concat, List.foldl_cons, ih, ByteArray.empty_append]
      rw [List.foldl_cons, ih, first, ByteArray.append_assoc]
  rw [concat, List.foldl_cons, after, ByteArray.empty_append]

theorem concat_append (ms ms' : List ByteArray) : concat (ms ++ ms') = concat ms ++ concat ms' := by
  induction ms with
  | nil => simp [concat]
  | cons m ms ih => rw [List.cons_append, concat_cons, concat_cons, ih, ByteArray.append_assoc]

end Bytes

namespace StaticData

theorem size_symbol (x : Name) : (symbol x).toUTF8.size = symbolSize x := by
  rw [symbol, symbolSize, String.toUTF8_eq_toByteArray, String.size_toByteArray,
    String.utf8ByteSize_append]

/-- The static data is as long as its size says. -/
theorem size_bytes (d : StaticData) : d.bytes.size = d.size := by
  have symbols (xs : List Name) :
      (Bytes.concat (xs.map fun x => (symbol x).toUTF8)).size = (xs.map symbolSize).sum := by
    induction xs with
    | nil => rfl
    | cons x xs ih =>
      rw [List.map_cons, Bytes.concat_cons, ByteArray.size_append, ih, size_symbol, List.map_cons,
        List.sum_cons]
  rw [bytes, Bytes.concat_cons, ByteArray.size_append, symbols, size_eq]
  rfl

theorem size_le_heapStart (d : StaticData) : d.size ≤ d.heapStart := by
  rw [heapStart]
  simp only [Cell.align]
  omega

theorem heapStart_pos (d : StaticData) : 0 < d.heapStart := by
  refine Nat.lt_of_lt_of_le ?_ d.size_le_heapStart
  rw [size]
  exact Nat.lt_of_lt_of_le (by decide) (Nat.le_add_right _ _)

theorem bytes_append (xs ys : List Name) :
    (StaticData.mk (xs ++ ys)).bytes =
      (StaticData.mk xs).bytes ++ Bytes.concat (ys.map fun x => (symbol x).toUTF8) := by
  rw [bytes, bytes, List.map_append, ← List.cons_append, Bytes.concat_append]

/-- The symbol of a name stands at the location of the name. -/
theorem extract_location {d : StaticData} {x : Name} (h : x ∈ d.symbols) :
    d.bytes.extract (d.location x).ptr ((d.location x).ptr + (d.location x).len) =
        (symbol x).toUTF8 ∧
      (d.location x).ptr + (d.location x).len ≤ d.bytes.size := by
  obtain ⟨ys, zs, hd, found⟩ := find?_of_mem h
  have place : d.location x = ⟨(StaticData.mk ys).size, symbolSize x⟩ := by
    rw [find?_eq_location h] at found
    exact Option.some.inj found
  have parts : d.bytes = (StaticData.mk ys).bytes ++ ((symbol x).toUTF8 ++
      Bytes.concat (zs.map fun x => (symbol x).toUTF8)) := by
    rw [← Bytes.concat_cons, ← List.map_cons (f := fun x => (symbol x).toUTF8), ← bytes_append,
      ← hd]
  constructor
  · have before : (StaticData.mk ys).bytes.extract (StaticData.mk ys).size
        ((StaticData.mk ys).size + symbolSize x) = .empty :=
      ByteArray.extract_eq_empty_iff.2 (by rw [size_bytes]; omega)
    rw [place, parts, ByteArray.extract_append, size_bytes, before, ByteArray.empty_append,
      Nat.sub_self, Nat.add_sub_cancel_left, ← size_symbol, ByteArray.extract_append_eq_left rfl]
  · rw [place, parts, ByteArray.size_append, ByteArray.size_append, size_bytes, size_symbol]
    simp only
    omega

theorem extract_testMessage (d : StaticData) :
    d.bytes.extract testMessage.ptr (testMessage.ptr + testMessage.len) =
        Wording.nonBooleanTest.toUTF8 ∧
      testMessage.ptr + testMessage.len ≤ d.bytes.size := by
  have length : testMessage.len = Wording.nonBooleanTest.toUTF8.size := rfl
  constructor
  · rw [bytes, Bytes.concat_cons, length]
    simp only [testMessage, Nat.zero_add]
    exact ByteArray.extract_append_eq_left rfl
  · rw [size_bytes, size, testMessage]
    simp only
    omega

end StaticData

/-! ## Reading them back -/

theorem fromUTF8?_toUTF8 (s : String) : String.fromUTF8? s.toUTF8 = some s := by
  simp only [String.fromUTF8?, String.toUTF8_eq_toByteArray, dif_pos s.isValidUTF8]
  rfl

/-- A text is read from the stretch of memory that holds it. -/
theorem readString_eq {m : ByteArray} {loc : Location} {s : String}
    (hs : m.extract loc.ptr (loc.ptr + loc.len) = s.toUTF8) (hm : loc.ptr + loc.len ≤ m.size)
    (hn : loc.ptr + loc.len < 2 ^ 32) :
    readString m (UInt32.ofNat loc.ptr) (UInt32.ofNat loc.len) = .ok s := by
  have ptr : (UInt32.ofNat loc.ptr).toNat = loc.ptr :=
    UInt32.toNat_ofNat_of_lt' (by simp only [UInt32.size]; omega)
  have len : (UInt32.ofNat loc.len).toNat = loc.len :=
    UInt32.toNat_ofNat_of_lt' (by simp only [UInt32.size]; omega)
  simp only [readString, ptr, len, if_neg (Nat.not_lt.2 hm), hs, fromUTF8?_toUTF8]

theorem dropStart?_append (start s : String) : dropStart? start (start ++ s) = some s := by
  have whole : (start ++ s).toUTF8 = start.toUTF8 ++ s.toUTF8 := String.toByteArray_append
  have front : (start ++ s).toUTF8.extract 0 start.utf8ByteSize = start.toUTF8 := by
    rw [whole]
    exact ByteArray.extract_append_eq_left rfl
  have back : (start ++ s).toUTF8.extract start.utf8ByteSize (start ++ s).utf8ByteSize =
      s.toUTF8 := by
    rw [whole]
    exact ByteArray.extract_append_eq_right rfl String.utf8ByteSize_append
  have same : (start.toUTF8 == start.toUTF8) = true := beq_self_eq_true start.toUTF8.data
  rw [dropStart?, front, if_pos same, back, fromUTF8?_toUTF8]

/-- A memory that begins with the static data. -/
abbrev StaticData.Below (d : StaticData) (m : ByteArray) : Prop :=
  Bytes.Keeps d.bytes.size d.bytes m

theorem StaticData.below_append (d : StaticData) (m : ByteArray) : d.Below (d.bytes ++ m) where
  size_le := by rw [ByteArray.size_append]; omega
  get_eq _ ha := Bytes.get_append_left ha

/-- The name is read from the location of its symbol. -/
theorem readSymbol_location {d : StaticData} {m : ByteArray} {x : Name} (h : x ∈ d.symbols)
    (hm : d.Below m) (hn : d.bytes.size < 2 ^ 32) :
    readSymbol m (UInt32.ofNat (d.location x).ptr) (UInt32.ofNat (d.location x).len) = .ok x := by
  obtain ⟨text, inside⟩ := StaticData.extract_location h
  rw [← hm.extract_eq inside (Nat.le_refl _)] at text
  have read := readString_eq text (Nat.le_trans inside hm.size_le) (Nat.lt_of_le_of_lt inside hn)
  simp only [readSymbol, read, bind, Except.bind, StaticData.symbol, dropStart?_append]
  rfl

/-- The message for a test is read from its location. -/
theorem readString_testMessage {d : StaticData} {m : ByteArray} (hm : d.Below m)
    (hn : d.bytes.size < 2 ^ 32) :
    readString m (UInt32.ofNat StaticData.testMessage.ptr)
      (UInt32.ofNat StaticData.testMessage.len) = .ok Wording.nonBooleanTest := by
  obtain ⟨text, inside⟩ := d.extract_testMessage
  rw [← hm.extract_eq inside (Nat.le_refl _)] at text
  exact readString_eq text (Nat.le_trans inside hm.size_le) (Nat.lt_of_le_of_lt inside hn)

end Twofold
