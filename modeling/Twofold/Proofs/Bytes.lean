import Mathlib
import Twofold.Reference.Heap
import Twofold.Wasm.Memory

/-!
# Reading what was written

A write changes the bytes it covers and no others, so a number is read back from where it was
stored, and everything below a store is as before. `Keeps n m m'` says that `m'` is a later state of
`m` in which the first `n` bytes have not changed.
-/

namespace Twofold

namespace Bytes

/-! ## Single bytes -/

theorem get_eq (m : ByteArray) (a : Nat) : get m a = m.data[a]?.getD 0 := by
  unfold get
  split
  · next h =>
    have inside : a < m.data.size := h
    rw [Array.getElem?_eq_getElem inside]
    rfl
  · next h =>
    have outside : m.data.size ≤ a := Nat.le_of_not_lt h
    rw [Array.getElem?_eq_none outside]
    rfl

theorem data_set (m : ByteArray) (a : Nat) (b : UInt8) :
    (set m a b).data = m.data.setIfInBounds a b := by
  unfold set
  split
  · next h =>
    have inside : a < m.data.size := h
    rw [Array.setIfInBounds_def, dif_pos inside]
    rfl
  · next h =>
    have outside : ¬ a < m.data.size := h
    rw [Array.setIfInBounds_def, dif_neg outside]

@[simp] theorem size_set (m : ByteArray) (a : Nat) (b : UInt8) : (set m a b).size = m.size := by
  show (set m a b).data.size = m.data.size
  rw [data_set, Array.size_setIfInBounds]

theorem get_set_self (m : ByteArray) {a : Nat} (b : UInt8) (h : a < m.size) :
    get (set m a b) a = b := by
  have inside : a < m.data.size := h
  rw [get_eq, data_set, Array.getElem?_setIfInBounds_self_of_lt inside]
  rfl

theorem get_set_ne (m : ByteArray) {a i : Nat} (b : UInt8) (h : i ≠ a) :
    get (set m a b) i = get m i := by
  rw [get_eq, get_eq, data_set, Array.getElem?_setIfInBounds_ne (Ne.symm h)]

theorem get_append_left {m m' : ByteArray} {a : Nat} (h : a < m.size) :
    get (m ++ m') a = get m a := by
  have inside : a < m.data.size := h
  rw [get_eq, get_eq, ByteArray.data_append, Array.getElem?_append_left inside]

/-! ## Stretches -/

theorem slice_congr {m m' : ByteArray} {a count : Nat}
    (h : ∀ i, a ≤ i → i < a + count → get m i = get m' i) : slice m a count = slice m' a count := by
  induction count generalizing a with
  | zero => rfl
  | succ count ih =>
    rw [slice, slice, h a (Nat.le_refl a) (by omega),
      ih fun i lower upper => h i (by omega) (by omega)]

theorem length_slice (m : ByteArray) (a count : Nat) : (slice m a count).length = count := by
  induction count generalizing a with
  | zero => rfl
  | succ count ih => rw [slice, List.length_cons, ih]

@[simp] theorem size_write (m : ByteArray) (a : Nat) (bs : List UInt8) :
    (write m a bs).size = m.size := by
  induction bs generalizing m a with
  | nil => rfl
  | cons b bs ih => rw [write, ih, size_set]

theorem get_write_of_lt (m : ByteArray) {a i : Nat} (bs : List UInt8) (h : i < a) :
    get (write m a bs) i = get m i := by
  induction bs generalizing m a with
  | nil => rfl
  | cons b bs ih => rw [write, ih _ (by omega), get_set_ne _ _ (by omega)]

/-- What was written is read back. -/
theorem slice_write_self (m : ByteArray) {a : Nat} (bs : List UInt8)
    (h : a + bs.length ≤ m.size) : slice (write m a bs) a bs.length = bs := by
  induction bs generalizing m a with
  | nil => rfl
  | cons b bs ih =>
    rw [List.length_cons] at h
    rw [List.length_cons, write, slice, get_write_of_lt _ _ (by omega),
      get_set_self m b (by omega), ih _ (by rw [size_set]; omega)]

/-! ## Numbers -/

@[simp] theorem length_ofNat (count n : Nat) : (ofNat count n).length = count := by
  induction count generalizing n with
  | zero => rfl
  | succ count ih => rw [ofNat, List.length_cons, ih]

theorem toNat_ofNat (count n : Nat) : toNat (ofNat count n) = n % 256 ^ count := by
  induction count generalizing n with
  | zero => rw [ofNat, toNat, Nat.pow_zero, Nat.mod_one]
  | succ count ih =>
    have byte : (UInt8.ofNat n).toNat = n % 256 := UInt8.toNat_ofNat'
    have power : 256 ^ (count + 1) = 256 * 256 ^ count := Nat.pow_succ'
    rw [ofNat, toNat, ih, byte, power, Nat.mod_mul]

theorem toNat_lt (bs : List UInt8) : toNat bs < 256 ^ bs.length := by
  induction bs with
  | nil => exact Nat.one_pos
  | cons b bs ih =>
    have byte : b.toNat < 256 := b.toNat_lt
    rw [toNat, List.length_cons, Nat.pow_succ]
    omega

/-- Bytes are those of their number. -/
theorem ofNat_toNat (bs : List UInt8) : ofNat bs.length (toNat bs) = bs := by
  induction bs with
  | nil => rfl
  | cons b bs ih =>
    have byte : b.toNat < 256 := b.toNat_lt
    have low : UInt8.ofNat (b.toNat + 256 * toNat bs) = b := by
      rw [UInt8.ofNat_eq_iff_mod_eq_toNat]
      omega
    have high : (b.toNat + 256 * toNat bs) / 256 = toNat bs := by omega
    rw [List.length_cons, toNat, ofNat, low, high, ih]

/-- A stretch of memory holds the bytes of a number. -/
theorem slice_eq_ofNat_iff {m : ByteArray} {a count n : Nat} (h : n < 256 ^ count) :
    slice m a count = ofNat count n ↔ toNat (slice m a count) = n := by
  constructor
  · intro holds
    rw [holds, toNat_ofNat, Nat.mod_eq_of_lt h]
  · intro value
    have bytes := ofNat_toNat (slice m a count)
    rw [length_slice, value] at bytes
    exact bytes.symm

theorem toNat_slice_write_self (m : ByteArray) {a count : Nat} (n : Nat)
    (h : a + count ≤ m.size) (hn : n < 256 ^ count) :
    toNat (slice (write m a (ofNat count n)) a count) = n := by
  have read := slice_write_self m (ofNat count n) (by rwa [length_ofNat])
  rw [length_ofNat] at read
  rw [read, toNat_ofNat, Nat.mod_eq_of_lt hn]

/-! ## Fresh memories -/

@[simp] theorem size_zeros (n : Nat) : (zeros n).size = n := by
  fun_induction zeros n with
  | case1 => rfl
  | case2 n _ half even ih => rw [ByteArray.size_append, ih]; omega
  | case3 n _ half odd ih => rw [ByteArray.size_push, ByteArray.size_append, ih]; omega

theorem overlay_zero {m d : ByteArray} :
    overlay m 0 d = d ++ m.extract d.size m.size := by
  rw [overlay, Nat.zero_add, ByteArray.extract_same, ByteArray.empty_append]

/-! ## Memories that keep their beginning -/

/-- The first `n` bytes of `m` are those of `m'`, which has no fewer bytes. -/
structure Keeps (n : Nat) (m m' : ByteArray) : Prop where
  size_le : m.size ≤ m'.size
  get_eq : ∀ a < n, get m' a = get m a

namespace Keeps

variable {n : Nat} {m m' m'' : ByteArray}

theorem refl (n : Nat) (m : ByteArray) : Keeps n m m := ⟨Nat.le_refl _, fun _ _ => rfl⟩

theorem trans (h : Keeps n m m') (h' : Keeps n m' m'') : Keeps n m m'' where
  size_le := Nat.le_trans h.size_le h'.size_le
  get_eq a ha := (h'.get_eq a ha).trans (h.get_eq a ha)

theorem mono {k : Nat} (h : Keeps n m m') (hk : k ≤ n) : Keeps k m m' where
  size_le := h.size_le
  get_eq a ha := h.get_eq a (Nat.lt_of_lt_of_le ha hk)

theorem slice_eq {a count : Nat} (h : Keeps n m m') (ha : a + count ≤ n) :
    slice m' a count = slice m a count :=
  slice_congr fun i _ hi => h.get_eq i (by omega)

theorem word_eq {a : Nat} (h : Keeps n m m') (ha : a + 4 ≤ n) : Heap.word m' a = Heap.word m a := by
  rw [Heap.word, Heap.word, h.slice_eq ha]

theorem number_eq {a : Nat} (h : Keeps n m m') (ha : a + 8 ≤ n) :
    Heap.number m' a = Heap.number m a := by
  rw [Heap.number, Heap.number, h.slice_eq ha]

theorem extract_eq {a b : Nat} (h : Keeps n m m') (hb : b ≤ n) (hn : n ≤ m.size) :
    m'.extract a b = m.extract a b := by
  have larger := h.size_le
  apply ByteArray.ext_getElem
  · rw [ByteArray.size_extract, ByteArray.size_extract]
    omega
  · intro i hi hi'
    rw [ByteArray.size_extract] at hi hi'
    rw [ByteArray.getElem_extract, ByteArray.getElem_extract]
    have same := h.get_eq (a + i) (by omega)
    rwa [get, get, dif_pos (by omega), dif_pos (by omega)] at same

end Keeps

end Bytes

namespace Wasm.Memory

open Bytes

theorem keeps_store (m : Memory) {n a count value : Nat} (h : n ≤ a) :
    Keeps n m.bytes (m.store a count value).bytes where
  size_le := Nat.le_of_eq (size_write _ _ _).symm
  get_eq i hi := get_write_of_lt _ _ (by omega)

theorem keeps_grow (m : Memory) (n count : Nat) (h : n ≤ m.bytes.size) :
    Keeps n m.bytes (m.grow count).bytes where
  size_le := by rw [grow, ByteArray.size_append]; omega
  get_eq i hi := get_append_left (by omega)

@[simp] theorem size_store (m : Memory) (a count value : Nat) :
    (m.store a count value).bytes.size = m.bytes.size := by
  rw [store, size_write]

@[simp] theorem size_grow (m : Memory) (count : Nat) :
    (m.grow count).bytes.size = m.bytes.size + count * pageSize := by
  rw [grow, ByteArray.size_append, size_zeros]

/-- A word is read back from where it was stored. -/
theorem word_store_self (m : Memory) {a : Nat} (w : UInt32) (h : a + 4 ≤ m.bytes.size) :
    Heap.word (m.store a 4 w.toNat).bytes a = w := by
  rw [Heap.word, store, toNat_slice_write_self m.bytes w.toNat h w.toNat_lt, UInt32.ofNat_toNat]

/-- A number is read back from where it was stored. -/
theorem number_store_self (m : Memory) {a : Nat} (x : Number) (h : a + 8 ≤ m.bytes.size) :
    Heap.number (m.store a 8 x.bits.toNat).bytes a = x := by
  rw [Heap.number, store, toNat_slice_write_self m.bytes x.bits.toNat h x.bits.toNat_lt,
    UInt64.ofNat_toNat]

/-- A store leaves a word alone that lies below it. -/
theorem word_store_of_le (m : Memory) {a b count value : Nat} (h : b + 4 ≤ a) :
    Heap.word (m.store a count value).bytes b = Heap.word m.bytes b :=
  (m.keeps_store (Nat.le_refl a)).word_eq h

end Wasm.Memory

end Twofold
