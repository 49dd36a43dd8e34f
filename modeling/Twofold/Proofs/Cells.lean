import Twofold.Proofs.Bytes

/-!
# Cells and values

The cells of a compiled expression stand side by side behind its static data and are numbered from
the first one on. A cell represents a value if its tag and content say so and if, for a pair, both
words of its content are addresses of earlier cells that represent the components. What a cell
represents is what is read from its address, and bytes behind the cell do not matter for it.
-/

namespace Twofold.Cell

open Heap

/-- The address of the cell with number `i`, if the first one stands at `base`. -/
def address (base i : Nat) : Nat := base + size * i

theorem address_succ (base i : Nat) : address base (i + 1) = address base i + size := by
  rw [address, address, Nat.mul_succ, Nat.add_assoc]

theorem address_le (base : Nat) {i j : Nat} (h : i ≤ j) : address base i ≤ address base j :=
  Nat.add_le_add_left (Nat.mul_le_mul_left size h) base

theorem address_lt (base : Nat) {i j : Nat} (h : i < j) :
    address base i + size ≤ address base j := by
  rw [← address_succ]
  exact address_le base h

theorem base_le_address (base i : Nat) : base ≤ address base i := Nat.le_add_right _ _

/-- Addresses inside a memory are not cut off in a word. -/
theorem toNat_address {base i n : Nat} (h : address base i + size ≤ n) (hn : n ≤ 2 ^ 32) :
    (UInt32.ofNat (address base i)).toNat = address base i := by
  simp only [size] at h
  exact UInt32.toNat_ofNat_of_lt' (by simp only [UInt32.size]; omega)

/-- The cell with number `i` represents a value. -/
inductive Stored (m : ByteArray) (base : Nat) : (i : Nat) → Value → Prop
  | num {i : Nat} {n : Number} (tag : word m (address base i) = number)
      (content : Heap.number m (address base i + first) = n) : Stored m base i (.num n)
  | bool {i : Nat} {b : Bool} (tag : word m (address base i) = boolean)
      (content : word m (address base i + first) = if b then 1 else 0) : Stored m base i (.bool b)
  | pair {i j k : Nat} {a b : Value} (tag : word m (address base i) = Cell.pair) (hj : j < i)
      (hk : k < i) (left : word m (address base i + first) = UInt32.ofNat (address base j))
      (right : word m (address base i + second) = UInt32.ofNat (address base k))
      (ha : Stored m base j a) (hb : Stored m base k b) : Stored m base i (.pair a b)

namespace Stored

variable {m m' : ByteArray} {base i : Nat} {v : Value}

/-- A cell goes on representing its value while the bytes up to its end stay. -/
theorem keeps {n : Nat} (h : Stored m base i v) (hn : address base (i + 1) ≤ n)
    (hm : Bytes.Keeps n m m') : Stored m' base i v := by
  induction h with
  | @num i n tag content =>
    rw [address_succ] at hn
    simp only [size] at hn
    refine num ?_ ?_
    · rw [hm.word_eq (by omega), tag]
    · rw [hm.number_eq (by simp only [first]; omega), content]
  | @bool i b tag content =>
    rw [address_succ] at hn
    simp only [size] at hn
    refine bool ?_ ?_
    · rw [hm.word_eq (by omega), tag]
    · rw [hm.word_eq (by simp only [first]; omega), content]
  | @pair i j k a b tag hj hk left right _ _ iha ihb =>
    have below (l : Nat) (hl : l < i) : address base (l + 1) ≤ n :=
      Nat.le_trans (address_le base (by omega)) hn
    have ha := iha (below j hj)
    have hb := ihb (below k hk)
    rw [address_succ] at hn
    simp only [size] at hn
    refine pair ?_ hj hk ?_ ?_ ha hb
    · rw [hm.word_eq (by omega), tag]
    · rw [hm.word_eq (by simp only [first]; omega), left]
    · rw [hm.word_eq (by simp only [second]; omega), right]

/-- The value that a cell represents is read from its address. -/
theorem readValue_eq (h : Stored m base i v) (hm : address base (i + 1) ≤ m.size)
    (hs : m.size ≤ 2 ^ 32) : readValue m (UInt32.ofNat (address base i)) = .ok v := by
  induction h with
  | @num i n tag content =>
    rw [address_succ] at hm
    have at_cell := toNat_address hm hs
    rw [readValue, at_cell, if_neg (Nat.not_lt.2 hm)]
    simp only [tag, content, if_true]
  | @bool i b tag content =>
    rw [address_succ] at hm
    have at_cell := toNat_address hm hs
    rw [readValue, at_cell, if_neg (Nat.not_lt.2 hm)]
    cases b <;> simp [tag, content, boolean, number]
  | @pair i j k a b tag hj hk left right _ _ iha ihb =>
    have below (l : Nat) (hl : l < i) : address base (l + 1) ≤ m.size :=
      Nat.le_trans (address_le base (by omega)) hm
    have before_left := address_lt base hj
    have before_right := address_lt base hk
    have positive : 0 < size := by decide
    rw [address_succ] at hm
    have at_cell := toNat_address hm hs
    have at_left : (UInt32.ofNat (address base j)).toNat = address base j :=
      toNat_address before_left (by omega)
    have at_right : (UInt32.ofNat (address base k)).toNat = address base k :=
      toNat_address before_right (by omega)
    have left_lt : address base j < address base i := by omega
    have right_lt : address base k < address base i := by omega
    rw [readValue, at_cell, if_neg (Nat.not_lt.2 hm)]
    simp only [tag, left, right, at_left, at_right, left_lt, right_lt, if_true,
      iha (below j hj), ihb (below k hk)]
    rfl

end Stored

end Twofold.Cell
