import Twofold.Decimal.Layout
import Twofold.Proofs.ShortestDecimal

/-!
# Texts of numbers

A decimal is read back from its digits and their point, so the text of a number determines the
number. Only the NaNs share a text; `canonical` takes one for all of them.
-/

namespace Twofold

namespace Decimal

/-! ## Digits around a point -/

/-- The number that digits with at most one point among them write down. -/
def reading (text : List Char) : ℚ :=
  Nat.ofDigitChars 10 (text.filter (· ≠ '.')) 0 / 10 ^ (text.dropWhile (· ≠ '.')).tail.length

theorem ne_point_of_isDigit {c : Char} (h : c.isDigit) : decide (c ≠ '.') = true := by
  rw [decide_eq_true_eq]
  rintro rfl
  exact absurd h (by decide)

theorem reading_digits {digits : List Char} (h : ∀ c ∈ digits, c.isDigit) :
    reading digits = Nat.ofDigitChars 10 digits 0 := by
  have plain : ∀ c ∈ digits, decide (c ≠ '.') = true := fun c mem => ne_point_of_isDigit (h c mem)
  rw [reading, List.filter_eq_self.2 plain, List.dropWhile_eq_nil_iff.2 plain]
  simp

theorem reading_point {whole places : List Char} (h : ∀ c ∈ whole ++ places, c.isDigit) :
    reading (whole ++ '.' :: places) =
      Nat.ofDigitChars 10 (whole ++ places) 0 / 10 ^ places.length := by
  have plain : ∀ c ∈ whole ++ places, decide (c ≠ '.') = true :=
    fun c mem => ne_point_of_isDigit (h c mem)
  have kept : (whole ++ '.' :: places).filter (· ≠ '.') = whole ++ places := by
    rw [List.filter_append, List.filter_cons_of_neg (by decide), ← List.filter_append,
      List.filter_eq_self.2 plain]
  have behind : (whole ++ '.' :: places).dropWhile (· ≠ '.') = '.' :: places := by
    rw [List.dropWhile_append_of_pos fun c mem => plain c (List.mem_append_left _ mem),
      List.dropWhile_cons_of_neg (by decide)]
  rw [reading, kept, behind, List.tail_cons]

namespace Layout

variable {digits : List Char} {k : Int}

theorem fst_split_ne_nil (h : digits ≠ []) : (split digits k).1 ≠ [] := by
  dsimp only [split]
  split
  · simp [h]
  · split
    next less => simp [List.take_eq_nil_iff, h]; omega
    next => simp

theorem isDigit_of_mem_split (h : ∀ c ∈ digits, c.isDigit) :
    ∀ c ∈ (split digits k).1 ++ (split digits k).2, c.isDigit := by
  dsimp only [split]
  split
  · intro c mem
    simp only [List.append_nil, List.mem_append, List.mem_replicate] at mem
    rcases mem with mem | ⟨-, rfl⟩
    · exact h c mem
    · decide
  · split
    · rwa [List.take_append_drop]
    · intro c mem
      simp only [List.mem_append, List.mem_replicate, List.mem_singleton] at mem
      rcases mem with rfl | ⟨-, rfl⟩ | mem
      · decide
      · decide
      · exact h c mem

/-- Moving the point does not change the digits, but for zeros at the ends. -/
theorem ofDigitChars_split (digits : List Char) (k : Int) :
    (Nat.ofDigitChars 10 ((split digits k).1 ++ (split digits k).2) 0 : ℚ) =
      Nat.ofDigitChars 10 digits 0 * 10 ^ k * 10 ^ (split digits k).2.length := by
  dsimp only [split]
  split
  next whole =>
    obtain ⟨n, rfl⟩ := Int.eq_ofNat_of_zero_le whole
    simp [Nat.ofDigitChars_append, mul_comm]
  next fraction =>
    obtain ⟨n, rfl⟩ : ∃ n : Nat, k = -n := ⟨(-k).toNat, by omega⟩
    have cancel : (10 : ℚ) ^ (-(n : Int)) * 10 ^ n = 1 := by
      rw [zpow_neg, zpow_natCast, inv_mul_cancel₀ (pow_ne_zero n (by norm_num))]
    rw [neg_neg, Int.toNat_natCast]
    split
    next less =>
      have places : digits.length - (digits.length - n) = n := by omega
      rw [List.take_append_drop, List.length_drop, places, mul_assoc, cancel, mul_one]
    next short =>
      have places : n - digits.length + digits.length = n := by omega
      have zero : Nat.ofDigitChars 10 ['0'] 0 = 0 := by decide
      rw [List.length_append, List.length_replicate, places, mul_assoc, cancel, mul_one,
        Nat.ofDigitChars_append, Nat.ofDigitChars_append, zero, Nat.ofDigitChars_replicate_zero,
        Nat.mul_zero]

end Layout

/-- A text that writes a number down in digits, with a point before its places, if it has any. -/
inductive Positional (x : ℚ) : List Char → Prop
  | whole {digits : List Char} (nonempty : digits ≠ []) (all : ∀ c ∈ digits, c.isDigit)
      (value : (Nat.ofDigitChars 10 digits 0 : ℚ) = x) : Positional x digits
  | point {whole places : List Char} (nonempty : whole ≠ [])
      (all : ∀ c ∈ whole ++ places, c.isDigit)
      (value : (Nat.ofDigitChars 10 (whole ++ places) 0 : ℚ) = x * 10 ^ places.length) :
      Positional x (whole ++ '.' :: places)

namespace Positional

variable {x : ℚ} {text : List Char}

theorem reading_eq (h : Positional x text) : reading text = x := by
  cases h with
  | whole _ all value => rw [reading_digits all, value]
  | point _ all value =>
    rw [reading_point all, value]
    exact mul_div_cancel_right₀ _ (pow_ne_zero _ (by norm_num))

/-- The first character is a digit. -/
theorem exists_eq_cons (h : Positional x text) : ∃ c rest, text = c :: rest ∧ c.isDigit := by
  cases h with
  | whole nonempty all _ =>
    obtain ⟨c, rest, rfl⟩ := List.exists_cons_of_ne_nil nonempty
    exact ⟨c, rest, rfl, all c List.mem_cons_self⟩
  | point nonempty all _ =>
    obtain ⟨c, rest, rfl⟩ := List.exists_cons_of_ne_nil nonempty
    exact ⟨c, _, rfl, all c List.mem_cons_self⟩

theorem mem (h : Positional x text) {c : Char} (mem : c ∈ text) : c.isDigit ∨ c = '.' := by
  cases h with
  | whole _ all _ => exact Or.inl (all c mem)
  | point _ all _ =>
    rcases List.mem_append.1 mem with mem | mem
    · exact Or.inl (all c (List.mem_append_left _ mem))
    · rcases List.mem_cons.1 mem with rfl | mem
      · exact Or.inr rfl
      · exact Or.inl (all c (List.mem_append_right _ mem))

end Positional

theorem isDigit_digitChars (n : Nat) : ∀ c ∈ digitChars n, c.isDigit := by
  intro c mem
  exact Nat.isDigit_of_mem_toDigits (by decide) (by decide) mem

theorem ofDigitChars_digitChars (n : Nat) : Nat.ofDigitChars 10 (digitChars n) 0 = n :=
  Nat.ofDigitChars_ten_toDigits

/-- The digits of a decimal around its point write it down. -/
theorem positional_spellPositional (l : Layout) (d : Decimal) :
    Positional d.value (l.spellPositional d) := by
  have nonempty : (Layout.split (digitChars d.digits) d.exponent).1 ≠ [] :=
    Layout.fst_split_ne_nil Nat.toDigits_ne_nil
  have digits := Layout.isDigit_of_mem_split (k := d.exponent) (isDigit_digitChars d.digits)
  have moved := Layout.ofDigitChars_split (digitChars d.digits) d.exponent
  rw [ofDigitChars_digitChars] at moved
  unfold Layout.spellPositional
  generalize Layout.split (digitChars d.digits) d.exponent = parts at nonempty digits moved
  obtain ⟨whole, places⟩ := parts
  cases places with
  | nil =>
    rw [List.append_nil] at digits moved
    rw [List.length_nil, pow_zero, mul_one] at moved
    cases l.fraction with
    | false => exact .whole nonempty digits moved
    | true =>
      -- The fraction adds a zero to the digits, and a place.
      refine .point nonempty ?_ ?_
      · intro c mem
        rcases List.mem_append.1 mem with mem | mem
        · exact digits c mem
        · rw [List.mem_singleton.1 mem]
          rfl
      · have zero : Nat.ofDigitChars 10 ['0'] (Nat.ofDigitChars 10 whole 0) =
            10 * Nat.ofDigitChars 10 whole 0 := by simp [Nat.ofDigitChars]
        rw [Nat.ofDigitChars_append, zero, Nat.cast_mul, moved, value, List.length_singleton,
          pow_one, mul_comm, Nat.cast_ofNat]
  | cons place places => exact .point nonempty digits moved

end Decimal

namespace Number

open Decimal Layout

/-! ## Finite numbers -/

theorem positional_spell (d : Decimal) : Positional d.value (plain.spell d) :=
  positional_spellPositional plain d

/-! ## All numbers -/

/-- The sign bit and the magnitude are all there is to a number. -/
theorem eq_of_magnitude_eq {m n : Number} (sign : m.isNegative = n.isNegative)
    (size : m.magnitude = n.magnitude) : m = n := by
  have bound := m.bits.toNat_lt
  have bound' := n.bits.toNat_lt
  have top : 1 <<< 63 = 2 ^ 63 := rfl
  simp only [isNegative, magnitude, decide_eq_decide, top] at sign size
  have same : m.bits.toNat = n.bits.toNat := by omega
  obtain ⟨bits⟩ := m
  obtain ⟨bits'⟩ := n
  exact congrArg Number.mk (UInt64.toNat_inj.1 same)

/-- The NaN that arithmetic produces. -/
def nan : Number := ⟨0x7ff8000000000000⟩

/-- A number, any NaN being replaced by that of arithmetic. -/
def canonical (n : Number) : Number := if n.isNaN then nan else n

/-- The text of a number behind its sign. -/
def unsigned (n : Number) : List Char :=
  if n.isFinite then plain.spell (shortest plain.tie n.magnitude) else ['i', 'n', 'f']

theorem toList_text (n : Number) :
    n.text.toList = if n.isNaN then ['N', 'a', 'N']
      else (if n.isNegative then ['-'] else []) ++ n.unsigned := by
  rw [text, Number.spell]
  split
  · rfl
  · rw [String.toList_ofList]
    rfl

theorem unsigned_ne_nil (n : Number) : n.unsigned ≠ [] := by
  unfold unsigned
  split
  · obtain ⟨c, rest, text, -⟩ := (positional_spell (shortest plain.tie n.magnitude)).exists_eq_cons
    simp [text]
  · simp

theorem mem_unsigned {n : Number} {c : Char} (h : c ∈ n.unsigned) :
    c.isDigit ∨ c ∈ ['.', 'i', 'n', 'f'] := by
  unfold unsigned at h
  split at h
  · rcases (positional_spell _).mem h with digit | rfl
    · exact Or.inl digit
    · exact Or.inr (by decide)
  · exact Or.inr (List.mem_cons_of_mem _ h)

theorem mem_text_of_not_isNaN {n : Number} (h : n.isNaN = false) {c : Char}
    (mem : c ∈ n.text.toList) : c.isDigit ∨ c ∈ ['-', '.', 'i', 'n', 'f'] := by
  rw [toList_text, h, if_neg Bool.false_ne_true] at mem
  rcases List.mem_append.1 mem with sign | mem
  · split at sign
    · rw [List.mem_singleton.1 sign]
      exact Or.inr (by decide)
    · exact absurd sign List.not_mem_nil
  · exact (mem_unsigned mem).imp_right (List.mem_cons_of_mem _)

/-- The characters of numbers. -/
theorem mem_text {n : Number} {c : Char} (h : c ∈ n.text.toList) :
    c.isDigit ∨ c ∈ ['N', 'a', '-', '.', 'i', 'n', 'f'] := by
  cases nan : n.isNaN with
  | true =>
    rw [toList_text, if_pos nan] at h
    refine Or.inr ?_
    simp only [List.mem_cons] at h ⊢
    tauto
  | false =>
    exact (mem_text_of_not_isNaN nan h).imp_right fun letter =>
      List.mem_cons_of_mem _ (List.mem_cons_of_mem _ letter)

theorem text_ne_nil (n : Number) : n.text.toList ≠ [] := by
  rw [toList_text]
  split
  · simp
  · exact List.append_ne_nil_of_right_ne_nil _ n.unsigned_ne_nil

/-- The letters of `inf` tell the infinities from finite numbers. -/
theorem mem_unsigned_iff (n : Number) : 'i' ∈ n.unsigned ↔ n.isFinite = false := by
  unfold unsigned
  cases n.isFinite with
  | false => simp
  | true =>
    have absent : 'i' ∉ plain.spell (shortest plain.tie n.magnitude) :=
      fun mem => absurd ((positional_spell _).mem mem) (by decide)
    simp [absent]

/-- The text behind the sign determines the magnitude, except that of a NaN. -/
theorem magnitude_eq_of_unsigned_eq {m n : Number} (hm : m.isNaN = false) (hn : n.isNaN = false)
    (h : m.unsigned = n.unsigned) : m.magnitude = n.magnitude := by
  have alike : m.isFinite = false ↔ n.isFinite = false := by
    rw [← mem_unsigned_iff, ← mem_unsigned_iff, h]
  by_cases infinite : m.isFinite = false
  · have infinite' := alike.1 infinite
    simp only [isFinite, isNaN, decide_eq_false_iff_not] at infinite infinite' hm hn
    omega
  · have finite : m.isFinite = true := Bool.eq_true_of_not_eq_false infinite
    have finite' : n.isFinite = true := Bool.eq_true_of_not_eq_false (mt alike.2 infinite)
    rw [unsigned, unsigned, if_pos finite, if_pos finite'] at h
    have values := congrArg reading h
    rw [(positional_spell _).reading_eq, (positional_spell _).reading_eq] at values
    exact eq_of_value_shortest_eq values

theorem mem_text_of_isNaN {n : Number} : 'N' ∈ n.text.toList ↔ n.isNaN = true := by
  have absent : 'N' ∉ n.unsigned := fun mem => absurd (mem_unsigned mem) (by decide)
  rw [toList_text]
  cases n.isNaN with
  | true => simp
  | false => cases n.isNegative <;> simp [absent]

theorem mem_text_of_isNegative {n : Number} (h : n.isNaN = false) :
    '-' ∈ n.text.toList ↔ n.isNegative = true := by
  have absent : '-' ∉ n.unsigned := fun mem => absurd (mem_unsigned mem) (by decide)
  rw [toList_text, h]
  cases n.isNegative <;> simp [absent]

/-- The text of a number determines the number, up to the pattern of a NaN. -/
theorem canonical_eq_of_text_eq {m n : Number} (h : m.text = n.text) :
    m.canonical = n.canonical := by
  have alike : m.isNaN = n.isNaN := by
    rw [Bool.eq_iff_iff, ← mem_text_of_isNaN, ← mem_text_of_isNaN, h]
  unfold canonical
  cases nan : n.isNaN with
  | true => rw [alike, nan, if_pos rfl, if_pos rfl]
  | false =>
    rw [nan] at alike
    have signs : m.isNegative = n.isNegative := by
      rw [Bool.eq_iff_iff, ← mem_text_of_isNegative alike, ← mem_text_of_isNegative nan, h]
    have lists := congrArg String.toList h
    rw [toList_text, toList_text, alike, nan, signs] at lists
    have sizes := magnitude_eq_of_unsigned_eq alike nan (List.append_cancel_left lists)
    rw [alike]
    exact eq_of_magnitude_eq signs sizes

end Number

end Twofold
