import Twofold.Proofs.NumberText

/-!
# Layouts of numbers

In whatever layout a finite number is spelled, its decimal is read back from the digits and the
power of ten behind them, and its sign stands in front. So no layout spells two finite numbers
alike.
-/

namespace Twofold

namespace Decimal

/-! ## Powers of ten -/

/-- The power of ten at the end of a text; `0` if none is written. -/
def power : List Char → Int
  | 'e' :: '-' :: digits => -Nat.ofDigitChars 10 digits 0
  | 'e' :: _ :: digits => Nat.ofDigitChars 10 digits 0
  | _ => 0

/-- The number that digits with at most one point among them and a power of ten write down. -/
def scaledReading (text : List Char) : ℚ :=
  reading (text.takeWhile (· ≠ 'e')) * 10 ^ power (text.dropWhile (· ≠ 'e'))

/-- The digits of a decimal, with a point behind the first one if there are more. -/
def mantissa (d : Decimal) : List Char :=
  match digitChars d.digits with
  | first :: second :: rest => first :: '.' :: second :: rest
  | short => short

theorem spellScientific_eq (d : Decimal) (leading : Int) :
    Layout.spellScientific d leading =
      d.mantissa ++ 'e' :: (if leading < 0 then '-' else '+') :: digitChars leading.natAbs := rfl

theorem power_eq (leading : Int) :
    power ('e' :: (if leading < 0 then '-' else '+') :: digitChars leading.natAbs) = leading := by
  split
  next negative =>
    rw [power, ofDigitChars_digitChars]
    omega
  next =>
    change (Nat.ofDigitChars 10 (digitChars leading.natAbs) 0 : Int) = leading
    rw [ofDigitChars_digitChars]
    omega

/-- Behind its first digit, a decimal is divided by as many tens as it has further digits. -/
theorem positional_mantissa (d : Decimal) :
    Positional (d.value * 10 ^ (-(d.exponent + (digitChars d.digits).length - 1))) d.mantissa := by
  have nonempty : digitChars d.digits ≠ [] := Nat.toDigits_ne_nil
  have all := isDigit_digitChars d.digits
  have parsed := ofDigitChars_digitChars d.digits
  have tens : d.value * 10 ^ (-(d.exponent + (digitChars d.digits).length - 1)) *
      10 ^ ((digitChars d.digits).length - 1) = d.digits := by
    have power : d.exponent + (-(d.exponent + (digitChars d.digits).length - 1) +
        ((digitChars d.digits).length - 1 : Nat)) = 0 := by
      have := List.length_pos_of_ne_nil nonempty
      omega
    rw [value, mul_assoc, mul_assoc, ← zpow_natCast, ← zpow_add₀ (by norm_num),
      ← zpow_add₀ (by norm_num), power, zpow_zero, mul_one]
  unfold mantissa
  generalize digitChars d.digits = digits at nonempty all parsed tens
  obtain ⟨first, rest, rfl⟩ := List.exists_cons_of_ne_nil nonempty
  cases rest with
  | nil =>
    refine .whole nonempty all ?_
    rw [parsed, ← tens, List.length_singleton, Nat.sub_self, pow_zero, mul_one]
  | cons second rest =>
    have single : [first] ≠ [] := List.cons_ne_nil first []
    refine .point single all ?_
    rw [List.singleton_append, parsed, ← tens]
    rfl

theorem ne_exponent_of_positional {x : ℚ} {text : List Char} (h : Positional x text) :
    ∀ c ∈ text, decide (c ≠ 'e') = true := by
  intro c mem
  rw [decide_eq_true_eq]
  rintro rfl
  exact absurd (h.mem mem) (by decide)

/-- The spelling of a decimal is read back as the number that the decimal writes down. -/
theorem scaledReading_spell (l : Layout) (d : Decimal) : scaledReading (l.spell d) = d.value := by
  unfold Layout.spell
  dsimp only
  split
  · have written := positional_spellPositional l d
    have plain := ne_exponent_of_positional written
    rw [scaledReading, List.takeWhile_eq_self_iff.2 plain, List.dropWhile_eq_nil_iff.2 plain,
      written.reading_eq]
    simp [power]
  · have written := positional_mantissa d
    have plain := ne_exponent_of_positional written
    rw [spellScientific_eq, scaledReading, List.takeWhile_append_of_pos plain,
      List.dropWhile_append_of_pos plain, List.takeWhile_cons_of_neg (by decide),
      List.dropWhile_cons_of_neg (by decide), List.append_nil, written.reading_eq, power_eq,
      mul_assoc, ← zpow_add₀ (by norm_num), neg_add_cancel, zpow_zero, mul_one]

/-! ## Characters -/

theorem exists_spell_eq_cons (l : Layout) (d : Decimal) :
    ∃ c rest, l.spell d = c :: rest ∧ c.isDigit := by
  unfold Layout.spell
  dsimp only
  split
  · exact (positional_spellPositional l d).exists_eq_cons
  · obtain ⟨c, rest, text, digit⟩ := (positional_mantissa d).exists_eq_cons
    rw [spellScientific_eq, text]
    exact ⟨c, _, rfl, digit⟩

theorem mem_spell {l : Layout} {d : Decimal} {c : Char} (h : c ∈ l.spell d) :
    c.isDigit ∨ c ∈ ['.', 'e', '+', '-'] := by
  unfold Layout.spell at h
  dsimp only at h
  split at h
  · rcases (positional_spellPositional l d).mem h with digit | rfl
    · exact Or.inl digit
    · exact Or.inr (by decide)
  · rw [spellScientific_eq] at h
    rcases List.mem_append.1 h with mem | mem
    · rcases (positional_mantissa d).mem mem with digit | rfl
      · exact Or.inl digit
      · exact Or.inr (by decide)
    · rcases List.mem_cons.1 mem with rfl | mem
      · exact Or.inr (by decide)
      · rcases List.mem_cons.1 mem with rfl | mem
        · right
          split <;> decide
        · exact Or.inl (isDigit_digitChars _ c mem)

/-- If whole numbers show a fraction, no number is spelled in digits alone. -/
theorem exists_mem_spell {l : Layout} (h : l.fraction = true) (d : Decimal) :
    ∃ c ∈ l.spell d, ¬ c.isDigit := by
  unfold Layout.spell
  dsimp only
  split
  · refine ⟨'.', ?_, by decide⟩
    unfold Layout.spellPositional
    split <;> simp [h]
  · refine ⟨'e', ?_, by decide⟩
    rw [spellScientific_eq]
    exact List.mem_append_right _ List.mem_cons_self

end Decimal

/-! ## Finite numbers -/

namespace Number

open Decimal

variable {l : Layout} {m n : Number}

theorem isNaN_of_isFinite (h : n.isFinite = true) : n.isNaN = false := by
  simp only [isFinite, isNaN, decide_eq_true_eq, decide_eq_false_iff_not] at h ⊢
  omega

theorem toList_spell (l : Layout) (h : n.isFinite = true) :
    (n.spell l).toList =
      (if n.isNegative then ['-'] else []) ++ l.spell (shortest l.tie n.magnitude) := by
  rw [Number.spell, isNaN_of_isFinite h, if_neg Bool.false_ne_true, h, String.toList_ofList,
    if_pos rfl]

theorem toList_spell_ne_nil (l : Layout) (h : n.isFinite = true) : (n.spell l).toList ≠ [] := by
  obtain ⟨c, rest, text, -⟩ := exists_spell_eq_cons l (shortest l.tie n.magnitude)
  rw [toList_spell l h, text]
  exact List.append_ne_nil_of_right_ne_nil _ (List.cons_ne_nil c rest)

theorem mem_toList_spell (h : n.isFinite = true) {c : Char} (mem : c ∈ (n.spell l).toList) :
    c.isDigit ∨ c ∈ ['.', 'e', '+', '-'] := by
  rw [toList_spell l h] at mem
  rcases List.mem_append.1 mem with sign | mem
  · split at sign
    · rw [List.mem_singleton.1 sign]
      exact Or.inr (by decide)
    · exact absurd sign List.not_mem_nil
  · exact mem_spell mem

theorem exists_mem_toList_spell (fraction : l.fraction = true) (h : n.isFinite = true) :
    ∃ c ∈ (n.spell l).toList, ¬ c.isDigit := by
  obtain ⟨c, mem, other⟩ := exists_mem_spell fraction (shortest l.tie n.magnitude)
  refine ⟨c, ?_, other⟩
  rw [toList_spell l h]
  exact List.mem_append_right _ mem

theorem head?_toList_spell (l : Layout) (h : n.isFinite = true) :
    (n.spell l).toList.head? = some '-' ↔ n.isNegative = true := by
  obtain ⟨c, rest, text, digit⟩ := exists_spell_eq_cons l (shortest l.tie n.magnitude)
  have other : c ≠ '-' := by
    rintro rfl
    exact absurd digit (by decide)
  rw [toList_spell l h, text]
  cases n.isNegative <;> simp [other]

/-- No layout spells two finite numbers alike. -/
theorem eq_of_spell_eq (hm : m.isFinite = true) (hn : n.isFinite = true)
    (h : m.spell l = n.spell l) : m = n := by
  have signs : m.isNegative = n.isNegative := by
    rw [Bool.eq_iff_iff, ← head?_toList_spell l hm, ← head?_toList_spell l hn, h]
  have texts := congrArg String.toList h
  rw [toList_spell l hm, toList_spell l hn, signs] at texts
  have values := congrArg scaledReading (List.append_cancel_left texts)
  rw [scaledReading_spell, scaledReading_spell] at values
  exact eq_of_magnitude_eq signs (eq_of_value_shortest_eq values)

end Number

end Twofold
