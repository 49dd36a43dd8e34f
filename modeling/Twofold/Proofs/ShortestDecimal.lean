import Mathlib
import Twofold.Decimal.Shortest

/-!
# Decimals that read back

The reals that round to different magnitudes lie in disjoint intervals, so a decimal reads back as
at most one magnitude. The shortest decimal of a magnitude reads back as that magnitude, whichever
grid it was found on, and so determines it.
-/

namespace Twofold.Decimal

/-! ## Units -/

theorem units_eq (b : Nat) :
    units b = if b / 2 ^ 52 = 0 then b % 2 ^ 52
      else (2 ^ 52 + b % 2 ^ 52) * 2 ^ (b / 2 ^ 52 - 1) := by
  simp only [units, Nat.shiftRight_eq_div_pow, Nat.shiftLeft_eq, Nat.one_mul]

/-- Larger magnitudes stand for larger numbers. -/
theorem units_strictMono : StrictMono units := by
  refine strictMono_nat_of_lt_succ fun b => ?_
  rw [units_eq, units_eq]
  by_cases carry : b % 2 ^ 52 + 1 = 2 ^ 52
  · -- The last magnitude of a binade: the next binade starts behind it.
    have quotient : (b + 1) / 2 ^ 52 = b / 2 ^ 52 + 1 := by omega
    have remainder : (b + 1) % 2 ^ 52 = 0 := by omega
    rw [quotient, remainder, if_neg (Nat.succ_ne_zero _), Nat.add_sub_cancel, Nat.add_zero]
    by_cases small : b / 2 ^ 52 = 0
    · rw [if_pos small, small]
      omega
    · rw [if_neg small]
      have double : 2 ^ (b / 2 ^ 52) = 2 * 2 ^ (b / 2 ^ 52 - 1) := by
        rw [← Nat.pow_succ', Nat.succ_eq_add_one, Nat.sub_add_cancel (Nat.pos_of_ne_zero small)]
      rw [double, ← Nat.mul_assoc]
      exact Nat.mul_lt_mul_of_pos_right (by omega) (Nat.two_pow_pos _)
  · have quotient : (b + 1) / 2 ^ 52 = b / 2 ^ 52 := by omega
    have remainder : (b + 1) % 2 ^ 52 = b % 2 ^ 52 + 1 := by omega
    rw [quotient, remainder]
    by_cases small : b / 2 ^ 52 = 0
    · rw [if_pos small, if_pos small]
      exact Nat.lt_succ_self _
    · rw [if_neg small, if_neg small]
      exact Nat.mul_lt_mul_of_pos_right (by omega) (Nat.two_pow_pos _)

/-! ## Rounding -/

/-- The number a decimal writes down. -/
def value (d : Decimal) : ℚ := d.digits * 10 ^ d.exponent

/-- The number `x` rounds to the magnitude `b`. -/
def RoundsTo (b : Nat) (x : ℚ) : Prop :=
  if b % 2 = 0 then lower b ≤ x * scale 0 ∧ x * scale 0 ≤ upper b
  else lower b < x * scale 0 ∧ x * scale 0 < upper b

theorem scale_eq (k : Int) : scale k = 10 ^ k.toNat * scale 0 := by
  unfold scale
  generalize 1075 = s
  rw [Nat.shiftLeft_eq, Nat.shiftLeft_eq, Nat.pow_eq, Nat.pow_eq, Int.toNat_zero, Nat.pow_zero,
    Nat.one_mul]

theorem cast_shrink_pos (k : Int) : (0 : ℚ) < shrink k :=
  Nat.cast_pos.2 (Nat.pow_pos (by decide))

theorem cast_scale (k : Int) : (scale k : ℚ) = 10 ^ k * scale 0 * shrink k := by
  rw [scale_eq, shrink, Nat.pow_eq]
  obtain ⟨n, rfl | rfl⟩ := k.eq_nat_or_neg
  · simp
  · simp [mul_right_comm]

theorem readsBack_iff (b : Nat) (d : Decimal) :
    readsBack b d = true ↔ RoundsTo b d.value := by
  have pos := cast_shrink_pos d.exponent
  have scaled : ((d.digits * scale d.exponent : Nat) : ℚ) =
      d.value * scale 0 * shrink d.exponent := by
    rw [Nat.cast_mul, cast_scale, value]
    ring
  unfold readsBack RoundsTo
  split <;>
    simp only [decide_eq_true_eq, ← Nat.cast_le (α := ℚ), ← Nat.cast_lt (α := ℚ), scaled]
  · simp only [Nat.cast_mul, mul_le_mul_iff_of_pos_right pos]
  · simp only [Nat.cast_mul, mul_lt_mul_iff_of_pos_right pos]

/-- A number rounds to at most one magnitude: the intervals of two magnitudes share at most an end,
and that only if they are neighbours, of which the even one has it. -/
theorem RoundsTo.eq {b b' : Nat} {x : ℚ} (h : RoundsTo b x) (h' : RoundsTo b' x) : b = b' := by
  have ordered {b b' : Nat} (h : RoundsTo b x) (h' : RoundsTo b' x) : ¬ b < b' := by
    intro less
    have meet : upper b ≤ lower b' :=
      Nat.add_le_add (units_strictMono.monotone (by omega)) (units_strictMono.monotone less)
    have meetCast : (upper b : ℚ) ≤ lower b' := Nat.cast_le.2 meet
    unfold RoundsTo at h h'
    split at h
    · split at h'
      · have touch : upper b = lower b' := by
          refine le_antisymm meet (Nat.cast_le.1 (?_ : (lower b' : ℚ) ≤ upper b))
          linarith
        have next : b' = b + 1 := by
          by_contra far
          have gap : units (b + 1) < units b' := units_strictMono (by omega)
          have : units b ≤ units (b' - 1) := units_strictMono.monotone (by omega)
          rw [upper, lower] at touch
          omega
        omega
      · linarith
    · split at h' <;> linarith
  rcases Nat.lt_trichotomy b b' with less | same | more
  · exact absurd less (ordered h h')
  · exact same
  · exact absurd more (ordered h' h)

/-- The value of a magnitude rounds to it. -/
theorem roundsTo_units (b : Nat) (x : ℚ) (h : x * scale 0 = 2 * units b) (pos : b ≠ 0) :
    RoundsTo b x := by
  have below : units (b - 1) < units b := units_strictMono (by omega)
  have above : units b < units (b + 1) := units_strictMono (by omega)
  have less : (lower b : ℚ) < 2 * units b := by
    rw [lower]
    exact_mod_cast (by omega : units (b - 1) + units b < 2 * units b)
  have more : (2 * units b : ℚ) < upper b := by
    rw [upper]
    exact_mod_cast (by omega : 2 * units b < units b + units (b + 1))
  unfold RoundsTo
  rw [h]
  split
  · exact ⟨less.le, more.le⟩
  · exact ⟨less, more⟩

/-! ## The shortest decimal -/

theorem value_normalize (d : Decimal) : d.normalize.value = d.value := by
  fun_induction normalize d with
  | case1 d trailing ih =>
    have whole : d.digits = d.digits / 10 * 10 := by omega
    rw [ih, value, value]
    conv_rhs => rw [whole]
    rw [Nat.cast_mul, zpow_add_one₀ (by norm_num)]
    push_cast
    ring
  | case2 d done => rfl

theorem roundsTo_of_onGrid {tie : Tie} {b : Nat} {k : Int} {d : Decimal}
    (h : onGrid tie b k = some d) : RoundsTo b d.value := by
  rw [← readsBack_iff]
  dsimp only [onGrid] at h
  split at h
  next down _ => exact Option.some.inj h ▸ down
  next _ up => exact Option.some.inj h ▸ up
  next => exact absurd h (by simp)
  next down up =>
    split at h
    next => exact Option.some.inj h ▸ down
    next => exact Option.some.inj h ▸ up
    next => exact Option.some.inj h ▸ up
    next =>
      -- The even one of the two multiples.
      rcases Nat.mod_two_eq_zero_or_one (2 * units b * shrink k / scale k) with even | odd
      · rw [even] at h
        exact Option.some.inj h ▸ down
      · rw [odd] at h
        exact Option.some.inj h ▸ up

theorem roundsTo_of_search {tie : Tie} {b n : Nat} {k : Int} {d : Decimal}
    (h : search tie b n k = some d) : RoundsTo b d.value := by
  fun_induction search tie b n k with
  | case1 k => exact absurd h (by simp)
  | case2 n k found hit =>
    cases h
    exact roundsTo_of_onGrid hit
  | case3 n k miss ih => exact ih h

theorem value_exact_mul (b : Nat) : (exact b).value * scale 0 = 2 * units b := by
  have exponent : (-1075 : Int) = -(1075 : Nat) := rfl
  unfold exact scale value
  rw [exponent]
  generalize 1075 = s
  rw [Nat.shiftLeft_eq, Nat.pow_eq, Nat.pow_eq, Int.toNat_zero, Nat.pow_zero, Nat.one_mul]
  have tens : (10 : ℚ) ^ s = 5 ^ s * 2 ^ s := by rw [← mul_pow]; norm_num
  have nonzero : (10 : ℚ) ^ s ≠ 0 := pow_ne_zero s (by norm_num)
  push_cast
  rw [zpow_neg, zpow_natCast, tens]
  rw [tens] at nonzero
  field_simp

/-- The shortest decimal of a magnitude reads back as that magnitude. -/
theorem roundsTo_shortest (tie : Tie) (b : Nat) : RoundsTo b (shortest tie b).value := by
  unfold shortest
  split
  next zero =>
    subst zero
    rw [← readsBack_iff]
    decide
  next nonzero =>
    split
    next d found =>
      rw [value_normalize]
      exact roundsTo_of_search found
    next missed =>
      rw [value_normalize]
      exact roundsTo_units b _ (value_exact_mul b) nonzero

/-- Two magnitudes whose shortest decimals have one value are the same magnitude. -/
theorem eq_of_value_shortest_eq {tie : Tie} {b b' : Nat}
    (h : (shortest tie b).value = (shortest tie b').value) : b = b' :=
  (roundsTo_shortest tie b).eq (h ▸ roundsTo_shortest tie b')

end Twofold.Decimal
