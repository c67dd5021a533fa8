import TarotClub.Rounding

/-! Rounding where the spacing of the format is known: exact on its grid, and off by half of
the spacing at most. -/
namespace Rounding

theorem nearestInt_eq {q : ℚ} {n : ℤ} (h : |q - n| < 1 / 2) : nearestInt q = n := by
  have hnear := abs_nearestInt_sub_le q
  have hlt : |((nearestInt q - n : ℤ) : ℚ)| < 1 := by
    push_cast
    calc |(nearestInt q : ℚ) - n| ≤ |(nearestInt q : ℚ) - q| + |q - n| := abs_sub_le _ _ _
      _ < 1 := by linarith
  have hzero : |nearestInt q - n| < 1 := by exact_mod_cast hlt
  rw [Int.abs_lt_one_iff] at hzero
  omega

/-- The exponent of the spacing at a value. -/
def spacing (precision : ℕ) (minExponent : ℤ) (q : ℚ) : ℤ :=
  max (Int.log 2 |q| - (precision - 1)) minExponent

theorem roundTo_eq {precision : ℕ} {minExponent : ℤ} {q : ℚ} (hq : q ≠ 0) :
    roundTo precision minExponent q =
      nearestInt (q / 2 ^ spacing precision minExponent q) *
        2 ^ spacing precision minExponent q := by
  simp only [roundTo, if_neg hq, spacing]

/-- A multiple of the spacing is kept. -/
theorem roundTo_of_multiple {precision : ℕ} {minExponent : ℤ} {q : ℚ} {n : ℤ}
    (h : q / 2 ^ spacing precision minExponent q = n) : roundTo precision minExponent q = q := by
  by_cases hq : q = 0
  · simp [hq, roundTo]
  rw [roundTo_eq hq, h, nearestInt_intCast, ← h, div_mul_cancel₀]
  exact zpow_ne_zero _ two_ne_zero

/-- Integers of at most `precision` bits are kept, of either sign. -/
theorem roundTo_intCast {precision : ℕ} {minExponent : ℤ} (hp : 0 < precision)
    (h0 : minExponent ≤ 0) {n : ℤ} (hn : |n| ≤ 2 ^ precision) :
    roundTo precision minExponent n = n := by
  by_cases hz : n = 0
  · simp [hz, roundTo]
  have hnat : n.natAbs ≤ 2 ^ precision := by
    zify
    exact hn
  obtain ⟨m, hm⟩ := div_spacing_natCast hp h0 (Int.natAbs_ne_zero.mpr hz) hnat
  have habs : |(n : ℚ)| = (n.natAbs : ℚ) := by
    rw [← Int.cast_abs, Int.abs_eq_natAbs]
    rfl
  have hspacing : spacing precision minExponent n =
      max ((Nat.log 2 n.natAbs : ℤ) - (precision - 1)) minExponent := by
    rw [spacing, habs, Int.log_natCast]
  rcases n.natAbs_eq with hpos | hneg
  · refine roundTo_of_multiple (n := m) ?_
    rw [hspacing, ← hm, hpos]
    simp
  · refine roundTo_of_multiple (n := -m) ?_
    rw [hspacing, Int.cast_neg, ← hm, ← neg_div, hneg]
    simp

/-- Doubling is exact above the smallest spacing. -/
theorem roundTo_mul_two {precision : ℕ} {minExponent : ℤ} {q : ℚ} (hq : q ≠ 0)
    (hlog : minExponent ≤ Int.log 2 |q| - (precision - 1)) :
    roundTo precision minExponent (q * 2) = roundTo precision minExponent q * 2 := by
  have hpos : 0 < |q| := abs_pos.mpr hq
  have habs : |q * 2| = |q| * 2 := by rw [abs_mul, abs_two]
  have hdouble : Int.log 2 |q * 2| = Int.log 2 |q| + 1 := by
    rw [habs]
    have hlow : (2 : ℚ) ^ Int.log 2 |q| ≤ |q| := by
      exact_mod_cast Int.zpow_log_le_self (by decide) hpos
    have hhigh : |q| < (2 : ℚ) ^ (Int.log 2 |q| + 1) := by
      exact_mod_cast Int.lt_zpow_succ_log_self (by decide) |q|
    refine le_antisymm (Int.lt_add_one_iff.mp ?_) ?_
    · rw [← Int.lt_zpow_iff_log_lt (by decide) (by positivity)]
      push_cast
      rw [zpow_add_one₀ two_ne_zero]
      linarith
    · rw [← Int.zpow_le_iff_le_log (by decide) (by positivity)]
      push_cast
      rw [zpow_add_one₀ two_ne_zero]
      linarith
  have hstep : spacing precision minExponent (q * 2) = spacing precision minExponent q + 1 := by
    rw [spacing, spacing, hdouble]
    omega
  have hscale : q * 2 / 2 ^ (spacing precision minExponent q + 1) =
      q / 2 ^ spacing precision minExponent q := by
    rw [zpow_add_one₀ two_ne_zero, mul_div_mul_right _ _ two_ne_zero]
  rw [roundTo_eq (mul_ne_zero hq two_ne_zero), roundTo_eq hq, hstep, hscale,
    zpow_add_one₀ two_ne_zero, mul_assoc]

/-- Between the powers of two where the spacing is one, rounding is rounding to an integer. -/
theorem roundTo_eq_nearestInt {precision : ℕ} {minExponent : ℤ} {q : ℚ} (hmin : minExponent ≤ 0)
    (hlow : (2 : ℚ) ^ ((precision : ℤ) - 1) ≤ |q|) (hhigh : |q| < 2 ^ (precision : ℤ)) :
    roundTo precision minExponent q = nearestInt q := by
  have hpos : 0 < |q| := lt_of_lt_of_le (zpow_pos two_pos _) hlow
  have hlog : Int.log 2 |q| = (precision : ℤ) - 1 := by
    have hle : (precision : ℤ) - 1 ≤ Int.log 2 |q| := by
      rw [← Int.zpow_le_iff_le_log (by decide) hpos]
      exact_mod_cast hlow
    have hlt : Int.log 2 |q| < (precision : ℤ) := by
      rw [← Int.lt_zpow_iff_log_lt (by decide) hpos]
      exact_mod_cast hhigh
    omega
  have hone : spacing precision minExponent q = 0 := by
    rw [spacing, hlog]
    omega
  rw [roundTo_eq (abs_pos.mp hpos), hone, zpow_zero, div_one, mul_one]

/-- Below a power of two the error is half of the spacing there. -/
theorem abs_roundTo_sub_le_of_lt {precision : ℕ} {minExponent k : ℤ} {q : ℚ}
    (hq : |q| < 2 ^ k) (hk : minExponent + precision ≤ k) :
    |roundTo precision minExponent q - q| ≤ 2 ^ (k - precision) / 2 := by
  by_cases hzero : q = 0
  · simp only [hzero, roundTo, if_true, sub_zero, abs_zero]
    exact (half_pos (zpow_pos two_pos _)).le
  have hpos : 0 < |q| := abs_pos.mpr hzero
  have hlog : Int.log 2 |q| < k := by
    rw [← Int.lt_zpow_iff_log_lt (by decide) hpos]
    exact_mod_cast hq
  have hle : spacing precision minExponent q ≤ k - precision := by
    rw [spacing]
    omega
  have hscale : (2 : ℚ) ^ spacing precision minExponent q ≤ 2 ^ (k - (precision : ℤ)) :=
    zpow_le_zpow_right₀ one_le_two hle
  have hunit : (0 : ℚ) < 2 ^ spacing precision minExponent q := zpow_pos two_pos _
  have hnear := abs_nearestInt_sub_le (q / 2 ^ spacing precision minExponent q)
  rw [roundTo_eq hzero]
  generalize (2 : ℚ) ^ spacing precision minExponent q = unit at hscale hunit hnear ⊢
  have hfactor : (nearestInt (q / unit) : ℚ) * unit - q =
      ((nearestInt (q / unit) : ℚ) - q / unit) * unit := by
    rw [sub_mul, div_mul_cancel₀ q hunit.ne']
  rw [hfactor, abs_mul, abs_of_pos hunit]
  have hmul := mul_le_mul_of_nonneg_right hnear hunit.le
  linarith

theorem truncate_eq_of_nonneg {q : ℚ} {n : ℤ} (hn : 0 ≤ n) (hlow : n ≤ q) (hhigh : q < n + 1) :
    truncate q = n := by
  have hq : 0 ≤ q := le_trans (by exact_mod_cast hn) hlow
  rw [truncate, if_pos hq]
  exact Int.floor_eq_iff.mpr ⟨hlow, hhigh⟩

theorem truncate_eq_of_neg {q : ℚ} {n : ℤ} (hq : q < 0) (hlow : n - 1 < q) (hhigh : q ≤ n) :
    truncate q = n := by
  rw [truncate, if_neg (not_le.mpr hq)]
  exact Int.ceil_eq_iff.mpr ⟨hlow, hhigh⟩

end Rounding
