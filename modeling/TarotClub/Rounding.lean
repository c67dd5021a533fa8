import Mathlib.Data.Int.Log
import Mathlib.Data.Rat.Floor
import Mathlib.Tactic.Linarith
import Mathlib.Tactic.Ring
import Mathlib.Tactic.NormNum

/-! Binary floating point with rounding to nearest, ties to even, over the rationals. -/
namespace Rounding

/-- The nearest integer, the even one when there are two. -/
def nearestInt (q : ℚ) : ℤ :=
  let f := ⌊q⌋
  if q - f < 1 / 2 then f
  else if q - f > 1 / 2 then f + 1
  else if f % 2 = 0 then f else f + 1

/-- The value with `precision` significant bits nearest to `q`; below `2 ^ minExponent`
the spacing no longer shrinks. -/
def roundTo (precision : ℕ) (minExponent : ℤ) (q : ℚ) : ℚ :=
  if q = 0 then 0
  else
    let e := max (Int.log 2 |q| - (precision - 1)) minExponent
    nearestInt (q / 2 ^ e) * 2 ^ e

/-- A binary64 number; the sign of a zero is not kept. -/
inductive Double where
  | finite (q : ℚ)
  | infinite (negative : Bool)
  | nan
  deriving DecidableEq

namespace Double

/-- Rounding to binary64. -/
def ofRat (q : ℚ) : Double :=
  let r := roundTo 53 (-1074) q
  if 2 ^ 1024 ≤ |r| then infinite (r < 0) else finite r

def neg : Double → Double
  | finite q => finite (-q)
  | infinite s => infinite !s
  | nan => nan

def add : Double → Double → Double
  | finite a, finite b => ofRat (a + b)
  | infinite s, finite _ => infinite s
  | finite _, infinite s => infinite s
  | infinite s, infinite t => if s = t then infinite s else nan
  | _, _ => nan

def mul : Double → Double → Double
  | finite a, finite b => ofRat (a * b)
  | infinite s, finite b => if b = 0 then nan else infinite (s != decide (b < 0))
  | finite a, infinite s => if a = 0 then nan else infinite (s != decide (a < 0))
  | infinite s, infinite t => infinite (s != t)
  | _, _ => nan

/-- Conversion of an integer below `2 ^ 53`. -/
def ofNat (n : ℕ) : Double := finite n

end Double

/-- Truncation toward zero. -/
def truncate (q : ℚ) : ℤ := if 0 ≤ q then ⌊q⌋ else ⌈q⌉

theorem nearestInt_intCast (n : ℤ) : nearestInt n = n := by
  simp [nearestInt]

@[simp] theorem truncate_intCast (n : ℤ) : truncate n = n := by
  simp [truncate]

theorem abs_nearestInt_sub_le (q : ℚ) : |(nearestInt q : ℚ) - q| ≤ 1 / 2 := by
  have hle := Int.floor_le q
  have hlt := Int.lt_floor_add_one q
  simp only [nearestInt]
  split_ifs with hdown hup
  · rw [abs_le]
    constructor <;> linarith
  · push_cast
    rw [abs_le]
    constructor <;> linarith
  · rw [abs_le]
    constructor <;> linarith
  · push_cast
    rw [abs_le]
    constructor <;> linarith

theorem nearestInt_nonneg {q : ℚ} (h : 0 ≤ q) : 0 ≤ nearestInt q := by
  have hfloor : 0 ≤ ⌊q⌋ := Int.floor_nonneg.mpr h
  simp only [nearestInt]
  split_ifs <;> omega

theorem nearestInt_nonpos {q : ℚ} (h : q ≤ 0) : nearestInt q ≤ 0 := by
  rcases h.lt_or_eq with hneg | rfl
  · have hfloor : ⌊q⌋ < 0 := Int.floor_lt.mpr (by exact_mod_cast hneg)
    simp only [nearestInt]
    split_ifs <;> omega
  · exact (nearestInt_intCast 0).le

/-! Rounding keeps the sign and moves a value by half of the spacing at most. -/

theorem roundTo_nonneg (precision : ℕ) (minExponent : ℤ) {q : ℚ} (h : 0 ≤ q) :
    0 ≤ roundTo precision minExponent q := by
  simp only [roundTo]
  split_ifs
  · exact le_refl 0
  · have hspacing : (0 : ℚ) < 2 ^ (max (Int.log 2 |q| - (precision - 1)) minExponent) :=
      zpow_pos two_pos _
    have hnearest := nearestInt_nonneg (div_nonneg h hspacing.le)
    exact mul_nonneg (by exact_mod_cast hnearest) hspacing.le

theorem roundTo_nonpos (precision : ℕ) (minExponent : ℤ) {q : ℚ} (h : q ≤ 0) :
    roundTo precision minExponent q ≤ 0 := by
  simp only [roundTo]
  split_ifs
  · exact le_refl 0
  · have hspacing : (0 : ℚ) < 2 ^ (max (Int.log 2 |q| - (precision - 1)) minExponent) :=
      zpow_pos two_pos _
    have hnearest := nearestInt_nonpos (div_nonpos_of_nonpos_of_nonneg h hspacing.le)
    exact mul_nonpos_of_nonpos_of_nonneg (by exact_mod_cast hnearest) hspacing.le

theorem abs_roundTo_sub_le (precision : ℕ) (minExponent : ℤ) (q : ℚ) :
    |roundTo precision minExponent q - q| ≤
      (|q| * 2 ^ (1 - (precision : ℤ)) + 2 ^ minExponent) / 2 := by
  have hunit : (0 : ℚ) < 2 ^ minExponent := zpow_pos two_pos _
  have hscale : (0 : ℚ) < 2 ^ (1 - (precision : ℤ)) := zpow_pos two_pos _
  simp only [roundTo]
  split_ifs with hq
  · rw [hq, sub_zero, abs_zero, zero_mul, zero_add]
    exact (half_pos hunit).le
  · generalize he : max (Int.log 2 |q| - ((precision : ℤ) - 1)) minExponent = e
    have hspacing : (0 : ℚ) < 2 ^ e := zpow_pos two_pos _
    have hle : (2 : ℚ) ^ e ≤ |q| * 2 ^ (1 - (precision : ℤ)) + 2 ^ minExponent := by
      have hpos : 0 < |q| := abs_pos.mpr hq
      rcases le_total (Int.log 2 |q| - ((precision : ℤ) - 1)) minExponent with hmin | hlog
      · rw [← he, max_eq_right hmin]
        exact le_add_of_nonneg_left (mul_nonneg hpos.le hscale.le)
      · have hpow : (2 : ℚ) ^ Int.log 2 |q| ≤ |q| := by
          exact_mod_cast Int.zpow_log_le_self (by decide) hpos
        have hexp : Int.log 2 |q| - ((precision : ℤ) - 1) =
            Int.log 2 |q| + (1 - (precision : ℤ)) := by ring
        rw [← he, max_eq_left hlog, hexp, zpow_add₀ two_ne_zero]
        have hmul := mul_le_mul_of_nonneg_right hpow hscale.le
        linarith
    have hnear := abs_nearestInt_sub_le (q / 2 ^ e)
    have hfactor : (nearestInt (q / 2 ^ e) : ℚ) * 2 ^ e - q =
        ((nearestInt (q / 2 ^ e) : ℚ) - q / 2 ^ e) * 2 ^ e := by
      rw [sub_mul, div_mul_cancel₀ q hspacing.ne']
    rw [hfactor, abs_mul, abs_of_pos hspacing]
    have hmul := mul_le_mul_of_nonneg_right hnear hspacing.le
    linarith

/-- A rough bound for the formats of ten bits and more. -/
theorem abs_roundTo_sub_le_of_precise {precision : ℕ} {minExponent : ℤ} (hp : 10 ≤ precision)
    (hm : minExponent ≤ -10) (q : ℚ) :
    |roundTo precision minExponent q - q| ≤ (|q| + 1) / 2 ^ 10 := by
  have hnine : (2 : ℚ) ^ (-9 : ℤ) = 1 / 2 ^ 9 := by norm_num
  have hten : (2 : ℚ) ^ (-10 : ℤ) = 1 / 2 ^ 10 := by norm_num
  have hscale : (2 : ℚ) ^ (1 - (precision : ℤ)) ≤ 1 / 2 ^ 9 :=
    (zpow_le_zpow_right₀ (by norm_num) (by omega)).trans hnine.le
  have hunit : (2 : ℚ) ^ minExponent ≤ 1 / 2 ^ 10 :=
    (zpow_le_zpow_right₀ (by norm_num) hm).trans hten.le
  have hmul := mul_le_mul_of_nonneg_left hscale (abs_nonneg q)
  calc |roundTo precision minExponent q - q|
      ≤ (|q| * 2 ^ (1 - (precision : ℤ)) + 2 ^ minExponent) / 2 :=
        abs_roundTo_sub_le precision minExponent q
    _ ≤ (|q| * (1 / 2 ^ 9) + 1 / 2 ^ 10) / 2 :=
        div_le_div_of_nonneg_right (add_le_add hmul hunit) zero_le_two
    _ ≤ (|q| + 1) / 2 ^ 10 := by linarith

theorem roundTo_le {precision : ℕ} {minExponent : ℤ} (hp : 10 ≤ precision)
    (hm : minExponent ≤ -10) {q b : ℚ} (hb : 0 ≤ b) (h : q ≤ b) :
    roundTo precision minExponent q ≤ b + (b + 1) / 2 ^ 10 := by
  rcases le_total q 0 with hneg | hpos
  · have hround := roundTo_nonpos precision minExponent hneg
    have hslack : 0 ≤ (b + 1) / 2 ^ 10 := by positivity
    linarith
  · have herror := (abs_le.mp (abs_roundTo_sub_le_of_precise hp hm q)).2
    rw [abs_of_nonneg hpos] at herror
    linarith

theorem neg_le_roundTo {precision : ℕ} {minExponent : ℤ} (hp : 10 ≤ precision)
    (hm : minExponent ≤ -10) {q b : ℚ} (hb : 0 ≤ b) (h : -b ≤ q) :
    -(b + (b + 1) / 2 ^ 10) ≤ roundTo precision minExponent q := by
  rcases le_total 0 q with hpos | hneg
  · have hround := roundTo_nonneg precision minExponent hpos
    have hslack : 0 ≤ (b + 1) / 2 ^ 10 := by positivity
    linarith
  · have herror := (abs_le.mp (abs_roundTo_sub_le_of_precise hp hm q)).1
    rw [abs_of_nonpos hneg] at herror
    linarith

theorem truncate_nonneg {q : ℚ} (h : 0 ≤ q) : 0 ≤ truncate q := by
  rw [truncate, if_pos h]
  exact Int.floor_nonneg.mpr h

theorem truncate_nonpos {q : ℚ} (h : q < 1) : truncate q ≤ 0 := by
  unfold truncate
  split_ifs with h0
  · exact Int.lt_add_one_iff.mp (Int.floor_lt.mpr (by simpa using h))
  · exact Int.ceil_le.mpr (by simpa using (not_le.mp h0).le)

theorem truncate_le {q : ℚ} {n : ℤ} (h : q ≤ n) : truncate q ≤ n := by
  unfold truncate
  split_ifs with h0
  · exact (Int.floor_le_floor h).trans (Int.floor_intCast n).le
  · exact Int.ceil_le.mpr h

theorem le_truncate {q : ℚ} {n : ℤ} (h : n ≤ q) : n ≤ truncate q := by
  unfold truncate
  split_ifs with h0
  · exact Int.le_floor.mpr h
  · exact (Int.ceil_intCast n).ge.trans (Int.ceil_le_ceil h)

/-- The spacing at an integer of at most `precision` bits divides it. -/
theorem div_spacing_natCast {precision : ℕ} {minExponent : ℤ} (hp : 0 < precision)
    (h0 : minExponent ≤ 0) {n : ℕ} (hn0 : n ≠ 0) (hn : n ≤ 2 ^ precision) :
    ∃ m : ℤ, (n : ℚ) / 2 ^ (max ((Nat.log 2 n : ℤ) - (precision - 1)) minExponent) = m := by
  rcases hn.lt_or_eq with hlt | heq
  · have hlog : Nat.log 2 n < precision := Nat.log_lt_of_lt_pow hn0 hlt
    obtain ⟨k, hk⟩ : ∃ k : ℕ,
        max ((Nat.log 2 n : ℤ) - (precision - 1)) minExponent = -(k : ℤ) :=
      ⟨(-(max ((Nat.log 2 n : ℤ) - (precision - 1)) minExponent)).toNat, by omega⟩
    refine ⟨(n : ℤ) * 2 ^ k, ?_⟩
    rw [hk, zpow_neg, zpow_natCast, div_inv_eq_mul]
    push_cast
    ring
  · have hlog : Nat.log 2 n = precision := by
      rw [heq]
      exact Nat.log_pow (by decide) precision
    have hmax : max ((Nat.log 2 n : ℤ) - (precision - 1)) minExponent = 1 := by omega
    obtain ⟨p, rfl⟩ : ∃ p, precision = p + 1 := ⟨precision - 1, by omega⟩
    refine ⟨2 ^ p, ?_⟩
    rw [hmax, heq, pow_succ]
    push_cast
    norm_num

/-- Integers of at most `precision` bits are kept. -/
theorem roundTo_natCast {precision : ℕ} {minExponent : ℤ} (hp : 0 < precision)
    (h0 : minExponent ≤ 0) {n : ℕ} (hn : n ≤ 2 ^ precision) :
    roundTo precision minExponent n = n := by
  by_cases hz : n = 0
  · simp [hz, roundTo]
  have habs : |(n : ℚ)| = n := abs_of_nonneg (Nat.cast_nonneg n)
  obtain ⟨m, hm⟩ := div_spacing_natCast hp h0 hz hn
  simp only [roundTo, Nat.cast_eq_zero, hz, if_false, habs, Int.log_natCast, hm,
    nearestInt_intCast]
  rw [← hm, div_mul_cancel₀]
  exact zpow_ne_zero _ two_ne_zero

theorem Double.ofRat_natCast {n : ℕ} (hn : n ≤ 2 ^ 53) : Double.ofRat n = .finite n := by
  have hr : roundTo 53 (-1074) (n : ℚ) = n := roundTo_natCast (by decide) (by decide) hn
  have hlt : ¬ (2 : ℚ) ^ 1024 ≤ |(n : ℚ)| := by
    rw [abs_of_nonneg (Nat.cast_nonneg n), not_le]
    calc (n : ℚ) ≤ 2 ^ 53 := by exact_mod_cast hn
      _ < 2 ^ 1024 := pow_lt_pow_right₀ (by norm_num) (by norm_num)
  simp only [Double.ofRat, hr, if_neg hlt]

end Rounding
