import TarotClub.RoundingGrid
import TarotClub.ZeroSum

namespace TarotClub

namespace Score

open Rounding (roundTo truncate)

/-- What is added to two thirds before they are truncated. -/
theorem rounding_constant : |roundTo 53 (-1074) (2 / 5) - 2 / 5| ≤ 1 / 1000 := by
  have hlt : |(2 / 5 : ℚ)| < 2 ^ (-1 : ℤ) := by
    rw [abs_of_pos (by norm_num)]
    norm_num
  exact (Rounding.abs_roundTo_sub_le_of_lt hlt (by norm_num)).trans (by norm_num)

/-- Two thirds of a multiple of three are exact before the constant is added. -/
theorem twoThirds_exact {k : ℤ} (h : |k * 3| ≤ 2 ^ 24) :
    roundTo 24 (-149) (roundTo 24 (-149) (roundTo 24 (-149) ((k * 3 : ℤ) : ℚ) * 2) / 3) =
      (k * 2 : ℤ) := by
  have hthree : roundTo 24 (-149) ((k * 3 : ℤ) : ℚ) = (k * 3 : ℤ) :=
    Rounding.roundTo_intCast (by norm_num) (by norm_num) h
  have hdouble : roundTo 24 (-149) (((k * 3 : ℤ) : ℚ) * 2) = ((k * 3 : ℤ) : ℚ) * 2 := by
    by_cases hzero : k = 0
    · simp [hzero, roundTo]
    have hne : ((k * 3 : ℤ) : ℚ) ≠ 0 := by
      exact_mod_cast mul_ne_zero hzero (by norm_num)
    have hlog : 0 ≤ Int.log 2 |((k * 3 : ℤ) : ℚ)| := by
      rw [← Int.zpow_le_iff_le_log (by decide) (abs_pos.mpr hne), zpow_zero, ← Int.cast_abs]
      exact_mod_cast Int.one_le_abs (by exact_mod_cast hne)
    rw [Rounding.roundTo_mul_two hne (by rw [Nat.cast_ofNat]; omega), hthree]
  have hthird : ((k * 3 : ℤ) : ℚ) * 2 / 3 = (k * 2 : ℤ) := by
    push_cast
    ring
  rw [hthree, hdouble, hthird]
  refine Rounding.roundTo_intCast (by norm_num) (by norm_num) ?_
  have := abs_le.mp h
  rw [abs_le]
  omega

/-- The constant is lost for a gain and takes one point off a loss, unless the loss is so large
that the spacing of the numbers has swallowed it. -/
theorem truncate_added {d : ℤ} (h : |d| ≤ 12000000) :
    truncate (roundTo 24 (-149) (roundTo 53 (-1074) (d + roundTo 53 (-1074) (2 / 5)))) =
      if d < 0 ∧ -2 ^ 23 ≤ d then d + 1 else d := by
  obtain ⟨hlo, hhi⟩ := abs_le.mp h
  have hlow : (-12000000 : ℚ) ≤ d := by exact_mod_cast hlo
  have hhigh : (d : ℚ) ≤ 12000000 := by exact_mod_cast hhi
  obtain ⟨hadded, hadded'⟩ := abs_le.mp rounding_constant
  generalize roundTo 53 (-1074) (2 / 5) = added at hadded hadded' ⊢
  have hsum : |(d : ℚ) + added| < 2 ^ (24 : ℤ) := by
    rw [abs_lt]
    norm_num
    constructor <;> linarith
  obtain ⟨herror, herror'⟩ := abs_le.mp <|
    (@Rounding.abs_roundTo_sub_le_of_lt 53 (-1074) _ _ hsum
      (by norm_num)).trans (by norm_num : (2 : ℚ) ^ (24 - ((53 : ℕ) : ℤ)) / 2 ≤ 1 / 1000)
  generalize roundTo 53 (-1074) ((d : ℚ) + added) = sum at herror herror' ⊢
  have hbelow : (d : ℚ) + 39 / 100 ≤ sum := by linarith
  have habove : sum ≤ (d : ℚ) + 41 / 100 := by linarith
  -- below 2 ^ 23 single precision has halves, and the constant survives the rounding
  by_cases hsmall : |sum| < 2 ^ (23 : ℤ)
  · obtain ⟨hround, hround'⟩ := abs_le.mp <|
      (@Rounding.abs_roundTo_sub_le_of_lt 24 (-149) _ _ hsmall
        (by norm_num)).trans (by norm_num : (2 : ℚ) ^ (23 - ((24 : ℕ) : ℤ)) / 2 ≤ 1 / 4)
    generalize roundTo 24 (-149) sum = single at hround hround' ⊢
    by_cases hneg : d < 0
    · have hd : -2 ^ 23 ≤ d := by
        by_contra hd
        have hle : (d : ℚ) ≤ -2 ^ 23 - 1 := by exact_mod_cast (by omega : d ≤ -2 ^ 23 - 1)
        have hge := (abs_lt.mp hsmall).1
        norm_num at hge hle
        linarith
      have hle : (d : ℚ) ≤ -1 := by exact_mod_cast (by omega : d ≤ -1)
      rw [if_pos ⟨hneg, hd⟩]
      refine Rounding.truncate_eq_of_neg (by linarith) ?_ ?_
      · push_cast
        linarith
      · push_cast
        linarith
    · rw [if_neg fun h => hneg h.1]
      exact Rounding.truncate_eq_of_nonneg (by omega) (by linarith) (by linarith)
  · have hnear : roundTo 24 (-149) sum = d := by
      have hlt : |sum| < 2 ^ ((24 : ℕ) : ℤ) := by
        rw [abs_lt]
        norm_num
        constructor <;> linarith
      have hge : (2 : ℚ) ^ (((24 : ℕ) : ℤ) - 1) ≤ |sum| := not_lt.mp hsmall
      rw [Rounding.roundTo_eq_nearestInt (by norm_num) hge hlt, Rounding.nearestInt_eq]
      rw [abs_lt]
      constructor <;> linarith
    have hd : ¬ (d < 0 ∧ -2 ^ 23 ≤ d) := by
      rintro ⟨hneg, hd⟩
      have hge : (-2 ^ 23 : ℚ) ≤ d := by exact_mod_cast hd
      have hle : (d : ℚ) ≤ -1 := by exact_mod_cast (by omega : d ≤ -1)
      refine hsmall ?_
      rw [abs_lt]
      norm_num at hge ⊢
      constructor <;> linarith
    rw [hnear, if_neg hd, Rounding.truncate_intCast]

/-- The taker's part of three shares. -/
theorem twoThirds_mul_three {k : ℤ} (h : |k * 3| ≤ 2 ^ 24) :
    twoThirds (k * 3) = if k < 0 ∧ -2 ^ 22 ≤ k then k * 2 + 1 else k * 2 := by
  have hdouble : |k * 2| ≤ 12000000 := by
    have := abs_le.mp h
    rw [abs_le]
    omega
  simp only [twoThirds, twoThirds_exact h]
  rw [truncate_added hdouble]
  refine if_congr ?_ rfl rfl
  omega

/-- The taker's entry is twice the partner's, and both are opposite to those of the defense. -/
def SplitsTwoToOne (bid : Bid) (entry : ℕ → ℤ) : Prop :=
  entry bid.taker.value = 2 * entry bid.partner.value ∧
    ∀ i < 5, ¬ bid.InAttack i →
      (entry bid.taker.value).sign = -(entry i).sign ∧
        (entry bid.partner.value).sign = -(entry i).sign

variable {points : Points} {bid : Bid}

/-- The entries of a deal with a partner, by the share that each opponent pays. -/
theorem partner_entries (hpartner : bid.hasPartner = true)
    (hsmall : |points.exactShare bid * 3| ≤ 2 ^ 24) :
    dealScores points bid 5 bid.taker.value = twoThirds (points.exactShare bid * 3) ∧
      dealScores points bid 5 bid.partner.value =
        points.exactShare bid * 3 - twoThirds (points.exactShare bid * 3) ∧
      ∀ i, ¬ bid.InAttack i → dealScores points bid 5 i = -points.exactShare bid := by
  have hbounds := abs_le.mp hsmall
  have hopponents : Points.opponents bid 5 = 3 := by
    rw [Points.opponents, if_pos hpartner]
    norm_num
  have hfits : points.Fits bid 5 := by
    rw [Points.Fits, hopponents]
    constructor <;> omega
  have hattack := hfits.getPoints_attack (by omega)
  have hdefense := hfits.getPoints_defense (by omega)
  rw [hopponents] at hattack
  have hne : bid.partner ≠ bid.taker := by
    simp only [Bid.hasPartner, Bool.and_eq_true, bne_iff_ne] at hpartner
    exact hpartner.2
  have hwrap : i32 (points.exactShare bid * 3 - twoThirds (points.exactShare bid * 3)) =
      points.exactShare bid * 3 - twoThirds (points.exactShare bid * 3) := by
    refine FitsInt32.i32_eq ?_
    rw [twoThirds_mul_three hsmall]
    split_ifs <;> constructor <;> omega
  refine ⟨?_, ?_, fun i hi => ?_⟩
  · simp only [dealScores, Place.assign_value, hattack, hpartner, and_true, if_true]
  · simp only [dealScores, Place.assign_value, hattack, hpartner, hne, hwrap, and_true, if_true,
      if_false]
  · rw [dealScores_defense hi, hdefense]

/-- The attack's total is split in two thirds and one third exactly when it is no loss, or a loss
beyond the range in which single precision still holds the constant of the rounding. -/
theorem partner_split_iff (hpartner : bid.hasPartner = true)
    (hsmall : |points.exactShare bid * 3| ≤ 2 ^ 24) (s : Score) :
    SplitsTwoToOne bid ((s.addPoints points bid 5).2.scores s.dealCounter) ↔
      0 ≤ points.exactShare bid ∨ points.exactShare bid < -2 ^ 22 := by
  obtain ⟨htaker, hother, hdefense⟩ := partner_entries hpartner hsmall
  have hvalid : bid.taker.value < 5 ∧ bid.partner.value < 5 := by
    simp only [Bid.hasPartner, Bool.and_eq_true, Place.isValid, decide_eq_true_iff] at hpartner
    exact hpartner.1
  rw [SplitsTwoToOne, addPoints_row s points bid hvalid.1, addPoints_row s points bid hvalid.2,
    htaker, hother, twoThirds_mul_three hsmall]
  constructor
  · rintro ⟨htwice, -⟩
    split_ifs at htwice with hloss
    · omega
    · omega
  · intro hshare
    have hexact : ¬ (points.exactShare bid < 0 ∧ -2 ^ 22 ≤ points.exactShare bid) := by omega
    have hpart : points.exactShare bid * 3 - points.exactShare bid * 2 = points.exactShare bid := by
      ring
    rw [if_neg hexact, hpart]
    refine ⟨mul_comm _ _, fun i hi hnot => ?_⟩
    rw [addPoints_row s points bid hi, hdefense i hnot, Int.sign_neg, neg_neg, Int.sign_mul]
    exact ⟨mul_one _, rfl⟩

/-- South takes a guard with West and makes it by ten points. -/
theorem partner_split_iff_made :
    let points : Points := { pointsAttack := 51, oudlers := 2 }
    let bid : Bid := { taker := .south, partner := .west, contract := .guard }
    points.exactShare bid = 70 ∧
      SplitsTwoToOne bid ((({} : Score).addPoints points bid 5).2.scores 0) := by
  intro points bid
  have hshare : points.exactShare bid = 70 := by decide +kernel
  refine ⟨hshare, (partner_split_iff (by decide) ?_ {}).mpr (.inl ?_)⟩
  · rw [hshare]
    norm_num
  · rw [hshare]
    norm_num

/-- The same guard lost by ten points: the taker is charged one point too little, and the partner
one too much. -/
theorem lost_split_uneven :
    let points : Points := { pointsAttack := 31, oudlers := 2 }
    let bid : Bid := { taker := .south, partner := .west, contract := .guard }
    let entry := (({} : Score).addPoints points bid 5).2.scores 0
    entry 0 = -139 ∧ entry 3 = -71 ∧ ¬ SplitsTwoToOne bid entry := by
  intro points bid entry
  have htaker : entry 0 = -139 := by decide +kernel
  have hother : entry 3 = -71 := by decide +kernel
  refine ⟨htaker, hother, fun h => ?_⟩
  have htwice : entry 0 = 2 * entry 3 := h.1
  omega

end Score

end TarotClub
