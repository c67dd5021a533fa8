import Mathlib.Algebra.BigOperators.Intervals
import TarotClub.Score

namespace TarotClub

open Finset

/-- A signed 32-bit integer holds the value. -/
def FitsInt32 (z : ℤ) : Prop := -2 ^ 31 ≤ z ∧ z < 2 ^ 31

theorem FitsInt32.i32_eq {z : ℤ} (h : FitsInt32 z) : i32 z = z := by
  obtain ⟨hlo, hhi⟩ := h
  unfold i32
  exact Int.bmod_eq_of_le (by omega) (by omega)

namespace Points

/-- The formula of `GetPoints`, computed exactly. -/
def exactScore (p : Points) (bid : Bid) : ℤ :=
  (25 + |p.difference| + p.getLittleEndianPoints) * getMultiplier bid.contract +
    p.handlePoints + p.getSlamPoints bid

/-- What each player of the defense pays, or gets when it is negative. -/
def exactShare (p : Points) (bid : Bid) : ℤ :=
  if p.winner = .attack then p.exactScore bid else -p.exactScore bid

/-- The number of players of the defense. -/
def opponents (bid : Bid) (nbPlayers : ℕ) : ℤ := nbPlayers - 1 - if bid.hasPartner then 1 else 0

/-- The largest value that `GetPoints` computes, the attack's, fits in 32 bits. -/
def Fits (p : Points) (bid : Bid) (nbPlayers : ℕ) : Prop :=
  FitsInt32 (p.exactShare bid * opponents bid nbPlayers)

theorem winner_eq (p : Points) : p.winner = .attack ∨ p.winner = .defense := by
  unfold winner
  split_ifs
  · exact .inl rfl
  · exact .inr rfl

section Fits

variable {p : Points} {bid : Bid} {nbPlayers : ℕ}

/-- With two opponents at least, the shares are well inside the range. -/
theorem Fits.share (h : p.Fits bid nbPlayers) (hn : 2 ≤ opponents bid nbPlayers) :
    -2 ^ 30 ≤ p.exactShare bid ∧ p.exactShare bid ≤ 2 ^ 30 := by
  obtain ⟨hlo, hhi⟩ := h
  generalize p.exactShare bid = share at hlo hhi
  constructor
  · by_contra hsmall
    have hmul := mul_le_mul_of_nonpos_left hn (show share ≤ 0 by omega)
    omega
  · by_contra hlarge
    have hmul := mul_le_mul_of_nonneg_left hn (show 0 ≤ share by omega)
    omega

theorem Fits.score (h : p.Fits bid nbPlayers) (hn : 2 ≤ opponents bid nbPlayers) :
    i32 (p.exactScore bid) = p.exactScore bid := by
  have hshare := h.share hn
  refine FitsInt32.i32_eq ?_
  unfold exactShare at hshare
  unfold FitsInt32
  split_ifs at hshare <;> omega

theorem Fits.getPoints_attack (h : p.Fits bid nbPlayers) (hn : 2 ≤ opponents bid nbPlayers) :
    p.getPoints .attack bid nbPlayers = p.exactShare bid * opponents bid nbPlayers := by
  have hscore := h.score hn
  have hsign : p.exactScore bid * (if p.winner = .defense then -1 else 1) = p.exactShare bid := by
    unfold exactShare
    rcases p.winner_eq with hw | hw
    · rw [hw, if_neg (by decide), if_pos rfl, mul_one]
    · rw [hw, if_pos rfl, if_neg (by decide), mul_neg_one]
  simp only [exactScore] at hscore hsign
  simp only [getPoints, if_true, hscore, hsign]
  exact h.i32_eq

theorem Fits.getPoints_defense (h : p.Fits bid nbPlayers) (hn : 2 ≤ opponents bid nbPlayers) :
    p.getPoints .defense bid nbPlayers = -p.exactShare bid := by
  have hscore := h.score hn
  have hsign : p.exactScore bid * (if p.winner = .attack then -1 else 1) =
      -p.exactShare bid := by
    unfold exactShare
    split_ifs
    · exact mul_neg_one _
    · rw [mul_one, neg_neg]
  have hshare := h.share hn
  simp only [exactScore] at hscore hsign
  simp only [getPoints, reduceCtorEq, if_false, hscore, hsign]
  refine FitsInt32.i32_eq ⟨?_, ?_⟩ <;> omega

end Fits

end Points

namespace Score

/-- Where rounding leads from values in a range of this size. -/
theorem abs_roundTo_le {precision : ℕ} {minExponent : ℤ} (hp : 10 ≤ precision)
    (hm : minExponent ≤ -10) {q b c : ℚ} (h : |q| ≤ b) (hc : b + (b + 1) / 2 ^ 10 ≤ c) :
    |Rounding.roundTo precision minExponent q| ≤ c := by
  have hb : 0 ≤ b := (abs_nonneg q).trans h
  obtain ⟨hlo, hhi⟩ := abs_le.mp h
  rw [abs_le]
  exact ⟨(neg_le_neg hc).trans (Rounding.neg_le_roundTo hp hm hb hlo),
    (Rounding.roundTo_le hp hm hb hhi).trans hc⟩

/-- What is added to two thirds before they are truncated. -/
theorem added_bounds : 0 ≤ Rounding.roundTo 53 (-1074) (2 / 5) ∧
    Rounding.roundTo 53 (-1074) (2 / 5) ≤ 1 / 2 := by
  refine ⟨Rounding.roundTo_nonneg _ _ (by norm_num), ?_⟩
  exact (Rounding.roundTo_le (by decide) (by decide) (by norm_num) (le_refl (2 / 5 : ℚ))).trans
    (by norm_num)

/-- The taker's part is a 32-bit value, however the roundings go. -/
theorem abs_twoThirds_le {points : ℤ} (h : FitsInt32 points) : |twoThirds points| ≤ 2 ^ 31 := by
  obtain ⟨hlo, hhi⟩ := h
  have h0 : |(points : ℚ)| ≤ 2 ^ 31 := by
    rw [abs_le]
    exact ⟨by exact_mod_cast hlo, by exact_mod_cast hhi.le⟩
  obtain ⟨hadded0, hadded⟩ := added_bounds
  simp only [twoThirds]
  generalize Rounding.roundTo 53 (-1074) (2 / 5) = added at hadded0 hadded ⊢
  have h1 : |Rounding.roundTo 24 (-149) (points : ℚ)| ≤ 2150000000 :=
    abs_roundTo_le (by decide) (by decide) h0 (by norm_num)
  generalize Rounding.roundTo 24 (-149) (points : ℚ) = q1 at h1 ⊢
  have h2 : |Rounding.roundTo 24 (-149) (q1 * 2)| ≤ 4305000000 := by
    refine abs_roundTo_le (b := 4300000000) (by decide) (by decide) ?_ (by norm_num)
    rw [abs_mul, abs_two]
    linarith
  generalize Rounding.roundTo 24 (-149) (q1 * 2) = q2 at h2 ⊢
  have h3 : |Rounding.roundTo 24 (-149) (q2 / 3)| ≤ 1437000000 := by
    refine abs_roundTo_le (b := 1435000000) (by decide) (by decide) ?_ (by norm_num)
    rw [abs_div, abs_of_pos (three_pos : (0 : ℚ) < 3)]
    linarith
  generalize Rounding.roundTo 24 (-149) (q2 / 3) = q3 at h3 ⊢
  have h4 : |Rounding.roundTo 53 (-1074) (q3 + added)| ≤ 1440000000 := by
    refine abs_roundTo_le (b := 1437000001) (by decide) (by decide) ?_ (by norm_num)
    rw [abs_le] at h3 ⊢
    constructor
    · linarith
    · linarith
  generalize Rounding.roundTo 53 (-1074) (q3 + added) = q4 at h4 ⊢
  have h5 : |Rounding.roundTo 24 (-149) q4| ≤ 1500000000 :=
    abs_roundTo_le (by decide) (by decide) h4 (by norm_num)
  obtain ⟨hlow, hhigh⟩ := abs_le.mp h5
  rw [abs_le]
  constructor
  · refine Rounding.le_truncate ?_
    push_cast
    linarith
  · refine Rounding.truncate_le ?_
    push_cast
    linarith

theorem twoThirds_nonneg {points : ℤ} (h : 0 ≤ points) : 0 ≤ twoThirds points := by
  have h0 : (0 : ℚ) ≤ points := by exact_mod_cast h
  have hadded := added_bounds.1
  have h1 := Rounding.roundTo_nonneg 24 (-149) h0
  have h2 := Rounding.roundTo_nonneg 24 (-149) (mul_nonneg h1 two_pos.le)
  have h3 := Rounding.roundTo_nonneg 24 (-149) (div_nonneg h2 three_pos.le)
  have h4 := Rounding.roundTo_nonneg 53 (-1074) (add_nonneg h3 hadded)
  exact Rounding.truncate_nonneg (Rounding.roundTo_nonneg 24 (-149) h4)

theorem twoThirds_nonpos {points : ℤ} (h : points ≤ 0) : twoThirds points ≤ 0 := by
  have h0 : (points : ℚ) ≤ 0 := by exact_mod_cast h
  have hadded := added_bounds.2
  have h1 := Rounding.roundTo_nonpos 24 (-149) h0
  have h2 := Rounding.roundTo_nonpos 24 (-149) (mul_nonpos_of_nonpos_of_nonneg h1 two_pos.le)
  have h3 := Rounding.roundTo_nonpos 24 (-149) (div_nonpos_of_nonpos_of_nonneg h2 three_pos.le)
  simp only [twoThirds]
  -- the constant may lift the value above zero, but not as far as one
  generalize Rounding.roundTo 53 (-1074) (2 / 5) = added at hadded ⊢
  generalize Rounding.roundTo 24 (-149) (_ / 3) = q3 at h3 ⊢
  have h4 : Rounding.roundTo 53 (-1074) (q3 + added) ≤ 3 / 5 :=
    (Rounding.roundTo_le (by decide) (by decide) (b := 1 / 2) (by norm_num)
      (by linarith)).trans (by norm_num)
  have h5 : Rounding.roundTo 24 (-149) (Rounding.roundTo 53 (-1074) (q3 + added)) ≤ 4 / 5 :=
    (Rounding.roundTo_le (by decide) (by decide) (by norm_num) h4).trans (by norm_num)
  exact Rounding.truncate_nonpos (by linarith)

/-- The taker's part is on the side of the attack's points, whatever the rounding does. -/
theorem twoThirds_bounds {points : ℤ} (h : FitsInt32 points) :
    (0 ≤ points → 0 ≤ twoThirds points ∧ twoThirds points ≤ 2 ^ 31) ∧
      (points < 0 → -2 ^ 31 ≤ twoThirds points ∧ twoThirds points ≤ 0) := by
  obtain ⟨hlow, hhigh⟩ := abs_le.mp (abs_twoThirds_le h)
  exact ⟨fun hpos => ⟨twoThirds_nonneg hpos, hhigh⟩,
    fun hneg => ⟨hlow, twoThirds_nonpos hneg.le⟩⟩

/-- The parts of the taker and the partner are the points of the attack. -/
theorem partner_part {points : ℤ} (h : FitsInt32 points) :
    twoThirds points + i32 (points - twoThirds points) = points := by
  obtain ⟨hpos, hneg⟩ := twoThirds_bounds h
  obtain ⟨hlo, hhi⟩ := h
  have hfits : FitsInt32 (points - twoThirds points) := by
    rcases le_or_gt 0 points with h0 | h0
    · obtain ⟨htaker0, htaker⟩ := hpos h0
      constructor <;> omega
    · obtain ⟨htaker, htaker0⟩ := hneg h0
      constructor <;> omega
  rw [hfits.i32_eq]
  ring

/-- A row in which one seat has its own entry. -/
theorem sum_row {n a : ℕ} (ha : a < n) (taker other : ℤ) :
    ∑ i ∈ range n, (if i = a then taker else other) = taker + (n - 1) * other := by
  have hsplit : ∀ i, (if i = a then taker else other) =
      other + if i = a then taker - other else 0 := by
    intro i
    split_ifs
    · ring
    · ring
  simp only [hsplit, sum_add_distrib, sum_const, card_range, nsmul_eq_mul, sum_ite_eq',
    mem_range.mpr ha, if_true]
  ring

/-- A row in which two seats have their own entries. -/
theorem sum_row_partner {n a b : ℕ} (ha : a < n) (hb : b < n) (hab : b ≠ a)
    (taker partner other : ℤ) :
    ∑ i ∈ range n, (if i = a then taker else if i = b then partner else other) =
      taker + partner + (n - 2) * other := by
  have hsplit : ∀ i, (if i = a then taker else if i = b then partner else other) =
      (if i = a then taker else other) + if i = b then partner - other else 0 := by
    intro i
    split_ifs with hia hib
    · exact absurd (hib.symm.trans hia) hab
    · ring
    · ring
    · ring
  simp only [hsplit, sum_add_distrib, sum_row ha, sum_ite_eq', mem_range.mpr hb, if_true]
  ring

end Score

/-- The seat is the taker's or the partner's. -/
def Bid.InAttack (bid : Bid) (i : ℕ) : Prop :=
  Place.assign i = bid.taker ∨ bid.hasPartner = true ∧ Place.assign i = bid.partner

namespace Score

variable {n : ℕ} {points : Points} {bid : Bid}

theorem addPoints_row (s : Score) (points : Points) (bid : Bid) {i : ℕ} (hi : i < n) :
    (s.addPoints points bid n).2.scores s.dealCounter i = dealScores points bid n i := by
  simp only [addPoints, if_true, if_pos hi]

theorem dealScores_defense {i : ℕ} (h : ¬ bid.InAttack i) :
    dealScores points bid n i = points.getPoints .defense bid n := by
  have htaker : Place.assign i ≠ bid.taker := fun heq => h (.inl heq)
  have hpartner : ¬ (n = 5 ∧ Place.assign i = bid.partner ∧ bid.hasPartner) :=
    fun ⟨_, heq, hhas⟩ => h (.inr ⟨hhas, heq⟩)
  rw [dealScores, if_neg htaker, if_neg hpartner]

theorem assign_eq_iff {i : ℕ} (hi : i ≤ 5) (p : Place) : Place.assign i = p ↔ i = p.value := by
  constructor
  · rintro rfl
    exact (Place.value_assign hi).symm
  · rintro rfl
    exact Place.assign_value p

theorem sum_dealScores (hn : n = 3 ∨ n = 4 ∨ n = 5) (htaker : bid.taker.value < n)
    (hpartner : n < 5 → bid.partner = .nowhere) (hfits : points.Fits bid n) :
    ∑ i ∈ range n, dealScores points bid n i = 0 := by
  have hseat : ∀ i ∈ range n, ∀ p : Place, Place.assign i = p ↔ i = p.value := by
    intro i hi
    have hlt := mem_range.mp hi
    exact assign_eq_iff (by omega)
  by_cases hhas : bid.hasPartner = true
  · have hfive : n = 5 := by
      by_contra hne
      have hnone := hpartner (by omega)
      rw [Bid.hasPartner, hnone] at hhas
      simp [Place.isValid] at hhas
    subst hfive
    have hopponents : Points.opponents bid 5 = 3 := by
      rw [Points.opponents, if_pos hhas]
      norm_num
    have hattack := hfits.getPoints_attack (by omega)
    have hdefense := hfits.getPoints_defense (by omega)
    have hparts := partner_part (hopponents ▸ hfits : FitsInt32 (points.exactShare bid * 3))
    have hvalid : bid.partner.value < 5 ∧ bid.partner.value ≠ bid.taker.value := by
      simp only [Bid.hasPartner, Bool.and_eq_true, bne_iff_ne, Place.isValid,
        decide_eq_true_iff] at hhas
      exact ⟨hhas.1.2, fun heq => hhas.2 (Place.value_inj.mp heq)⟩
    rw [hopponents] at hattack
    have hrow : ∀ i ∈ range 5, dealScores points bid 5 i =
        if i = bid.taker.value then twoThirds (points.exactShare bid * 3)
        else if i = bid.partner.value then
          i32 (points.exactShare bid * 3 - twoThirds (points.exactShare bid * 3))
        else -points.exactShare bid := by
      intro i hi
      simp only [dealScores, hattack, hdefense, hhas, hseat i hi, true_and, and_true, if_true]
    rw [sum_congr rfl hrow, sum_row_partner htaker hvalid.1 hvalid.2, hparts]
    push_cast
    ring
  · have hopponents : Points.opponents bid n = n - 1 := by
      rw [Points.opponents, if_neg hhas, sub_zero]
    have hattack := hfits.getPoints_attack (by omega)
    have hdefense := hfits.getPoints_defense (by omega)
    have hrow : ∀ i ∈ range n, dealScores points bid n i =
        if i = bid.taker.value then points.exactShare bid * (n - 1)
        else -points.exactShare bid := by
      intro i hi
      rw [hopponents] at hattack
      simp only [dealScores, hattack, hdefense, hhas, hseat i hi, Bool.false_eq_true, and_false,
        if_false]
    rw [sum_congr rfl hrow, sum_row htaker]
    ring

/-- The entries of a deal sum up to zero, and the players of the defense have the same one. -/
theorem scores_zero_sum (hn : n = 3 ∨ n = 4 ∨ n = 5) (htaker : bid.taker.value < n)
    (hpartner : n < 5 → bid.partner = .nowhere) (hfits : points.Fits bid n) (s : Score) :
    let entry := (s.addPoints points bid n).2.scores s.dealCounter
    ∑ i ∈ range n, entry i = 0 ∧
      ∀ i < n, ∀ j < n, ¬ bid.InAttack i → ¬ bid.InAttack j → entry i = entry j := by
  refine ⟨?_, ?_⟩
  · have hrow : ∀ i ∈ range n, (s.addPoints points bid n).2.scores s.dealCounter i =
        dealScores points bid n i := fun i hi => addPoints_row s points bid (mem_range.mp hi)
    rw [sum_congr rfl hrow]
    exact sum_dealScores hn htaker hpartner hfits
  · intro i hi j hj hdefense hdefense'
    rw [addPoints_row s points bid hi, addPoints_row s points bid hj, dealScores_defense hdefense,
      dealScores_defense hdefense']

/-- South takes a guard with West as partner and announces a slam, and the defense wins. -/
theorem scores_zero_sum_five :
    let points : Points := { pointsAttack := 30, oudlers := 2, handlePoints := 20 }
    let bid : Bid := { taker := .south, partner := .west, contract := .guard, slam := true }
    let entry := (({} : Score).addPoints points bid 5).2.scores 0
    entry 1 = 292 ∧ ∑ i ∈ range 5, entry i = 0 ∧
      ∀ i < 5, ∀ j < 5, ¬ bid.InAttack i → ¬ bid.InAttack j → entry i = entry j := by
  intro points bid entry
  have hfits : points.Fits bid 5 :=
    ⟨(by decide +kernel : -2 ^ 31 ≤ points.exactShare bid * Points.opponents bid 5),
      (by decide +kernel : points.exactShare bid * Points.opponents bid 5 < 2 ^ 31)⟩
  exact ⟨by decide +kernel, scores_zero_sum (.inr (.inr rfl)) (by decide) (by decide) hfits {}⟩

end Score

end TarotClub
