import TarotClub.ZeroSum

namespace TarotClub.Score

def getTotalPoints (s : Score) (p : Place) : ℤ :=
  (List.range s.dealCounter).foldl (fun total i => i32 (total + s.scores i p.value)) 0

/-- The deals of a tournament, recorded one after the other. -/
def recordDeals (numberOfPlayers : ℕ) (s : Score) (deals : List (Points × Bid)) : Score :=
  deals.foldl (fun s deal => (s.addPoints deal.1 deal.2 numberOfPlayers).2) s

/-- The podium lists the first `n` seats in order of their total points, and the winner is the
best of them. -/
structure RanksTournament (n : ℕ) (s : Score) : Prop where
  seats : (s.getPodium.map Prod.snd).Perm ((List.range n).map Place.assign)
  ordered : (s.getPodium.map Prod.snd).Pairwise
      (fun p q => s.getTotalPoints p ≤ s.getTotalPoints q) ∨
    (s.getPodium.map Prod.snd).Pairwise (fun p q => s.getTotalPoints q ≤ s.getTotalPoints p)
  winner : s.getWinner.value < n ∧
    ∀ i < n, s.getTotalPoints (Place.assign i) ≤ s.getTotalPoints s.getWinner

/-! ### The map of the podium -/

/-- The keys of a map come in increasing order. -/
def Sorted (podium : List (ℤ × Place)) : Prop := podium.Pairwise fun e f => e.1 < f.1

theorem mem_podiumInsert {podium : List (ℤ × Place)} (h : Sorted podium) (points : ℤ) (p : Place)
    (e : ℤ × Place) :
    e ∈ podiumInsert podium points p ↔ e = (points, p) ∨ e ∈ podium ∧ e.1 ≠ points := by
  induction podium with
  | nil => simp [podiumInsert]
  | cons entry rest ih =>
    obtain ⟨k, q⟩ := entry
    obtain ⟨hk, hrest⟩ := List.pairwise_cons.mp h
    have hlater : ∀ f ∈ rest, k < f.1 := hk
    rw [podiumInsert]
    split_ifs with heq hlt
    · subst heq
      simp only [List.mem_cons]
      constructor
      · rintro (rfl | hmem)
        · exact .inl rfl
        · exact .inr ⟨.inr hmem, (hlater e hmem).ne'⟩
      · rintro (rfl | ⟨rfl | hmem, hne⟩)
        · exact .inl rfl
        · exact absurd rfl hne
        · exact .inr hmem
    · have hne : ∀ f ∈ (k, q) :: rest, f.1 ≠ points := by
        rw [List.forall_mem_cons]
        exact ⟨hlt.ne', fun f hf => (hlt.trans (hlater f hf)).ne'⟩
      rw [List.mem_cons]
      exact or_congr_right ⟨fun hmem => ⟨hmem, hne e hmem⟩, And.left⟩
    · simp only [List.mem_cons, ih hrest]
      constructor
      · rintro (rfl | rfl | ⟨hmem, hne⟩)
        · exact .inr ⟨.inl rfl, Ne.symm heq⟩
        · exact .inl rfl
        · exact .inr ⟨.inr hmem, hne⟩
      · rintro (rfl | ⟨rfl | hmem, hne⟩)
        · exact .inr (.inl rfl)
        · exact .inl rfl
        · exact .inr (.inr ⟨hmem, hne⟩)

theorem sorted_podiumInsert {podium : List (ℤ × Place)} (h : Sorted podium) (points : ℤ)
    (p : Place) : Sorted (podiumInsert podium points p) := by
  induction podium with
  | nil => exact List.pairwise_singleton _ _
  | cons entry rest ih =>
    obtain ⟨k, q⟩ := entry
    obtain ⟨hk, hrest⟩ := List.pairwise_cons.mp h
    rw [podiumInsert]
    split_ifs with heq hlt
    · exact List.pairwise_cons.mpr ⟨hk, hrest⟩
    · refine List.pairwise_cons.mpr ⟨?_, h⟩
      rw [List.forall_mem_cons]
      exact ⟨hlt, fun f hf => hlt.trans (hk f hf)⟩
    · refine List.pairwise_cons.mpr ⟨fun f hf => ?_, ih hrest⟩
      rcases (mem_podiumInsert hrest points p f).mp hf with rfl | ⟨hmem, -⟩
      · exact lt_of_le_of_ne (not_lt.mp hlt) (Ne.symm heq)
      · exact hk f hmem

/-- The seats of the first `k` turns of the loop: a later seat takes the place of an earlier one
with the same points. -/
theorem mem_podium_range (row : ℕ → ℤ) (k : ℕ) :
    let podium := (List.range k).foldl
      (fun podium i => podiumInsert podium (row i) (Place.assign i)) []
    Sorted podium ∧ ∀ e, e ∈ podium ↔
      ∃ i < k, e = (row i, Place.assign i) ∧ ∀ j < k, i < j → row j ≠ row i := by
  induction k with
  | zero => exact ⟨List.Pairwise.nil, fun e => by simp⟩
  | succ k ih =>
    obtain ⟨hsorted, hmem⟩ := ih
    rw [List.range_succ, List.foldl_append, List.foldl_cons, List.foldl_nil]
    refine ⟨sorted_podiumInsert hsorted _ _, fun e => ?_⟩
    rw [mem_podiumInsert hsorted, hmem]
    constructor
    · rintro (rfl | ⟨⟨i, hi, rfl, hlater⟩, hne⟩)
      · exact ⟨k, k.lt_succ_self, rfl, fun j hj hkj => by omega⟩
      · refine ⟨i, by omega, rfl, fun j hj hij => ?_⟩
        rcases Nat.lt_succ_iff_lt_or_eq.mp hj with hlt | rfl
        · exact hlater j hlt hij
        · exact Ne.symm hne
    · rintro ⟨i, hi, rfl, hlater⟩
      rcases Nat.lt_succ_iff_lt_or_eq.mp hi with hlt | rfl
      · exact .inr ⟨⟨i, hlt, rfl, fun j hj hij => hlater j (by omega) hij⟩,
          (hlater k k.lt_succ_self hlt).symm⟩
      · exact .inl rfl

/-- The podium holds, for each number of points of the last deal, the last of the five seats that
has it. -/
theorem mem_getPodium {s : Score} (h : 0 < s.dealCounter) (e : ℤ × Place) :
    e ∈ s.getPodium ↔ ∃ i < 5, e = (s.scores (s.dealCounter - 1) i, Place.assign i) ∧
      ∀ j < 5, i < j → s.scores (s.dealCounter - 1) j ≠ s.scores (s.dealCounter - 1) i := by
  rw [getPodium, if_pos h]
  exact (mem_podium_range (s.scores (s.dealCounter - 1)) 5).2 e

/-- The fifth seat is always on it. -/
theorem fifth_mem_getPodium {s : Score} (h : 0 < s.dealCounter) :
    Place.fifth ∈ s.getPodium.map Prod.snd :=
  List.mem_map.mpr ⟨_, (mem_getPodium h _).mpr
    ⟨4, by norm_num, rfl, fun j hj hij => by omega⟩, rfl⟩

/-- Of two seats with the same points in the last deal the first is not on it. -/
theorem not_mem_getPodium {s : Score} (h : 0 < s.dealCounter) {i j : ℕ} (hij : i < j) (hj : j < 5)
    (htie : s.scores (s.dealCounter - 1) j = s.scores (s.dealCounter - 1) i) :
    Place.assign i ∉ s.getPodium.map Prod.snd := by
  intro hmem
  obtain ⟨e, he, hseat⟩ := List.mem_map.mp hmem
  obtain ⟨i', hi', rfl, hlater⟩ := (mem_getPodium h e).mp he
  have hsame : i' = i := by
    have hvalue := congrArg Place.value hseat
    rwa [Place.value_assign (by omega), Place.value_assign (by omega)] at hvalue
  subst hsame
  exact hlater j hj hij htie

/-! ### A tournament -/

theorem recordDeals_concat (n : ℕ) (s : Score) (deals : List (Points × Bid))
    (deal : Points × Bid) :
    recordDeals n s (deals ++ [deal]) =
      ((recordDeals n s deals).addPoints deal.1 deal.2 n).2 := by
  rw [recordDeals, List.foldl_append]
  rfl

theorem recordDeals_dealCounter (n : ℕ) {s : Score} (deals : List (Points × Bid))
    (h : s.dealCounter + deals.length < 2 ^ 32) :
    (recordDeals n s deals).dealCounter = s.dealCounter + deals.length := by
  induction deals using List.reverseRecOn with
  | nil => rfl
  | append_singleton deals deal ih =>
    rw [List.length_append, List.length_singleton] at h ⊢
    rw [recordDeals_concat, addPoints, ih (by omega)]
    dsimp only
    omega

/-- At five players two seats in front of the fifth are in the defense. -/
theorem exists_defense (bid : Bid) :
    ∃ i j, i < j ∧ j < 5 ∧ ¬ bid.InAttack i ∧ ¬ bid.InAttack j := by
  have hseats : ∀ taker partner : Place, ∃ i < 5, ∃ j < 5, i < j ∧
      (Place.assign i ≠ taker ∧ Place.assign i ≠ partner) ∧
        Place.assign j ≠ taker ∧ Place.assign j ≠ partner := by
    intro taker partner
    cases taker <;> cases partner <;> decide
  obtain ⟨i, -, j, hj, hij, ⟨htaker, hpartner⟩, htaker', hpartner'⟩ := hseats bid.taker bid.partner
  refine ⟨i, j, hij, hj, ?_, ?_⟩
  · rintro (h | ⟨-, h⟩)
    · exact htaker h
    · exact hpartner h
  · rintro (h | ⟨-, h⟩)
    · exact htaker' h
    · exact hpartner' h

/-- No history of deals is ranked: below five players the podium has a fifth seat, and at five the
equal seats of the defense fall together. -/
theorem podium_never_ranks {n : ℕ} (hn : n = 3 ∨ n = 4 ∨ n = 5) (numberOfTurns : ℕ)
    {deals : List (Points × Bid)} (hne : deals ≠ []) (hlength : deals.length ≤ 40) :
    ¬ RanksTournament n (recordDeals n (newGame numberOfTurns) deals) := by
  intro h
  obtain ⟨before, ⟨points, bid⟩, rfl⟩ := (List.eq_nil_or_concat' deals).resolve_left hne
  rw [List.length_append, List.length_singleton] at hlength
  have hbefore : (recordDeals n (newGame numberOfTurns) before).dealCounter = before.length := by
    rw [recordDeals_dealCounter n before (by rw [newGame]; dsimp only; omega), newGame]
    exact Nat.zero_add _
  rw [recordDeals_concat] at h
  generalize recordDeals n (newGame numberOfTurns) before = s at h hbefore
  have hcounter : ((s.addPoints points bid n).2).dealCounter = s.dealCounter + 1 := by
    rw [addPoints]
    dsimp only
    omega
  have hpos : 0 < ((s.addPoints points bid n).2).dealCounter := by omega
  have hseats : ∀ p, p ∈ ((s.addPoints points bid n).2).getPodium.map Prod.snd ↔
      ∃ i < n, Place.assign i = p := by
    intro p
    rw [h.seats.mem_iff]
    simp
  by_cases hfive : n = 5
  · subst hfive
    -- both lose the same points in that deal, so the first of them is missing
    obtain ⟨i, j, hij, hj, hi', hj'⟩ := exists_defense bid
    refine not_mem_getPodium hpos hij hj ?_ ((hseats _).mpr ⟨i, by omega, rfl⟩)
    rw [hcounter, Nat.add_sub_cancel, addPoints_row s points bid hj,
      addPoints_row s points bid (by omega : i < 5), dealScores_defense hi', dealScores_defense hj']
  · obtain ⟨i, hi, hfifth⟩ := (hseats .fifth).mp (fifth_mem_getPodium hpos)
    have hvalue := congrArg Place.value hfifth
    rw [Place.value_assign (by omega)] at hvalue
    have : Place.fifth.value = 4 := rfl
    omega

/-- Four players: South makes a guard by 19 points, then East a take by none. -/
def twoDeals : Score :=
  recordDeals 4 (newGame 5)
    [({ pointsAttack := 60, oudlers := 2 }, { taker := .south, contract := .guard }),
      ({ pointsAttack := 41, oudlers := 2 }, { taker := .east, contract := .take })]

theorem podium_never_ranks_two : ¬ RanksTournament 4 twoDeals :=
  podium_never_ranks (.inr (.inl rfl)) 5 (List.cons_ne_nil _ _) (by decide)

/-- The winner is East, who has won the last deal, and not South, who is 252 points ahead; two of
the seats are missing, and the fifth one, where nobody sits, is there. -/
theorem last_deal_wins :
    twoDeals.getPodium = [(-25, .west), (0, .fifth), (75, .east)] ∧ twoDeals.getWinner = .east ∧
      twoDeals.getTotalPoints .south = 239 ∧ twoDeals.getTotalPoints .east = -13 ∧
      ¬ RanksTournament 4 twoDeals := by
  have hwinner : twoDeals.getWinner = .east := by decide +kernel
  have hsouth : twoDeals.getTotalPoints .south = 239 := by decide +kernel
  have heast : twoDeals.getTotalPoints .east = -13 := by decide +kernel
  refine ⟨by decide +kernel, hwinner, hsouth, heast, fun h => ?_⟩
  have hbest : twoDeals.getTotalPoints .south ≤ twoDeals.getTotalPoints twoDeals.getWinner :=
    h.winner.2 0 (by norm_num)
  rw [hwinner, hsouth, heast] at hbest
  omega

end TarotClub.Score
