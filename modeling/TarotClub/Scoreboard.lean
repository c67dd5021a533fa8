import TarotClub.DealReplay
import TarotClub.DealResults
import TarotClub.DealTotals
import TarotClub.PartnerSplit
import TarotClub.Podium
import TarotClub.Tournament

namespace TarotClub

open Machine
open Finset (range)

namespace Points

/-- Points that a deal can bring. -/
structure Possible (p : Points) : Prop where
  attack : 0 ≤ p.pointsAttack ∧ p.pointsAttack ≤ 91
  handles : 0 ≤ p.handlePoints ∧ p.handlePoints ≤ 80

variable {p : Points}

theorem Possible.abs_difference_le (h : p.Possible) : |p.difference| ≤ 56 := by
  have htodo : 36 ≤ pointsToDo (p.oudlers % 256).toNat ∧
      pointsToDo (p.oudlers % 256).toNat ≤ 56 := by
    unfold pointsToDo
    split <;> decide
  obtain ⟨hlow, hhigh⟩ := h.attack
  rw [difference, abs_le]
  constructor <;> omega

theorem abs_getLittleEndianPoints_le (p : Points) : |p.getLittleEndianPoints| ≤ 10 := by
  unfold getLittleEndianPoints
  split
  · split_ifs <;> decide
  · split_ifs <;> decide
  · decide

theorem abs_getSlamPoints_le (p : Points) (bid : Bid) : |p.getSlamPoints bid| ≤ 400 := by
  unfold getSlamPoints
  split_ifs <;> decide

theorem getMultiplier_bounds (c : Contract) : 0 ≤ getMultiplier c ∧ getMultiplier c ≤ 6 := by
  cases c <;> decide

/-- What an opponent pays or gets: six times 91 points at most, and the bonuses. -/
theorem Possible.abs_exactShare_le (h : p.Possible) (bid : Bid) : |p.exactShare bid| ≤ 1026 := by
  have hdifference := h.abs_difference_le
  obtain ⟨hlittle, hlittle'⟩ := abs_le.mp p.abs_getLittleEndianPoints_le
  obtain ⟨hslam, hslam'⟩ := abs_le.mp (p.abs_getSlamPoints_le bid)
  obtain ⟨hhandles, hhandles'⟩ := h.handles
  obtain ⟨hpos, hsix⟩ := getMultiplier_bounds bid.contract
  have hbase : |25 + |p.difference| + p.getLittleEndianPoints| ≤ 91 := by
    rw [abs_le]
    have := abs_nonneg p.difference
    constructor <;> omega
  have hproduct : |(25 + |p.difference| + p.getLittleEndianPoints) * getMultiplier bid.contract| ≤
      546 := by
    calc |(25 + |p.difference| + p.getLittleEndianPoints) * getMultiplier bid.contract|
        = |25 + |p.difference| + p.getLittleEndianPoints| * getMultiplier bid.contract := by
          rw [abs_mul, abs_of_nonneg hpos]
      _ ≤ 91 * 6 := mul_le_mul hbase hsix hpos (by norm_num)
      _ = 546 := by norm_num
  have hexact : |p.exactScore bid| ≤ 1026 := by
    obtain ⟨hlow, hhigh⟩ := abs_le.mp hproduct
    rw [exactScore, abs_le]
    constructor <;> omega
  rw [exactShare]
  split_ifs
  · exact hexact
  · rwa [abs_neg]

theorem opponents_bounds {n : ℕ} (hn : n = 3 ∨ n = 4 ∨ n = 5) {bid : Bid}
    (hpartner : n < 5 → bid.partner = .nowhere) : 2 ≤ opponents bid n ∧ opponents bid n ≤ 4 := by
  by_cases hhas : bid.hasPartner = true
  · have hfive : n = 5 := by
      by_contra hne
      rw [Bid.hasPartner, hpartner (by omega)] at hhas
      simp [Place.isValid] at hhas
    rw [opponents, if_pos hhas, hfive]
    norm_num
  · rw [opponents, if_neg hhas]
    omega

/-- What the attack gets is far from the limits of a 32-bit value. -/
theorem Possible.abs_attack_le (h : p.Possible) {n : ℕ} (hn : n = 3 ∨ n = 4 ∨ n = 5) {bid : Bid}
    (hpartner : n < 5 → bid.partner = .nowhere) :
    |p.exactShare bid * opponents bid n| ≤ 4104 := by
  obtain ⟨htwo, hfour⟩ := opponents_bounds hn hpartner
  calc |p.exactShare bid * opponents bid n| = |p.exactShare bid| * opponents bid n := by
        rw [abs_mul, abs_of_nonneg (by omega : 0 ≤ opponents bid n)]
    _ ≤ 1026 * 4 := mul_le_mul (h.abs_exactShare_le bid) hfour (by omega) (by norm_num)
    _ = 4104 := by norm_num

theorem Possible.fits (h : p.Possible) {n : ℕ} (hn : n = 3 ∨ n = 4 ∨ n = 5) {bid : Bid}
    (hpartner : n < 5 → bid.partner = .nowhere) : p.Fits bid n := by
  obtain ⟨hlow, hhigh⟩ := abs_le.mp (h.abs_attack_le hn hpartner)
  rw [Fits]
  constructor <;> omega

end Points

namespace Score

variable {n : ℕ} {s : Score} {points : Points} {bid : Bid}

/-- No entry of a row is larger than what four opponents pay. -/
theorem abs_dealScores_le (h : points.Possible) (hn : n = 3 ∨ n = 4 ∨ n = 5)
    (hpartner : n < 5 → bid.partner = .nowhere) (i : ℕ) :
    |dealScores points bid n i| ≤ 4104 := by
  have hshare := h.abs_exactShare_le bid
  have hall := h.abs_attack_le hn hpartner
  have hfits := h.fits hn hpartner
  have htwo := (Points.opponents_bounds hn hpartner).1
  have hattack := hfits.getPoints_attack htwo
  have hdefense := hfits.getPoints_defense htwo
  by_cases hhas : bid.hasPartner = true ∧ n = 5
  · obtain ⟨hhas, rfl⟩ := hhas
    have hopponents : Points.opponents bid 5 = 3 := by
      rw [Points.opponents, if_pos hhas]
      norm_num
    rw [hopponents] at hall
    obtain ⟨htaker, hother, hrest⟩ := partner_entries hhas (hall.trans (by norm_num))
    have hthirds := twoThirds_mul_three (k := points.exactShare bid) (hall.trans (by norm_num))
    have hbounds := abs_le.mp hshare
    have hsame : ∀ p : Place, Place.assign i = p →
        dealScores points bid 5 i = dealScores points bid 5 p.value := by
      rintro p rfl
      simp only [dealScores, Place.assign_value]
    rw [abs_le]
    by_cases hin : bid.InAttack i
    · rcases hin with htaker' | ⟨-, hpartner'⟩
      · rw [hsame _ htaker', htaker, hthirds]
        split_ifs <;> constructor <;> omega
      · rw [hsame _ hpartner', hother, hthirds]
        split_ifs <;> constructor <;> omega
    · rw [hrest i hin]
      constructor <;> omega
  · have hshared : ¬ (n = 5 ∧ bid.hasPartner = true) := fun hc => hhas ⟨hc.2, hc.1⟩
    have hpart : ¬ (n = 5 ∧ Place.assign i = bid.partner ∧ bid.hasPartner = true) :=
      fun hc => hhas ⟨hc.2.2, hc.1⟩
    rw [dealScores, if_neg hshared, if_neg hpart, hattack, hdefense]
    split_ifs
    · exact hall
    · rw [abs_neg]
      exact hshare.trans (by norm_num)

/-- What is on record of a deal of `n` players. -/
structure Credible (n : ℕ) (entry : ScoreEntry) : Prop where
  points : entry.points.Possible
  taker : entry.bid.taker.value < n
  partner : n < 5 → entry.bid.partner = .nowhere

/-- A score with a row for each deal on record. -/
structure Kept (n : ℕ) (s : Score) : Prop where
  length : s.mHistory.length = s.dealCounter
  room : s.dealCounter ≤ maxNumberOfTurns
  credible : ∀ entry ∈ s.mHistory, Credible n entry
  rows : ∀ k entry, s.mHistory[k]? = some entry → ∀ i < n,
    s.scores k i = dealScores entry.points entry.bid n i

theorem newGame_kept (n numberOfTurns : ℕ) : (newGame numberOfTurns).Kept n := by
  have hnil : (newGame numberOfTurns).mHistory = [] := rfl
  refine ⟨rfl, Nat.zero_le _, fun entry hmem => ?_, fun k entry hk => ?_⟩
  · rw [hnil] at hmem
    exact absurd hmem List.not_mem_nil
  · rw [hnil, List.getElem?_nil] at hk
    cases hk

/-- One more deal is put on record, and its row is written behind the others. -/
theorem Kept.addPoints (h : s.Kept n) (hroom : s.dealCounter < maxNumberOfTurns)
    (hentry : Credible n ⟨points, bid, n⟩) : (s.addPoints points bid n).2.Kept n := by
  have hcounter : (s.dealCounter + 1) % 2 ^ 32 = s.dealCounter + 1 := by
    apply Nat.mod_eq_of_lt
    rw [maxNumberOfTurns] at hroom
    omega
  refine ⟨?_, ?_, ?_, ?_⟩
  · change (s.mHistory ++ [_]).length = (s.dealCounter + 1) % 2 ^ 32
    rw [List.length_append, h.length, hcounter, List.length_singleton]
  · change (s.dealCounter + 1) % 2 ^ 32 ≤ maxNumberOfTurns
    rw [hcounter]
    exact hroom
  · intro entry hmem
    rcases List.mem_append.mp hmem with hold | hnew
    · exact h.credible entry hold
    · rw [List.mem_singleton.mp hnew]
      exact hentry
  · intro k entry hk i hi
    change (s.mHistory ++ [_])[k]? = some entry at hk
    by_cases hlast : k = s.dealCounter
    · rw [hlast, List.getElem?_append_right h.length.le, h.length, Nat.sub_self] at hk
      obtain rfl := Option.some.inj hk
      rw [hlast]
      exact addPoints_row s points bid hi
    · have hlt : k < s.mHistory.length := by
        have hlen := (List.getElem?_eq_some_iff.mp hk).1
        rw [List.length_append, List.length_singleton, h.length] at hlen
        rw [h.length]
        omega
      rw [List.getElem?_append_left hlt] at hk
      rw [← h.rows k entry hk i hi]
      exact congrFun (if_neg hlast) i

/-- The entry of a row that has been written. -/
theorem Kept.exists_entry (h : s.Kept n) {k : ℕ} (hk : k < s.dealCounter) :
    ∃ entry, Credible n entry ∧ ∀ i < n, s.scores k i = dealScores entry.points entry.bid n i := by
  have hlt : k < s.mHistory.length := h.length.symm ▸ hk
  exact ⟨s.mHistory[k], h.credible _ (List.getElem_mem hlt),
    h.rows k _ (List.getElem?_eq_getElem hlt)⟩

theorem Kept.sum_row (h : s.Kept n) (hn : n = 3 ∨ n = 4 ∨ n = 5) {k : ℕ} (hk : k < s.dealCounter) :
    ∑ i ∈ range n, s.scores k i = 0 := by
  obtain ⟨entry, hentry, hrow⟩ := h.exists_entry hk
  calc ∑ i ∈ range n, s.scores k i
      = ∑ i ∈ range n, dealScores entry.points entry.bid n i :=
        Finset.sum_congr rfl fun i hi => hrow i (Finset.mem_range.mp hi)
    _ = 0 := sum_dealScores hn hentry.taker hentry.partner (hentry.points.fits hn hentry.partner)

/-- A sum of 32-bit values that stays in their range is the exact sum. -/
theorem foldl_i32 {row : ℕ → ℤ} {bound : ℤ} {k : ℕ} (hrow : ∀ j < k, |row j| ≤ bound)
    (hfits : k * bound < 2 ^ 31) :
    (List.range k).foldl (fun total j => i32 (total + row j)) 0 = ∑ j ∈ range k, row j ∧
      |∑ j ∈ range k, row j| ≤ k * bound := by
  induction k with
  | zero => simp
  | succ k ih =>
    have hlast := hrow k k.lt_succ_self
    have hbound : 0 ≤ bound := (abs_nonneg _).trans hlast
    push_cast at hfits
    have hmul : ((k : ℤ) + 1) * bound = k * bound + bound := by ring
    obtain ⟨hfold, hsum⟩ := ih (fun j hj => hrow j (by omega)) (by omega)
    have hle : |∑ j ∈ range (k + 1), row j| ≤ k * bound + bound := by
      rw [Finset.sum_range_succ]
      exact (abs_add_le _ _).trans (add_le_add hsum hlast)
    obtain ⟨hlow, hhigh⟩ := abs_le.mp hle
    have hfit : FitsInt32 (∑ j ∈ range (k + 1), row j) := by
      constructor <;> omega
    refine ⟨?_, ?_⟩
    · rw [List.range_succ, List.foldl_append, List.foldl_cons, List.foldl_nil, hfold,
        ← Finset.sum_range_succ]
      exact hfit.i32_eq
    · push_cast
      rwa [hmul]

/-- The total of a player is what the deals have brought. -/
theorem Kept.getTotalPoints_eq (h : s.Kept n) (hn : n = 3 ∨ n = 4 ∨ n = 5) {i : ℕ} (hi : i < n) :
    s.getTotalPoints (Place.assign i) = ∑ k ∈ range s.dealCounter, s.scores k i := by
  have hrow : ∀ k < s.dealCounter, |s.scores k i| ≤ 4104 := by
    intro k hk
    obtain ⟨entry, hentry, hrow⟩ := h.exists_entry hk
    rw [hrow i hi]
    exact abs_dealScores_le hentry.points hn hentry.partner i
  have hfits : (s.dealCounter : ℤ) * 4104 < 2 ^ 31 := by
    have hroom := h.room
    rw [maxNumberOfTurns] at hroom
    omega
  rw [getTotalPoints, Place.value_assign (by omega)]
  exact (foldl_i32 hrow hfits).1

theorem Kept.sum_getTotalPoints (h : s.Kept n) (hn : n = 3 ∨ n = 4 ∨ n = 5) :
    ∑ i ∈ range n, s.getTotalPoints (Place.assign i) = 0 := by
  calc ∑ i ∈ range n, s.getTotalPoints (Place.assign i)
      = ∑ i ∈ range n, ∑ k ∈ range s.dealCounter, s.scores k i :=
        Finset.sum_congr rfl fun i hi => h.getTotalPoints_eq hn (Finset.mem_range.mp hi)
    _ = ∑ k ∈ range s.dealCounter, ∑ i ∈ range n, s.scores k i := Finset.sum_comm
    _ = 0 := Finset.sum_eq_zero fun k hk => h.sum_row hn (Finset.mem_range.mp hk)

/-- A score that holds the deals of its game and adds up. -/
structure Balanced (n : ℕ) (s : Score) : Prop where
  length : s.mHistory.length = s.dealCounter
  room : s.dealCounter ≤ maxNumberOfTurns
  rows : ∀ k entry, s.mHistory[k]? = some entry → ∀ i < n,
    s.scores k i = dealScores entry.points entry.bid n i
  row_sum : ∀ k < s.dealCounter, ∑ i ∈ range n, s.scores k i = 0
  total : ∀ i < n, s.getTotalPoints (Place.assign i) = ∑ k ∈ range s.dealCounter, s.scores k i
  total_sum : ∑ i ∈ range n, s.getTotalPoints (Place.assign i) = 0

theorem Kept.balanced (h : s.Kept n) (hn : n = 3 ∨ n = 4 ∨ n = 5) : s.Balanced n where
  length := h.length
  room := h.room
  rows := h.rows
  row_sum := fun _ hk => h.sum_row hn hk
  total := fun _ hi => h.getTotalPoints_eq hn hi
  total_sum := h.sum_getTotalPoints hn

end Score

theorem getHandlePoints_bounds (n : ℕ) (handle : Handle) :
    0 ≤ getHandlePoints n handle ∧ getHandlePoints n handle ≤ 40 := by
  unfold getHandlePoints
  cases handle <;> split_ifs <;> decide

/-- The points of a deal that has been scored, and its bid, can be put on record. -/
theorem Engine.Ledger.credible {n : ℕ} {plays : List (Card × Place)} {e : Engine}
    (h : e.Ledger n) (htotals : e.Totals) (htaken : e.Taken) (hphase : e.Phase n plays)
    (hs : e.mSequence = .waitForEndOfDeal) :
    Score.Credible n ⟨e.getCurrentGamePoints, e.mCtx.mBid, n⟩ := by
  obtain ⟨hlow, hhigh, -⟩ := htotals.bounds
  have hwhole := (htotals.scored hs).pointsAttack
  have htaker := htaken.taker_lt (hs ▸ rfl : e.mSequence.isPastAuction = true)
  rw [hphase.players] at htaker
  simp only [Engine.Ledger, hs] at h
  obtain ⟨ctx, hlogged, hctx, hpoints⟩ := h
  obtain ⟨hattack, hattack'⟩ :=
    getHandlePoints_bounds ctx.mNbPlayers (getHandleType ctx.mAttackHandle.size)
  obtain ⟨hdefense, hdefense'⟩ :=
    getHandlePoints_bounds ctx.mNbPlayers (getHandleType ctx.mDefenseHandle.size)
  have hhandles : e.mCurrentPoints.handlePoints =
      0 + getHandlePoints ctx.mNbPlayers (getHandleType ctx.mAttackHandle.size) +
        getHandlePoints ctx.mNbPlayers (getHandleType ctx.mDefenseHandle.size) :=
    congrArg Points.handlePoints hpoints
  refine ⟨⟨?_, ?_⟩, htaker, fun hn => ?_⟩
  · change 0 ≤ e.mCurrentPoints.pointsAttack ∧ e.mCurrentPoints.pointsAttack ≤ 91
    omega
  · change 0 ≤ e.mCurrentPoints.handlePoints ∧ e.mCurrentPoints.handlePoints ≤ 80
    omega
  · calc e.mCtx.mBid.partner = ctx.mBid.partner := congrArg (·.mBid.partner) hctx
      _ = .nowhere := hlogged.partner (by omega)

namespace PlayingTable

variable {n : ℕ}

/-- What holds between two calls at a table that keeps the score of short games. -/
structure KeepsScore (n : ℕ) (p : PlayingTable × ℕ) : Prop where
  inDeal : ∃ plays, p.1.InDeal n plays
  ledger : p.1.mEngine.Ledger n
  totals : p.1.mEngine.Totals
  counted : Counted p
  short : p.1.ShortGame
  score : p.1.mScore.Kept n

theorem rollover_kept {t : PlayingTable} (h : t.mScore.Kept n) : t.rollover.mScore.Kept n := by
  unfold rollover
  split_ifs
  · exact Score.newGame_kept n _
  · exact h

/-- The end of a deal puts it on record, whether or not there is another one. -/
theorem endOfDeal_kept (dealer : Dealer) {t : PlayingTable}
    (h : (t.mScore.addPoints t.mEngine.getCurrentGamePoints t.mEngine.mCtx.mBid
      t.nbPlayers).2.Kept n) : (t.endOfDeal dealer).table.mScore.Kept n := by
  simp only [endOfDeal]
  split_ifs
  · exact rollover_kept h
  · exact h

variable {t : PlayingTable} {done : ℕ}

/-- What a call does to the score. -/
theorem KeepsScore.score_step (h : KeepsScore n (t, done)) (c : Call) :
    (t.apply c).mScore.Kept n := by
  obtain ⟨plays, hdeal⟩ := h.inDeal
  have hturn := hdeal.toOpen.turn c
  rw [← respond_table]
  generalize t.respond c = r at hturn
  generalize t.action c = a at hturn
  cases hturn with
  | quiet _ _ hquiet _ =>
    rw [hquiet.mScore]
    exact h.score
  | newGame t' _ => exact Score.newGame_kept n _
  | newDeal dealer t' hsame _ _ _ =>
    apply rollover_kept
    rw [hsame.mScore]
    exact h.score
  | endOfDeal dealer t' hsame _ _ hseq =>
    have hcredible := h.ledger.credible h.totals hdeal.taken hdeal.phase hseq
    have hplayers : t'.nbPlayers = n := by
      rw [nbPlayers, hsame.mEngine]
      exact hdeal.players
    have hroom : t.mScore.dealCounter < maxNumberOfTurns := by
      obtain ⟨hcount, hlt, -⟩ := h.counted.dealt (by rw [hseq]; rfl)
      have hshort := h.short.2
      dsimp only at hcount hlt hshort
      omega
    apply endOfDeal_kept
    rw [hplayers, hsame.mScore, hsame.mEngine]
    exact h.score.addPoints hroom hcredible

theorem KeepsScore.step (h : KeepsScore n (t, done)) (hn : n = 3 ∨ n = 4 ∨ n = 5) {c : Call}
    (hfair : t.FairCall n c) (hasks : t.AsksShortGame c) :
    KeepsScore n (observe PlayingTable.apply noteDeals (t, done) c) := by
  obtain ⟨plays, hdeal⟩ := h.inDeal
  have hopen := hdeal.toOpen
  have henabled := hopen.action_enabled c
  have hnext := hdeal.apply hn hfair
  have hengine : (t.apply c).mEngine = t.mEngine.act (t.action c) := apply_mEngine t c
  have hphase : (t.mEngine.act (t.action c)).Phase n (t.notePlay c plays) :=
    hengine ▸ hnext.phase
  refine ⟨⟨_, hnext⟩, ?_, ?_, ?_, h.short.step hopen hasks, h.score_step c⟩
  · change (t.apply c).mEngine.Ledger n
    rw [hengine]
    exact h.ledger.act hdeal.phase hn henabled
  · change (t.apply c).mEngine.Totals
    rw [hengine]
    exact h.totals.act hdeal.phase hn henabled hphase
  · obtain ⟨hiff, hcounted⟩ := h.counted.step hopen c
    exact hcounted (hiff.mpr (h.short.hasTurnsLeft h.counted c))

theorem createTable_keepsScore {t : PlayingTable} (hscore : t.mScore = {}) (hshort : t.ShortGame)
    (hn : n = 3 ∨ n = 4 ∨ n = 5) (randomPlace : Place) :
    KeepsScore n (t.createTable n randomPlace, 0) where
  inDeal := ⟨[], t.createTable_inDeal randomPlace hn⟩
  ledger := trivial
  totals := ⟨⟨le_rfl, (by decide : (0 : ℤ) ≤ 2 * 91), Nat.zero_le 3⟩,
    fun hs => absurd hs Bool.false_ne_true, fun hs => by cases hs⟩
  counted := ⟨fun hdealt => absurd hdealt Bool.false_ne_true, fun hready => by cases hready⟩
  short := hshort
  score := by
    change t.mScore.Kept n
    rw [hscore]
    exact Score.newGame_kept n 5

/-- In every run of a new table whose games have between one and forty deals, the score has a row
for each deal on record, each row sums up to zero, no total of a player overflows, and the totals
of the players sum up to zero. -/
theorem totals_zero_sum {t : PlayingTable} (hscore : t.mScore = {}) (hshort : t.ShortGame)
    (hn : n = 3 ∨ n = 4 ∨ n = 5) (randomPlace : Place) {calls : List Call}
    (hdeals : ∀ c ∈ calls, c.DealsFairly n)
    (hbids : Guarded PlayingTable.apply BidCounts (t.createTable n randomPlace) calls)
    (hasks : Guarded PlayingTable.apply AsksShortGame (t.createTable n randomPlace) calls) :
    (run PlayingTable.apply (t.createTable n randomPlace) calls).mScore.Balanced n := by
  have hguard := guarded_observe noteDeals (p := (t.createTable n randomPlace, 0))
    ((guarded_fairCall hbids hdeals).and hasks)
  have hkeeps := hguard.invariant (KeepsScore n) (fun p c h hc => h.step hn hc.1 hc.2)
    (createTable_keepsScore hscore hshort hn randomPlace)
  have hkept := hkeeps.score
  rw [run_observe_fst] at hkept
  exact hkept.balanced hn

/-! The players ask for no game. -/

theorem asks_of_cmd {dealer : Dealer} {uuid : ℕ} {json : JsonValue}
    (hcmd : (json.findValue (str "cmd")).getString ≠ str "RequestNewGame") (t : PlayingTable) :
    t.AsksShortGame (.executeRequest dealer uuid json) :=
  fun hnew => absurd hnew hcmd

theorem everyone_asks (dealer : Dealer) (uuids : List ℕ) (step : Sequence) :
    ∀ c ∈ everyone dealer uuids step, ∀ t : PlayingTable, t.AsksShortGame c := by
  intro c hmem
  obtain ⟨uuid, -, rfl⟩ := List.mem_map.mp hmem
  exact asks_of_cmd (by rw [PlayerContext.sync_cmd]; decide)

theorem nextCalls_asks {dealer : Dealer} {contract : Contract} {uuids : List ℕ}
    {t : PlayingTable} : ∀ c ∈ nextCalls dealer contract uuids t, ∀ t' : PlayingTable,
      t'.AsksShortGame c := by
  intro c hmem
  simp only [nextCalls] at hmem
  split at hmem
  · rw [List.mem_singleton.mp hmem]
    exact asks_of_cmd (by rw [PlayerContext.buildReplyBid_cmd]; decide)
  · rw [List.mem_singleton.mp hmem]
    exact asks_of_cmd (by decide)
  · obtain ⟨card, -, rfl⟩ := Option.map_eq_some_iff.mp (Option.mem_toList.mp hmem)
    exact asks_of_cmd (by rw [PlayerContext.buildSendCard_cmd]; decide)
  · exact everyone_asks _ _ _ c hmem

/-- Three players sit down and play a game of one deal. -/
def oneDealCalls : List Call :=
  [.addPlayer 7, .addPlayer 8, .addPlayer 9] ++
    (answers PlayingTable.apply (nextCalls plainDealer .guardWithout [7, 8, 9]) 179 threePlayers ++
      lastCalls)

/-- What holds of sitting down, of the players' requests and of their acknowledgements holds of all
calls. -/
theorem forall_mem_oneDealCalls {P : Call → Prop} (hadd : ∀ uuid, P (.addPlayer uuid))
    (hnext : ∀ t, ∀ c ∈ nextCalls plainDealer .guardWithout [7, 8, 9] t, P c)
    (hsync : ∀ step, ∀ c ∈ everyone plainDealer [7, 8, 9] step, P c) :
    ∀ c ∈ oneDealCalls, P c := by
  simp only [oneDealCalls, lastCalls, List.forall_mem_append, List.forall_mem_cons]
  exact ⟨⟨hadd 7, hadd 8, hadd 9, by simp⟩, forall_mem_answers hnext 179 threePlayers,
    hsync _, hsync _⟩

theorem run_oneDealCalls : run PlayingTable.apply (({} : PlayingTable).createTable 3 .south)
    oneDealCalls = run PlayingTable.apply lastCardPlayed lastCalls := by
  rw [oneDealCalls, run_append, run_append]
  rfl

theorem totals_zero_sum_three :
    let s := (run PlayingTable.apply (({} : PlayingTable).createTable 3 .south) oneDealCalls).mScore
    s.dealCounter = 1 ∧ s.Balanced 3 := by
  have hfair : ∀ distribution, (plainDealer 3 distribution).Fair 3 := plainDealer_fair (.inl rfl)
  have hdeals : ∀ c ∈ oneDealCalls, c.DealsFairly 3 := forall_mem_oneDealCalls
    (fun _ => trivial) (nextCalls_dealsFairly hfair _ _) (everyone_dealsFairly hfair _)
  have hnamed : ∀ c ∈ oneDealCalls, c.NamesContract := forall_mem_oneDealCalls
    (fun _ => trivial) (nextCalls_named _ (by decide) _) (everyone_named _ _)
  have hasks : ∀ c ∈ oneDealCalls, ∀ t : PlayingTable, t.AsksShortGame c :=
    forall_mem_oneDealCalls (fun _ _ => trivial) (fun _ => nextCalls_asks)
      fun _ => everyone_asks _ _ _
  have hcounter := lastCalls_scored.2.2
  rw [← run_oneDealCalls] at hcounter
  exact ⟨hcounter, totals_zero_sum rfl ⟨le_rfl, by decide⟩ (.inl rfl) .south hdeals
    (guarded_bidCounts _ hnamed)
    ((guarded_of_forall _ _ _ _ hasks).mono fun t c hc => hc t)⟩

end PlayingTable

end TarotClub
