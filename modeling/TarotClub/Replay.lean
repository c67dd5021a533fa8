import TarotClub.AttackScore

namespace TarotClub

namespace Deck

variable {trick : Deck} {n : ℕ}

/-- Every card of a trick counts, and the Fool counts for nine half points. -/
theorem points_bounds (h : TarotContext.IsTrick n trick) :
    (n : ℤ) ≤ trick.points ∧ (trick.hasFool = true → (n : ℤ) + 8 ≤ trick.points) := by
  have hsum : ∀ l : List Card, (l.length : ℤ) ≤ (l.map Card.getPoints).sum ∧
      (Card.fool ∈ l → (l.length : ℤ) + 8 ≤ (l.map Card.getPoints).sum) := by
    intro l
    induction l with
    | nil => simp
    | cons c l ih =>
      obtain ⟨hle, hfool⟩ := ih
      have hc := c.getPoints_pos
      rw [List.length_cons, List.map_cons, List.sum_cons]
      refine ⟨by omega, fun hmem => ?_⟩
      rcases List.mem_cons.mp hmem with rfl | hmem
      · have h9 : Card.fool.getPoints = 9 := rfl
        omega
      · have hrest := hfool hmem
        omega
  have hall := hsum trick.mDeck
  rw [show trick.mDeck.length = n from h.size] at hall
  exact ⟨hall.1, fun hf => hall.2 (hasFool_iff.mp hf)⟩

end Deck

namespace TarotContext

/-- The partner of the taker, another seat, has won this trick. -/
def PartnerWins (ctx : TarotContext) (j : ℕ) : Prop :=
  ctx.mWinner j = ctx.mBid.partner ∧ ctx.mBid.partner ≠ ctx.mBid.taker

instance (ctx : TarotContext) (j : ℕ) : Decidable (ctx.PartnerWins j) :=
  inferInstanceAs (Decidable (_ ∧ _))

/-- What a decision about a trick brings to the attack, in half points. -/
def gain (ctx : TarotContext) (trick : Deck) (d : Place × Bool) : ℤ :=
  (if ctx.mBid.isAttack d.1 then trick.points else 0) + 8 * ctx.madeExchange d.1 d.2

section
variable (ctx : TarotContext) (lead : Place) {trick : Deck} {n k : ℕ}

theorem gain_mk (winner : Place) (foolSwap : Bool) :
    ctx.gain trick (winner, foolSwap) =
      if ctx.mBid.isAttack winner then trick.points - (if foolSwap then 8 else 0)
      else if foolSwap then 8 else 0 := by
  simp only [gain, madeExchange]
  cases ctx.mBid.isAttack winner <;> cases foolSwap <;> simp [sub_eq_add_neg]

/-- The winner and the player of the Fool are found on the same side. -/
theorem sameTeam_eq (winner foolPlace : Place) :
    decide (ctx.winnerTeam winner = ctx.foolTeam foolPlace) =
      (ctx.mBid.isAttack winner == decide (foolPlace = ctx.mBid.taker)) := by
  rw [winnerTeam_eq, foolTeam]
  cases ctx.mBid.isAttack winner <;> by_cases h : foolPlace = ctx.mBid.taker <;> simp [h]

theorem isAttack_taker : ctx.mBid.isAttack ctx.mBid.taker = true := by
  simp [Bid.isAttack]

/-- The winner has played the leading card, or it is the taker with the Fool. -/
theorem decided_fst :
    (ctx.decided n k lead trick).1 = winnerOf lead trick ∨
      (ctx.decided n k lead trick).1 = ctx.mBid.taker := by
  unfold decided foolRule
  split_ifs
  · exact .inr rfl
  · exact .inl rfl
  · exact .inl rfl
  · exact .inl rfl

theorem decided_of_no_fool (hfool : trick.hasFool = false) :
    ctx.decided n k lead trick = (winnerOf lead trick, false) := by
  rw [decided, hfool]
  rfl

theorem decided_of_fool (hfool : trick.hasFool = true)
    (hlast : k + 1 < numberOfCardsInHand n) :
    ctx.decided n k lead trick = (winnerOf lead trick,
      !(ctx.mBid.isAttack (winnerOf lead trick) ==
        decide (playedBy lead trick Card.fool = ctx.mBid.taker))) := by
  rw [decided_of_not_last ctx lead trick hlast, hfool, ← sameTeam_eq, Bool.true_and, decide_not]

/-- In the last trick the exchange goes the other way round, and the Fool may win a slam. -/
theorem decided_of_last_fool (hfool : trick.hasFool = true)
    (hlast : numberOfCardsInHand n ≤ k + 1) :
    ctx.decided n k lead trick =
      if ctx.mTricksWon = numberOfCardsInHand n - 1 ∧
          playedBy lead trick Card.fool = ctx.mBid.taker then (ctx.mBid.taker, false)
      else (winnerOf lead trick, ctx.mBid.isAttack (winnerOf lead trick) ==
        decide (playedBy lead trick Card.fool = ctx.mBid.taker)) := by
  have hdone : isDealFinished (k + 1) n = true := decide_eq_true hlast
  rw [decided, hfool, if_pos rfl, foolRule, if_pos hdone, ← sameTeam_eq]

end

/-- `loaded` is a context with the bid of `live`, but for the partner. -/
structure Forgets (live loaded : TarotContext) : Prop where
  taker : loaded.mBid.taker = live.mBid.taker
  partner : loaded.mBid.partner = .nowhere

variable {live loaded : TarotContext} {trick : Deck} {n k : ℕ} {lead : Place}

/-- A seat of the attack is one for both, unless it is the partner's. -/
theorem Forgets.isAttack (h : Forgets live loaded) {p : Place} (hp : p ≠ .nowhere) :
    live.mBid.isAttack p = (loaded.mBid.isAttack p ||
      decide (p = live.mBid.partner ∧ live.mBid.partner ≠ live.mBid.taker)) := by
  simp only [Bid.isAttack, h.taker, h.partner, hp, decide_false, Bool.or_false]
  by_cases ht : p = live.mBid.taker
  · simp [ht]
  · by_cases hpartner : p = live.mBid.partner
    · have hne : live.mBid.partner ≠ live.mBid.taker := hpartner ▸ ht
      simp [hpartner, hne]
    · simp [ht, hpartner]

/-- With as many tricks won the decision is the same, unless the partner wins. -/
theorem Forgets.decided_eq (h : Forgets live loaded) (hw : winnerOf lead trick ≠ .nowhere)
    (hwon : loaded.mTricksWon = live.mTricksWon)
    (hnot : ¬ ((live.decided n k lead trick).1 = live.mBid.partner ∧
      live.mBid.partner ≠ live.mBid.taker)) :
    loaded.decided n k lead trick = live.decided n k lead trick := by
  have hattack := h.isAttack hw
  cases hfool : trick.hasFool with
  | false => rw [decided_of_no_fool loaded lead hfool, decided_of_no_fool live lead hfool]
  | true =>
    by_cases hlast : k + 1 < numberOfCardsInHand n
    · rw [decided_of_fool live lead hfool hlast] at hnot
      rw [decide_eq_false hnot, Bool.or_false] at hattack
      rw [decided_of_fool loaded lead hfool hlast, decided_of_fool live lead hfool hlast, h.taker,
        hattack]
    · rw [decided_of_last_fool live lead hfool (not_lt.mp hlast)] at hnot ⊢
      rw [decided_of_last_fool loaded lead hfool (not_lt.mp hlast), h.taker, hwon]
      split_ifs at hnot ⊢ with hslam
      · rfl
      · rw [decide_eq_false hnot, Bool.or_false] at hattack
        rw [hattack]

theorem Forgets.isAttack_partner (h : Forgets live loaded) {p : Place} (hp : p ≠ .nowhere)
    (hwins : p = live.mBid.partner ∧ live.mBid.partner ≠ live.mBid.taker) :
    loaded.mBid.isAttack p = false ∧ live.mBid.isAttack p = true := by
  have hloaded : loaded.mBid.isAttack p = false := by
    have htaker : p ≠ live.mBid.taker := hwins.1 ▸ hwins.2
    simp [Bid.isAttack, h.taker, h.partner, hp, htaker]
  refine ⟨hloaded, ?_⟩
  rw [h.isAttack hp, decide_eq_true hwins, Bool.or_true]

/-- A trick that the leading card decides gives the same to the attack, and less where the partner
wins it. -/
theorem Forgets.gain_mk_le (h : Forgets live loaded) {w : Place} (hw : w ≠ .nowhere)
    (swap : Bool → Bool)
    (hpoints : 3 + (if swap false then 8 else 0) + (if swap true then 8 else 0) ≤ trick.points) :
    loaded.gain trick (w, swap (loaded.mBid.isAttack w)) +
      (if w = live.mBid.partner ∧ live.mBid.partner ≠ live.mBid.taker then 3 else 0) ≤
        live.gain trick (w, swap (live.mBid.isAttack w)) := by
  rw [gain_mk, gain_mk]
  by_cases hwins : w = live.mBid.partner ∧ live.mBid.partner ≠ live.mBid.taker
  · obtain ⟨hloaded, hlive⟩ := h.isAttack_partner hw hwins
    rw [if_pos hwins, hloaded, hlive, if_pos rfl, if_neg Bool.false_ne_true]
    omega
  · have hattack := h.isAttack hw
    rw [decide_eq_false hwins, Bool.or_false] at hattack
    rw [if_neg hwins, hattack, add_zero]

/-- A context that does not know the partner never gives more to the attack, and less for each
trick that the partner wins. -/
theorem Forgets.gain_le (h : Forgets live loaded) (hw : winnerOf lead trick ≠ .nowhere)
    (hwon : loaded.mTricksWon ≤ live.mTricksWon) (hk : live.mTricksWon ≤ k)
    (hT : k < numberOfCardsInHand n) (htrick : IsTrick n trick) (hn : 3 ≤ n) :
    let d := live.decided n k lead trick
    loaded.gain trick (loaded.decided n k lead trick) +
      (if d.1 = live.mBid.partner ∧ live.mBid.partner ≠ live.mBid.taker then 3 else 0) ≤
        live.gain trick d := by
  intro d
  obtain ⟨hpoints, hfoolpoints⟩ := Deck.points_bounds htrick
  cases hfool : trick.hasFool with
  | false =>
    have hd : d = (winnerOf lead trick, false) := decided_of_no_fool live lead hfool
    rw [hd, decided_of_no_fool loaded lead hfool]
    exact h.gain_mk_le hw (fun _ => false) (by simp; omega)
  | true =>
    have hfp := hfoolpoints hfool
    by_cases hlast : k + 1 < numberOfCardsInHand n
    · have hd := decided_of_fool live lead hfool hlast
      rw [show d = _ from hd, decided_of_fool loaded lead hfool hlast, h.taker]
      generalize decide (playedBy lead trick Card.fool = live.mBid.taker) = byTaker
      exact h.gain_mk_le hw (fun a => !(a == byTaker)) (by cases byTaker <;> simp <;> omega)
    · have hd := decided_of_last_fool live lead hfool (not_lt.mp hlast)
      rw [show d = _ from hd, decided_of_last_fool loaded lead hfool (not_lt.mp hlast), h.taker]
      by_cases hslam : live.mTricksWon = numberOfCardsInHand n - 1 ∧
          playedBy lead trick Card.fool = live.mBid.taker
      · have hnot : ¬ (live.mBid.taker = live.mBid.partner ∧
            live.mBid.partner ≠ live.mBid.taker) := fun hboth => hboth.2 hboth.1.symm
        have htaker : ∀ ctx : TarotContext, ctx.gain trick (ctx.mBid.taker, false) = trick.points :=
          fun ctx => by rw [gain_mk, isAttack_taker ctx, if_pos rfl, if_neg Bool.false_ne_true,
            sub_zero]
        rw [if_pos hslam, if_neg hnot, htaker live, add_zero]
        by_cases hslam' : loaded.mTricksWon = numberOfCardsInHand n - 1 ∧
            playedBy lead trick Card.fool = live.mBid.taker
        · rw [if_pos hslam', ← h.taker, htaker loaded]
        · rw [if_neg hslam', gain_mk, decide_eq_true hslam.2]
          cases loaded.mBid.isAttack (winnerOf lead trick) <;> simp
          omega
      · have hslam' : ¬ (loaded.mTricksWon = numberOfCardsInHand n - 1 ∧
            playedBy lead trick Card.fool = live.mBid.taker) := fun hboth =>
          hslam ⟨by omega, hboth.2⟩
        rw [if_neg hslam, if_neg hslam']
        generalize decide (playedBy lead trick Card.fool = live.mBid.taker) = byTaker
        exact h.gain_mk_le hw (fun a => a == byTaker) (by cases byTaker <;> simp <;> omega)

/-- What counts for the context that does not know the partner counts for the other one. -/
theorem Forgets.isAttack_decided (h : Forgets live loaded) (hw : winnerOf lead trick ≠ .nowhere)
    (hwon : loaded.mTricksWon ≤ live.mTricksWon) (hk : live.mTricksWon ≤ k)
    (hT : k < numberOfCardsInHand n)
    (hd : loaded.mBid.isAttack (loaded.decided n k lead trick).1 = true) :
    live.mBid.isAttack (live.decided n k lead trick).1 = true := by
  have hleader : loaded.mBid.isAttack (winnerOf lead trick) = true →
      live.mBid.isAttack (winnerOf lead trick) = true := fun ha => by
    rw [h.isAttack hw, ha, Bool.true_or]
  cases hfool : trick.hasFool with
  | false =>
    rw [decided_of_no_fool loaded lead hfool] at hd
    rw [decided_of_no_fool live lead hfool]
    exact hleader hd
  | true =>
    by_cases hlast : k + 1 < numberOfCardsInHand n
    · rw [decided_of_fool loaded lead hfool hlast] at hd
      rw [decided_of_fool live lead hfool hlast]
      exact hleader hd
    · rw [decided_of_last_fool loaded lead hfool (not_lt.mp hlast), h.taker] at hd
      rw [decided_of_last_fool live lead hfool (not_lt.mp hlast)]
      by_cases hslam : live.mTricksWon = numberOfCardsInHand n - 1 ∧
          playedBy lead trick Card.fool = live.mBid.taker
      · rw [if_pos hslam]
        exact isAttack_taker live
      · have hslam' : ¬ (loaded.mTricksWon = numberOfCardsInHand n - 1 ∧
            playedBy lead trick Card.fool = live.mBid.taker) := fun hboth =>
          hslam ⟨by omega, hboth.2⟩
        rw [if_neg hslam'] at hd
        rw [if_neg hslam]
        exact hleader hd

theorem creditTrick_won (ctx : TarotContext) (turn : ℕ) (winner : Place) (foolSwap : Bool) :
    (ctx.creditTrick turn winner foolSwap).mTricksWon =
      ctx.mTricksWon + if ctx.mBid.isAttack winner then 1 else 0 := by
  by_cases hw : winner = ctx.mBid.taker ∨ winner = ctx.mBid.partner
  · have ha : ctx.mBid.isAttack winner = true := by simpa [Bid.isAttack] using hw
    simp only [creditTrick, if_pos hw, ha, if_true]
  · have ha : ctx.mBid.isAttack winner = false := by simpa [Bid.isAttack] using hw
    simp only [creditTrick, if_neg hw, ha, Bool.false_eq_true, if_false, add_zero]

/-- The statistics depend on the cards of the trick and on the side of the winner. -/
theorem creditTrick_stats_congr (live loaded : TarotContext) (turn : ℕ) {winner : Place}
    (foolSwap : Bool)
    (ha : loaded.mBid.isAttack winner = live.mBid.isAttack winner)
    (hstats : loaded.mStatsAttack = live.mStatsAttack)
    (hcards : (loaded.mTricks turn).mDeck = (live.mTricks turn).mDeck) :
    (loaded.creditTrick turn winner foolSwap).mStatsAttack =
      (live.creditTrick turn winner foolSwap).mStatsAttack := by
  have htrumps : (loaded.mTricks turn).analyzeTrumps loaded.mStatsAttack =
      (live.mTricks turn).analyzeTrumps live.mStatsAttack := by
    simp only [Deck.analyzeTrumps, Deck.size, hcards, hstats]
  by_cases hw : winner = live.mBid.taker ∨ winner = live.mBid.partner
  · have hlive : live.mBid.isAttack winner = true := by simpa [Bid.isAttack] using hw
    have hw' : winner = loaded.mBid.taker ∨ winner = loaded.mBid.partner := by
      simpa [Bid.isAttack] using ha.trans hlive
    simp only [creditTrick, if_pos hw, if_pos hw', htrumps]
  · have hlive : live.mBid.isAttack winner = false := by simpa [Bid.isAttack] using hw
    have hw' : ¬ (winner = loaded.mBid.taker ∨ winner = loaded.mBid.partner) := by
      simpa [Bid.isAttack] using ha.trans hlive
    simp only [creditTrick, if_neg hw, if_neg hw', hstats]

/-- Storing a trick, read off its decision. -/
theorem IsTrick.setTrick_summary (ctx : TarotContext) (h : IsTrick n trick) (h2 : 2 ≤ n)
    (h5 : n ≤ 5) (hk : k < 24) :
    let r := (ctx.setTrick trick (k + 1)).2
    let d := ctx.decided n k (ctx.leadOf k) trick
    r.mTricks = Function.update ctx.mTricks k
        (trick.setOwner (if ctx.mBid.isAttack d.1 then .attack else .defense)) ∧
      r.mWinner = Function.update ctx.mWinner k d.1 ∧
      r.mTricksWon = ctx.mTricksWon + (if ctx.mBid.isAttack d.1 then 1 else 0) ∧
      r.mStatsAttack.points = ctx.mStatsAttack.points + ctx.gain trick d := by
  intro r d
  obtain ⟨htricks, hwinner, -⟩ := setTrick_frame ctx trick hk
  have hset := h.setTrick_decided ctx h2 h5 hk
  have hd : (ctx.setTrick trick (k + 1)).1 = d.1 := congrArg Prod.fst hset
  have hr : r = _ := congrArg Prod.snd hset
  rw [hd, winnerTeam_eq] at htricks
  rw [hd] at hwinner
  refine ⟨htricks, hwinner, ?_, ?_⟩
  · rw [hr, creditTrick_won]
  · rw [hr, creditTrick_points]
    dsimp only
    rw [Function.update_self]
    rfl

/-- Nothing is lost: the partner has not won any of the first `k` tricks. -/
structure Level (k : ℕ) (live loaded : TarotContext) : Prop where
  stats : loaded.mStatsAttack = live.mStatsAttack
  won : loaded.mTricksWon = live.mTricksWon
  tricks : ∀ j < k, loaded.mTricks j = live.mTricks j
  partner : ∀ j < k, ¬ live.PartnerWins j

/-- The partner has won one of the first `k` tricks, and the attack misses points. -/
structure Behind (k : ℕ) (live loaded : TarotContext) : Prop where
  won : loaded.mTricksWon ≤ live.mTricksWon
  points : loaded.mStatsAttack.points + 3 ≤ live.mStatsAttack.points
  partner : ∃ j < k, live.PartnerWins j

/-- `k` tricks are stored in both contexts. -/
structure Tracks (n k : ℕ) (live loaded : TarotContext) : Prop
    extends Forgets live loaded where
  first : loaded.mFirstPlayer = live.mFirstPlayer
  tricks : ∀ j < 24, (loaded.mTricks j).mDeck = (live.mTricks j).mDeck
  owned : ∀ j < k, (live.mTricks j).mOwner ≠ .noTeam
  seats : ∀ j < k, live.mWinner j ≠ .nowhere
  winner : k < numberOfCardsInHand n → ∀ j < k, loaded.mWinner j = live.mWinner j
  won : live.mTricksWon ≤ k
  score : Level k live loaded ∨ Behind k live loaded

theorem Tracks.leadOf (h : Tracks n k live loaded) (hT : k < numberOfCardsInHand n) :
    loaded.leadOf k = live.leadOf k := by
  simp only [TarotContext.leadOf, h.first]
  split_ifs with h0
  · rfl
  · exact h.winner hT (k - 1) (by omega)

theorem Tracks.won_le (h : Tracks n k live loaded) :
    loaded.mTricksWon ≤ live.mTricksWon := by
  rcases h.score with hlevel | hbehind
  · exact hlevel.won.le
  · exact hbehind.won

theorem winnerOf_ne_nowhere (h : IsTrick n trick) (h5 : n ≤ 5) (hlead : lead.value < n) :
    winnerOf lead trick ≠ .nowhere := by
  intro hw
  have hlt := seatAfter_lt h5 hlead (trick.mDeck.idxOf (trickLeader trick))
  rw [winnerOf, playedBy, h.size] at hw
  rw [hw] at hlt
  have hvalue : Place.nowhere.value = 5 := rfl
  omega

theorem decided_ne_nowhere {ctx : TarotContext} (h : IsTrick n trick) (h5 : n ≤ 5)
    (hlead : lead.value < n) (htaker : ctx.mBid.taker ≠ .nowhere) :
    (ctx.decided n k lead trick).1 ≠ .nowhere := by
  rcases @decided_fst ctx lead trick n k with hd | hd
  · rw [hd]
    exact winnerOf_ne_nowhere h h5 hlead
  · rw [hd]
    exact htaker

/-- Of the stored tricks only the last one is new. -/
theorem partnerWins_update {r : TarotContext} {winner : Place} (hbid : r.mBid = live.mBid)
    (hwinner : r.mWinner = Function.update live.mWinner k winner) (j : ℕ) :
    r.PartnerWins j ↔ if j = k then
        winner = live.mBid.partner ∧ live.mBid.partner ≠ live.mBid.taker
      else live.PartnerWins j := by
  rw [PartnerWins, hbid, hwinner]
  by_cases hjk : j = k
  · rw [hjk, Function.update_self, if_pos rfl]
  · rw [Function.update_of_ne hjk, if_neg hjk]
    rfl

/-! Both contexts store the next trick. -/

section
variable (h : Tracks n k live loaded) (ht : IsTrick n trick) (h3 : 3 ≤ n) (h5 : n ≤ 5)
  (hT : k < numberOfCardsInHand n) (hk : k < 24) (owner : Team)
include h ht h3 h5 hT hk

/-- What storing the trick changes in the context that does not know the partner. -/
theorem Tracks.loaded_summary :
    let r := (loaded.setTrick (trick.setOwner owner) (k + 1)).2
    let d := loaded.decided n k (live.leadOf k) trick
    r.mTricks = Function.update loaded.mTricks k
        (trick.setOwner (if loaded.mBid.isAttack d.1 then .attack else .defense)) ∧
      r.mWinner = Function.update loaded.mWinner k d.1 ∧
      r.mTricksWon = loaded.mTricksWon + (if loaded.mBid.isAttack d.1 then 1 else 0) ∧
      r.mStatsAttack.points = loaded.mStatsAttack.points + loaded.gain trick d := by
  have ht' : IsTrick n (trick.setOwner owner) := ⟨ht.size, ht.valid, ht.nodup⟩
  have hsummary := ht'.setTrick_summary loaded (by omega) h5 hk
  rw [h.leadOf hT] at hsummary
  exact hsummary

variable (hlead : (live.leadOf k).value < n)
include hlead

/-- Once the partner has won a trick the attack misses points, and it never makes them up. -/
theorem Tracks.setTrick_behind
    (hwins : ((live.decided n k (live.leadOf k) trick).1 = live.mBid.partner ∧
      live.mBid.partner ≠ live.mBid.taker) ∨ Behind k live loaded) :
    Behind (k + 1) (live.setTrick trick (k + 1)).2
      (loaded.setTrick (trick.setOwner owner) (k + 1)).2 := by
  have hw := winnerOf_ne_nowhere ht h5 hlead
  have hle := h.won_le
  obtain ⟨-, hwinner, hwon, hpoints⟩ := ht.setTrick_summary live (by omega) h5 hk
  obtain ⟨-, -, hwon', hpoints'⟩ := h.loaded_summary ht h3 h5 hT hk owner
  obtain ⟨-, -, hbid, -⟩ := setTrick_frame live trick hk
  have hpartner := partnerWins_update hbid hwinner
  have hgain := h.gain_le hw hle h.won hT ht h3
  have hcount := h.isAttack_decided hw hle h.won hT
  dsimp only at hgain
  refine ⟨?_, ?_, ?_⟩
  · rw [hwon, hwon']
    split_ifs with hl hr hr
    · omega
    · exact absurd (hcount hl) hr
    · omega
    · omega
  · rw [hpoints, hpoints']
    rcases hwins with hnow | hbefore
    · rw [if_pos hnow] at hgain
      have hold : loaded.mStatsAttack.points ≤ live.mStatsAttack.points := by
        rcases h.score with hlevel | hbehind
        · rw [hlevel.stats]
        · have := hbehind.points
          omega
      omega
    · have hold := hbefore.points
      split_ifs at hgain <;> omega
  · rcases hwins with hnow | hbefore
    · refine ⟨k, Nat.lt_succ_self k, (hpartner k).mpr ?_⟩
      rw [if_pos rfl]
      exact hnow
    · obtain ⟨j, hj, hold⟩ := hbefore.partner
      refine ⟨j, Nat.lt_succ_of_lt hj, (hpartner j).mpr ?_⟩
      rw [if_neg hj.ne]
      exact hold

/-- As long as the partner wins nothing, nothing is lost. -/
theorem Tracks.setTrick_level (htaker : live.mBid.taker ≠ .nowhere)
    (hnot : ¬ ((live.decided n k (live.leadOf k) trick).1 = live.mBid.partner ∧
      live.mBid.partner ≠ live.mBid.taker)) (hlevel : Level k live loaded) :
    Level (k + 1) (live.setTrick trick (k + 1)).2
      (loaded.setTrick (trick.setOwner owner) (k + 1)).2 := by
  have hw := winnerOf_ne_nowhere ht h5 hlead
  obtain ⟨htricks, hwinner, hwon, -⟩ := ht.setTrick_summary live (by omega) h5 hk
  obtain ⟨htricks', -, hwon', -⟩ := h.loaded_summary ht h3 h5 hT hk owner
  obtain ⟨-, -, hbid, -⟩ := setTrick_frame live trick hk
  have hpartner := partnerWins_update hbid hwinner
  have hset := ht.setTrick_decided live (by omega) h5 hk
  have hset' := (show IsTrick n (trick.setOwner owner) from
    ⟨ht.size, ht.valid, ht.nodup⟩).setTrick_decided loaded (by omega) h5 hk
  have hsame := h.decided_eq hw hlevel.won hnot
  have hattack := h.isAttack (decided_ne_nowhere (k := k) ht h5 hlead htaker)
  rw [decide_eq_false hnot, Bool.or_false] at hattack
  rw [h.leadOf hT] at hset'
  rw [hsame] at htricks' hwon'
  refine ⟨?_, ?_, fun j hj => ?_, fun j hj => ?_⟩
  · have hcredit := creditTrick_stats_congr
      { live with mTricks := Function.update live.mTricks k trick }
      { loaded with mTricks := Function.update loaded.mTricks k (trick.setOwner owner) }
      k (live.decided n k (live.leadOf k) trick).2 hattack.symm hlevel.stats (by
        dsimp only
        rw [Function.update_self, Function.update_self]
        rfl)
    rw [hset, hset']
    dsimp only
    rw [show loaded.decided n k (live.leadOf k) (trick.setOwner owner) = _ from hsame]
    exact hcredit
  · rw [hwon', hwon, hlevel.won, hattack]
  · rw [htricks', htricks, ← hattack]
    by_cases hjk : j = k
    · rw [hjk, Function.update_self, Function.update_self]
    · rw [Function.update_of_ne hjk, Function.update_of_ne hjk]
      exact hlevel.tricks j (by omega)
  · rw [hpartner j]
    split_ifs with hjk
    · exact hnot
    · exact hlevel.partner j (by omega)

/-- Storing the next trick in both contexts. -/
theorem Tracks.setTrick (htaker : live.mBid.taker ≠ .nowhere) :
    Tracks n (k + 1) (live.setTrick trick (k + 1)).2
      (loaded.setTrick (trick.setOwner owner) (k + 1)).2 := by
  obtain ⟨htricks, hwinner, hwon, -⟩ := ht.setTrick_summary live (by omega) h5 hk
  obtain ⟨htricks', hwinner', -, -⟩ := h.loaded_summary ht h3 h5 hT hk owner
  obtain ⟨-, -, hbid, -, -, hfirst, -⟩ := setTrick_frame live trick hk
  obtain ⟨-, -, hbid', -, -, hfirst', -⟩ := setTrick_frame loaded (trick.setOwner owner) hk
  refine
    { taker := by rw [hbid', hbid, h.taker]
      partner := by rw [hbid', h.partner]
      first := by rw [hfirst', hfirst, h.first]
      tricks := fun j hj => ?_
      owned := fun j hj => ?_
      seats := fun j hj => ?_
      winner := fun hnext j hj => ?_
      won := ?_
      score := ?_ }
  · rw [htricks', htricks]
    by_cases hjk : j = k
    · rw [hjk, Function.update_self, Function.update_self]
      rfl
    · rw [Function.update_of_ne hjk, Function.update_of_ne hjk, h.tricks j hj]
  · rw [htricks]
    by_cases hjk : j = k
    · rw [hjk, Function.update_self]
      unfold Deck.setOwner
      split_ifs
      · exact Team.noConfusion
      · exact Team.noConfusion
    · rw [Function.update_of_ne hjk]
      exact h.owned j (by omega)
  · rw [hwinner]
    by_cases hjk : j = k
    · rw [hjk, Function.update_self]
      exact decided_ne_nowhere ht h5 hlead htaker
    · rw [Function.update_of_ne hjk]
      exact h.seats j (by omega)
  · rw [hwinner', hwinner, decided_of_not_last live _ _ hnext,
      decided_of_not_last loaded _ _ hnext]
    by_cases hjk : j = k
    · rw [hjk, Function.update_self, Function.update_self]
    · rw [Function.update_of_ne hjk, Function.update_of_ne hjk]
      exact h.winner hT j (by omega)
  · have hold := h.won
    rw [hwon]
    push_cast
    split_ifs <;> omega
  · by_cases hwins : (live.decided n k (live.leadOf k) trick).1 = live.mBid.partner ∧
        live.mBid.partner ≠ live.mBid.taker
    · exact .inr (h.setTrick_behind ht h3 h5 hT hk owner hlead (.inl hwins))
    · rcases h.score with hlevel | hbehind
      · exact .inl (h.setTrick_level ht h3 h5 hT hk owner hlead htaker hwins hlevel)
      · exact .inr (h.setTrick_behind ht h3 h5 hT hk owner hlead (.inr hbehind))

end

theorem setTricks_append (ctx : TarotContext) (k : ℕ) (xs ys : List Deck) :
    ctx.setTricks k (xs ++ ys) = (ctx.setTricks k xs).setTricks (k + xs.length) ys := by
  induction xs generalizing ctx k with
  | nil => rfl
  | cons x xs ih =>
    rw [List.cons_append, setTricks, ih, setTricks, List.length_cons]
    congr 1
    omega

/-- What a context knows when the deal begins, without the partner. -/
def opening (ctx : TarotContext) : TarotContext :=
  { mBid := { ctx.mBid with partner := .nowhere }, mFirstPlayer := ctx.mFirstPlayer }

/-- The first `k` stored tricks, played again. -/
def replay (ctx : TarotContext) (k : ℕ) : TarotContext :=
  ctx.opening.setTricks 0 ((List.range k).map fun j => (ctx.mTricks j).setOwner .noTeam)

theorem replay_congr {ctx r : TarotContext} (hopening : r.opening = ctx.opening)
    (htricks : ∀ j < k, (r.mTricks j).mDeck = (ctx.mTricks j).mDeck) :
    r.replay k = ctx.replay k := by
  rw [replay, replay, hopening]
  congr 1
  refine List.map_congr_left fun j hj => ?_
  rw [Deck.setOwner, Deck.setOwner, htricks j (List.mem_range.mp hj)]

theorem replay_succ (ctx : TarotContext) (k : ℕ) :
    ctx.replay (k + 1) =
      ((ctx.replay k).setTrick ((ctx.mTricks k).setOwner .noTeam) (k + 1)).2 := by
  rw [replay, List.range_succ, List.map_append, setTricks_append, List.length_map,
    List.length_range, Nat.zero_add]
  rfl

/-- A context with `k` tricks whose replay keeps up with it. -/
def Recorded (n k : ℕ) (ctx : TarotContext) : Prop := Tracks n k ctx (ctx.replay k)

/-- A context without any tricks. -/
theorem Recorded.start {ctx : TarotContext} (hstats : ctx.mStatsAttack = {})
    (hwon : ctx.mTricksWon = 0) (htricks : ∀ j < 24, (ctx.mTricks j).mDeck = []) :
    Recorded n 0 ctx where
  taker := rfl
  partner := rfl
  first := rfl
  tricks := fun j hj => (htricks j hj).symm
  owned := fun j hj => absurd hj (Nat.not_lt_zero j)
  seats := fun j hj => absurd hj (Nat.not_lt_zero j)
  winner := fun _ j hj => absurd hj (Nat.not_lt_zero j)
  won := hwon.le
  score := .inl ⟨hstats.symm, hwon.symm, fun j hj => absurd hj (Nat.not_lt_zero j),
    fun j hj => absurd hj (Nat.not_lt_zero j)⟩

/-- What is not part of the play may change. -/
theorem Recorded.congr {ctx r : TarotContext} (h : Recorded n k ctx)
    (hbid : r.mBid = ctx.mBid) (hfirst : r.mFirstPlayer = ctx.mFirstPlayer)
    (htricks : r.mTricks = ctx.mTricks) (hwinner : r.mWinner = ctx.mWinner)
    (hwon : r.mTricksWon = ctx.mTricksWon) (hstats : r.mStatsAttack = ctx.mStatsAttack) :
    Recorded n k r := by
  have hopening : r.opening = ctx.opening := by rw [opening, opening, hbid, hfirst]
  have hreplay : r.replay k = ctx.replay k :=
    replay_congr hopening fun j _ => by rw [htricks]
  obtain ⟨⟨htaker, hpartner⟩, hlead, hcards, howned, hseats, hwinners, hcount, hscore⟩ := h
  rw [Recorded, hreplay]
  refine ⟨⟨hbid ▸ htaker, hpartner⟩, hfirst ▸ hlead, htricks ▸ hcards, htricks ▸ howned,
    hwinner ▸ hseats, hwinner ▸ hwinners, hwon ▸ hcount, ?_⟩
  rcases hscore with hlevel | hbehind
  · refine .inl ⟨hstats ▸ hlevel.stats, hwon ▸ hlevel.won, htricks ▸ hlevel.tricks, ?_⟩
    simp only [PartnerWins, hbid, hwinner]
    exact hlevel.partner
  · refine .inr ⟨hwon ▸ hbehind.won, hstats ▸ hbehind.points, ?_⟩
    simp only [PartnerWins, hbid, hwinner]
    exact hbehind.partner

/-- Storing a trick keeps the record. -/
theorem Recorded.setTrick {ctx : TarotContext} (h : Recorded n k ctx) (ht : IsTrick n trick)
    (h3 : 3 ≤ n) (h5 : n ≤ 5) (hT : k < numberOfCardsInHand n) (hk : k < 24)
    (hlead : (ctx.leadOf k).value < n) (htaker : ctx.mBid.taker ≠ .nowhere) :
    Recorded n (k + 1) (ctx.setTrick trick (k + 1)).2 := by
  obtain ⟨htricks, -, hbid, -, -, hfirst, -⟩ := setTrick_frame ctx trick hk
  have hopening : (ctx.setTrick trick (k + 1)).2.opening = ctx.opening := by
    rw [opening, opening, hbid, hfirst]
  have hbefore : (ctx.setTrick trick (k + 1)).2.replay k = ctx.replay k := by
    refine replay_congr hopening fun j hj => ?_
    rw [htricks, Function.update_of_ne hj.ne]
  have hnew : ((ctx.setTrick trick (k + 1)).2.mTricks k).setOwner .noTeam =
      trick.setOwner .noTeam := by
    rw [htricks, Function.update_self]
    rfl
  rw [Recorded, replay_succ, hbefore, hnew]
  exact Tracks.setTrick h ht h3 h5 hT hk .noTeam hlead htaker

end TarotContext

end TarotClub
