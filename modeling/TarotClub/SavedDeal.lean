import Mathlib.Algebra.Order.BigOperators.Group.Finset
import TarotClub.DealFile

namespace TarotClub

namespace Deck

theorem points_congr {d e : Deck} (h : d.cards = e.cards) : d.points = e.points := by
  have hperm : d.mDeck.Perm e.mDeck := Multiset.coe_eq_coe.mp h
  exact (hperm.map Card.getPoints).sum_eq

/-- The number of oudlers is counted up in a byte. -/
theorem analyzeTrumps_oudlers_eq (d : Deck) (stats : Statistics) :
    (d.analyzeTrumps stats).oudlers = (fun o => u8 (o + 1))^[d.oudlers] stats.oudlers := by
  have hstep : ∀ (stats : Statistics) (c : Card), (analyzeTrumpsStep stats c).oudlers =
      if c.isOudler then u8 (stats.oudlers + 1) else stats.oudlers := fun stats c => by
    unfold analyzeTrumpsStep Card.isOudler
    by_cases hsuit : c.mSuit = Card.trumps
    · by_cases hvalue : c.mValue = 21 ∨ c.mValue = 1 ∨ c.mValue = 0
      · simp [hsuit, hvalue, or_assoc]
      · simp [hsuit, hvalue, or_assoc]
    · simp [hsuit]
  have hfold : ∀ (l : List Card) (stats : Statistics), (l.foldl analyzeTrumpsStep stats).oudlers =
      (fun o => u8 (o + 1))^[l.countP Card.isOudler] stats.oudlers := by
    intro l
    induction l with
    | nil => exact fun _ => rfl
    | cons c l ih =>
      intro stats
      rw [List.foldl_cons, ih, hstep, List.countP_cons]
      cases c.isOudler
      · rfl
      · rw [if_pos rfl, if_pos rfl, Function.iterate_succ_apply]
  exact hfold d.mDeck _

/-- Points and oudlers do not depend on the order of the cards. -/
theorem analyzeTrumps_congr {d e : Deck} (h : d.cards = e.cards) (stats : Statistics) :
    (d.analyzeTrumps stats).points = (e.analyzeTrumps stats).points ∧
      (d.analyzeTrumps stats).oudlers = (e.analyzeTrumps stats).oudlers := by
  have houdlers : d.oudlers = e.oudlers := (Multiset.coe_eq_coe.mp h).countP_eq _
  rw [analyzeTrumps_points, analyzeTrumps_points, points_congr h, analyzeTrumps_oudlers_eq,
    analyzeTrumps_oudlers_eq, houdlers]
  exact ⟨rfl, rfl⟩

theorem hasOneOfTrump_iff {d : Deck} : d.hasOneOfTrump = true ↔ (⟨1, Card.trumps⟩ : Card) ∈ d.mDeck := by
  simp only [hasOneOfTrump, List.any_eq_true, Bool.and_eq_true, decide_eq_true_eq]
  constructor
  · rintro ⟨⟨value, suit⟩, hmem, rfl, rfl⟩
    exact hmem
  · intro hmem
    exact ⟨_, hmem, rfl, rfl⟩

end Deck

/-- The five results of a deal that its score is made of. -/
def Points.SameResult (p q : Points) : Prop :=
  p.pointsAttack = q.pointsAttack ∧ p.oudlers = q.oudlers ∧ p.handlePoints = q.handlePoints ∧
    p.slamDone = q.slamDone ∧ p.littleEndianOwner = q.littleEndianOwner

namespace TarotContext

variable {live loaded : TarotContext} {n : ℕ}

/-- The statistics of the attack with the cards that were put aside. -/
def finalStats (ctx : TarotContext) : Statistics :=
  if ctx.mDiscard.mOwner = .attack then ctx.mDiscard.analyzeTrumps ctx.mStatsAttack
  else ctx.mStatsAttack

/-- The attack or the defense has won every trick of a deal of this length. -/
def isSlam (ctx : TarotContext) (numberOfTricks : ℕ) : Bool :=
  ctx.mTricksWon = numberOfTricks ∨ ctx.mTricksWon = 0

/-- The trick that the petit is looked for in, in a deal of this length. -/
def lastTrick (ctx : TarotContext) (numberOfTricks : ℕ) : ℕ :=
  if ctx.isSlam numberOfTricks && (ctx.mTricks (numberOfTricks - 1)).hasFool
  then numberOfTricks - 2 else numberOfTricks - 1

/-- Who has the petit in the last trick. -/
def petitOwner (ctx : TarotContext) (numberOfTricks : ℕ) : Team :=
  if (ctx.mTricks (ctx.lastTrick numberOfTricks)).hasOneOfTrump
  then (ctx.mTricks (ctx.lastTrick numberOfTricks)).mOwner else .noTeam

/-- The points of the handles that were shown. -/
def shownPoints (ctx : TarotContext) (nbPlayers : ℕ) : ℤ :=
  getHandlePoints nbPlayers (getHandleType ctx.mAttackHandle.size) +
    getHandlePoints nbPlayers (getHandleType ctx.mDefenseHandle.size)

theorem sameResult_iff (a b : TarotContext) :
    (a.analyzeGame {}).1.SameResult (b.analyzeGame {}).1 ↔
      ((adjustHalfPoint a.finalStats.points a.finalStats.oudlers).tdiv 2 =
          (adjustHalfPoint b.finalStats.points b.finalStats.oudlers).tdiv 2 ∧
        a.finalStats.oudlers = b.finalStats.oudlers) ∧
      a.shownPoints a.mNbPlayers = b.shownPoints b.mNbPlayers ∧
      a.isSlam (numberOfCardsInHand a.mNbPlayers) = b.isSlam (numberOfCardsInHand b.mNbPlayers) ∧
      a.petitOwner (numberOfCardsInHand a.mNbPlayers) =
        b.petitOwner (numberOfCardsInHand b.mNbPlayers) := by
  have hpoints : ∀ ctx : TarotContext, (ctx.analyzeGame {}).1.pointsAttack =
      (adjustHalfPoint ctx.finalStats.points ctx.finalStats.oudlers).tdiv 2 := fun _ => rfl
  have houdlers : ∀ ctx : TarotContext,
      (ctx.analyzeGame {}).1.oudlers = (ctx.finalStats.oudlers : ℤ) := fun _ => rfl
  have hshown : ∀ ctx : TarotContext,
      (ctx.analyzeGame {}).1.handlePoints = ctx.shownPoints ctx.mNbPlayers := fun ctx => by
    change 0 + _ + _ = _
    rw [zero_add]
    rfl
  have hslam : ∀ ctx : TarotContext, (ctx.analyzeGame {}).1.slamDone =
      ctx.isSlam (numberOfCardsInHand ctx.mNbPlayers) := fun _ => rfl
  have hpetit : ∀ ctx : TarotContext, (ctx.analyzeGame {}).1.littleEndianOwner =
      ctx.petitOwner (numberOfCardsInHand ctx.mNbPlayers) := fun _ => rfl
  simp only [Points.SameResult, hpoints, houdlers, hshown, hslam, hpetit, Nat.cast_inj, and_assoc]

/-- Three half points are more than the adjustment. -/
theorem adjustHalfPoint_lt {a b : ℤ} (o o' : ℕ) (h : a + 3 ≤ b) :
    (adjustHalfPoint a o).tdiv 2 < (adjustHalfPoint b o').tdiv 2 := by
  have hadjust : ∀ (x : ℤ) (o : ℕ), ∃ y, adjustHalfPoint x o = 2 * y ∧ x - 1 ≤ 2 * y ∧
      2 * y ≤ x + 1 := by
    intro x o
    unfold adjustHalfPoint hasDecimal
    by_cases hodd : x % 2 = 0
    · exact ⟨x / 2, by simp [hodd]; omega, by omega, by omega⟩
    · by_cases hdone : x ≥ 2 * pointsToDo o
      · exact ⟨(x + 1) / 2, by simp [hodd, hdone]; omega, by omega, by omega⟩
      · exact ⟨(x - 1) / 2, by simp [hodd, hdone]; omega, by omega, by omega⟩
  obtain ⟨x, hx, -, hle⟩ := hadjust a o
  obtain ⟨y, hy, hge, -⟩ := hadjust b o'
  rw [hx, hy, Int.mul_tdiv_cancel_left x two_ne_zero, Int.mul_tdiv_cancel_left y two_ne_zero]
  omega

/-- At three or five players every handle is worth something else than at four. -/
theorem getHandlePoints_four_iff (hn : n = 3 ∨ n = 5) (a d : Handle) :
    getHandlePoints n a + getHandlePoints n d = getHandlePoints 4 a + getHandlePoints 4 d ↔
      a = .noHandle ∧ d = .noHandle := by
  rcases hn with rfl | rfl
  · cases a <;> cases d <;> decide
  · cases a <;> cases d <;> decide

/-- A handle is empty, or it is long enough to be shown. -/
def Shown (handle : Deck) : Prop := handle.mDeck = [] ∨ getHandleType handle.size ≠ .noHandle

theorem Shown.noHandle_iff {handle : Deck} (h : Shown handle) :
    getHandleType handle.size = .noHandle ↔ handle.mDeck = [] := by
  constructor
  · exact fun hno => h.resolve_right fun hne => hne hno
  · intro hnil
    rw [Deck.size, hnil]
    rfl

/-- Where the replay misses nothing, the final statistics agree. -/
theorem Restored.finalStats (h : Restored n live loaded)
    (howner : live.mDiscard.mOwner =
      if live.mBid.contract = .guardAgainst then .defense else .attack)
    (hstats : loaded.mStatsAttack = live.mStatsAttack) :
    loaded.finalStats.points = live.finalStats.points ∧
      loaded.finalStats.oudlers = live.finalStats.oudlers := by
  unfold TarotContext.finalStats
  rw [h.owner, ← howner, hstats]
  split_ifs
  · exact Deck.analyzeTrumps_congr h.discard _
  · exact ⟨rfl, rfl⟩

theorem Restored.finalStats_lt (h : Restored n live loaded)
    (howner : live.mDiscard.mOwner =
      if live.mBid.contract = .guardAgainst then .defense else .attack)
    (hstats : loaded.mStatsAttack.points + 3 ≤ live.mStatsAttack.points) :
    loaded.finalStats.points + 3 ≤ live.finalStats.points := by
  unfold TarotContext.finalStats
  rw [h.owner, ← howner]
  split_ifs
  · rw [Deck.analyzeTrumps_points, Deck.analyzeTrumps_points, Deck.points_congr h.discard]
    omega
  · exact hstats

theorem Played.petit_unique (h : Played n live) {i j : ℕ} (hi : i < numberOfCardsInHand n)
    (hj : j < numberOfCardsInHand n) (hpi : (live.mTricks i).hasOneOfTrump = true)
    (hpj : (live.mTricks j).hasOneOfTrump = true) : i = j := by
  by_contra hne
  have hcount : Multiset.count (⟨1, Card.trumps⟩ : Card) (∑ j ∈ Finset.range
      (numberOfCardsInHand n), (live.mTricks j).cards) ≤ 1 := by
    refine Multiset.nodup_iff_count_le_one.mp (Multiset.nodup_of_le ?_ Deck.tarotDeck_nodup) _
    rw [← h.cards]
    exact Multiset.le_add_left _ _
  have hone : ∀ k, (live.mTricks k).hasOneOfTrump = true →
      1 ≤ Multiset.count (⟨1, Card.trumps⟩ : Card) (live.mTricks k).cards := fun k hk =>
    Multiset.one_le_count_iff_mem.mpr (Deck.hasOneOfTrump_iff.mp hk)
  have hpair : ({i, j} : Finset ℕ) ⊆ Finset.range (numberOfCardsInHand n) := by
    intro k hk
    rcases Finset.mem_insert.mp hk with rfl | hk
    · exact Finset.mem_range.mpr hi
    · rw [Finset.mem_singleton.mp hk]
      exact Finset.mem_range.mpr hj
  have hsum := Finset.sum_le_sum_of_subset
    (f := fun k => Multiset.count (⟨1, Card.trumps⟩ : Card) (live.mTricks k).cards) hpair
  rw [Multiset.count_sum'] at hcount
  rw [Finset.sum_pair hne] at hsum
  have h1 := hone i hpi
  have h2 := hone j hpj
  omega

/-- A played deal as the engine holds it before it is scored. -/
structure Scorable (n : ℕ) (ctx : TarotContext) : Prop extends Played n ctx where
  recorded : Recorded n (numberOfCardsInHand n) ctx
  owner : ctx.mDiscard.mOwner = if ctx.mBid.contract = .guardAgainst then .defense else .attack
  partner : n ≠ 5 → ctx.mBid.partner = .nowhere
  shownAttack : Shown ctx.mAttackHandle
  shownDefense : Shown ctx.mDefenseHandle
  rest : ∀ j < 24, numberOfCardsInHand n ≤ j → (ctx.mTricks j).mDeck = []

/-- A deal that means the same at a table of four players and with a taker who plays alone: the partner
has won no trick, no handle was shown, the number of tricks of the attack makes a slam neither here
nor there, and the petit is not in the last trick of a deal of either length. -/
structure MeansTheSame (n : ℕ) (ctx : TarotContext) : Prop where
  partner : ∀ j < numberOfCardsInHand n, ¬ ctx.PartnerWins j
  attackHandle : ctx.mAttackHandle.mDeck = []
  defenseHandle : ctx.mDefenseHandle.mDeck = []
  slam : ctx.mTricksWon ≠ numberOfCardsInHand n
  slamOfFour : ctx.mTricksWon ≠ numberOfCardsInHand 4
  petit : (ctx.mTricks (ctx.lastTrick (numberOfCardsInHand n))).hasOneOfTrump = false
  petitOfFour : (ctx.mTricks (ctx.lastTrick (numberOfCardsInHand 4))).hasOneOfTrump = false

instance (n : ℕ) (ctx : TarotContext) : Decidable (MeansTheSame n ctx) :=
  decidable_of_iff
    ((∀ j < numberOfCardsInHand n, ¬ ctx.PartnerWins j) ∧ ctx.mAttackHandle.mDeck = [] ∧
      ctx.mDefenseHandle.mDeck = [] ∧ ctx.mTricksWon ≠ numberOfCardsInHand n ∧
      ctx.mTricksWon ≠ numberOfCardsInHand 4 ∧
      (ctx.mTricks (ctx.lastTrick (numberOfCardsInHand n))).hasOneOfTrump = false ∧
      (ctx.mTricks (ctx.lastTrick (numberOfCardsInHand 4))).hasOneOfTrump = false)
    ⟨fun ⟨h1, h2, h3, h4, h5, h6, h7⟩ => ⟨h1, h2, h3, h4, h5, h6, h7⟩,
      fun ⟨h1, h2, h3, h4, h5, h6, h7⟩ => ⟨h1, h2, h3, h4, h5, h6, h7⟩⟩

/-- What the replay has kept. -/
theorem Restored.play (h : Restored n live loaded) :
    loaded.mStatsAttack = (live.replay (numberOfCardsInHand n)).mStatsAttack ∧
      loaded.mTricksWon = (live.replay (numberOfCardsInHand n)).mTricksWon ∧
      loaded.mTricks = (live.replay (numberOfCardsInHand n)).mTricks := by
  have hstats := congrArg mStatsAttack h.core
  have hwon := congrArg mTricksWon h.core
  have htricks := congrArg mTricks h.core
  exact ⟨hstats, hwon, htricks⟩

/-- Once the partner has won a trick the points of the attack are lost. -/
theorem Scorable.not_sameResult (hs : Scorable n live) (h : Restored n live loaded)
    (hbehind : Behind (numberOfCardsInHand n) live (live.replay (numberOfCardsInHand n))) :
    ¬ (loaded.analyzeGame {}).1.SameResult (live.analyzeGame {}).1 := by
  intro hsame
  have hpoints : loaded.mStatsAttack.points + 3 ≤ live.mStatsAttack.points := by
    rw [h.play.1]
    exact hbehind.points
  have hlt := adjustHalfPoint_lt loaded.finalStats.oudlers live.finalStats.oudlers
    (h.finalStats_lt hs.owner hpoints)
  exact hlt.ne ((sameResult_iff loaded live).mp hsame).1.1

theorem Scorable.shownPoints_iff (hs : Scorable n live) (h : Restored n live loaded)
    (hn : n = 3 ∨ n = 5) : loaded.shownPoints loaded.mNbPlayers = live.shownPoints live.mNbPlayers ↔
      live.mAttackHandle.mDeck = [] ∧ live.mDefenseHandle.mDeck = [] := by
  have hattack : loaded.mAttackHandle.size = live.mAttackHandle.size :=
    congrArg List.length h.attackHandle
  have hdefense : loaded.mDefenseHandle.size = live.mDefenseHandle.size :=
    congrArg List.length h.defenseHandle
  rw [← hs.shownAttack.noHandle_iff, ← hs.shownDefense.noHandle_iff,
    ← getHandlePoints_four_iff hn, h.players, hs.players, shownPoints, shownPoints, hattack,
    hdefense]
  exact eq_comm

/-- Where `live` and `loaded` hold the same tricks, the petit is looked for in the same one. -/
theorem lastTrick_congr (hwon : loaded.mTricksWon = live.mTricksWon)
    (htricks : ∀ j < 24, (loaded.mTricks j).mDeck = (live.mTricks j).mDeck) (numberOfTricks : ℕ)
    (hle : numberOfTricks ≤ 24) (hpos : 0 < numberOfTricks) :
    loaded.lastTrick numberOfTricks = live.lastTrick numberOfTricks := by
  have hfool : (loaded.mTricks (numberOfTricks - 1)).hasFool =
      (live.mTricks (numberOfTricks - 1)).hasFool := by
    rw [Deck.hasFool, Deck.hasFool, htricks _ (by omega)]
  rw [lastTrick, lastTrick, isSlam, isSlam, hwon, hfool]

/-- The last trick is one of the last two. -/
theorem lastTrick_cases (ctx : TarotContext) (numberOfTricks : ℕ) :
    ctx.lastTrick numberOfTricks = numberOfTricks - 2 ∨
      ctx.lastTrick numberOfTricks = numberOfTricks - 1 := by
  unfold lastTrick
  split_ifs
  · exact .inl rfl
  · exact .inr rfl

theorem petitOwner_of_false {ctx : TarotContext} {numberOfTricks : ℕ}
    (h : (ctx.mTricks (ctx.lastTrick numberOfTricks)).hasOneOfTrump = false) :
    ctx.petitOwner numberOfTricks = .noTeam := by
  rw [petitOwner, h, if_neg Bool.false_ne_true]

theorem petitOwner_of_true {ctx : TarotContext} {numberOfTricks : ℕ}
    (h : (ctx.mTricks (ctx.lastTrick numberOfTricks)).hasOneOfTrump = true) :
    ctx.petitOwner numberOfTricks = (ctx.mTricks (ctx.lastTrick numberOfTricks)).mOwner := by
  rw [petitOwner, h, if_pos rfl]

section
variable (hs : Scorable n live) (h : Restored n live loaded)
  (hlevel : Level (numberOfCardsInHand n) live (live.replay (numberOfCardsInHand n)))
include hs h hlevel

theorem Scorable.loaded_tricks :
    loaded.mTricksWon = live.mTricksWon ∧
      (∀ j < 24, (loaded.mTricks j).mDeck = (live.mTricks j).mDeck) ∧
      ∀ j < numberOfCardsInHand n, loaded.mTricks j = live.mTricks j := by
  obtain ⟨-, hwon, htricks⟩ := h.play
  refine ⟨hwon.trans hlevel.won, fun j hj => ?_, fun j hj => ?_⟩
  · rw [htricks]
    exact hs.recorded.tricks j hj
  · rw [htricks]
    exact hlevel.tricks j hj

/-- At three or five players the last trick of the file is another one. -/
theorem Scorable.petitOwner_iff (hn : n = 3 ∨ n = 5) :
    loaded.petitOwner (numberOfCardsInHand 4) = live.petitOwner (numberOfCardsInHand n) ↔
      (live.mTricks (live.lastTrick (numberOfCardsInHand n))).hasOneOfTrump = false ∧
        (live.mTricks (live.lastTrick (numberOfCardsInHand 4))).hasOneOfTrump = false := by
  have hT : numberOfCardsInHand n = 24 ∨ numberOfCardsInHand n = 15 := by
    rcases hn with rfl | rfl
    · exact .inl rfl
    · exact .inr rfl
  have h18 : numberOfCardsInHand 4 = 18 := rfl
  obtain ⟨hwon, hcards, htricks⟩ := hs.loaded_tricks h hlevel
  have hlast := lastTrick_congr hwon hcards 18 (by omega) (by omega)
  have ha := live.lastTrick_cases (numberOfCardsInHand n)
  have hb := live.lastTrick_cases 18
  have hpetit : (loaded.mTricks (loaded.lastTrick 18)).hasOneOfTrump =
      (live.mTricks (live.lastTrick 18)).hasOneOfTrump := by
    rw [hlast, Deck.hasOneOfTrump, Deck.hasOneOfTrump, hcards _ (by omega)]
  rw [h18]
  have hplace : (live.mTricks (live.lastTrick 18)).hasOneOfTrump = true →
      live.lastTrick 18 < numberOfCardsInHand n := by
    intro hb'
    by_contra hge
    have hnil := hs.rest _ (by omega) (not_lt.mp hge)
    rw [Deck.hasOneOfTrump, hnil] at hb'
    exact Bool.false_ne_true hb'
  cases hlive : (live.mTricks (live.lastTrick (numberOfCardsInHand n))).hasOneOfTrump with
  | true =>
    cases hfour : (live.mTricks (live.lastTrick 18)).hasOneOfTrump with
    | true =>
      have heq := hs.petit_unique (by omega) (hplace hfour) hlive hfour
      omega
    | false =>
      rw [petitOwner_of_true hlive, petitOwner_of_false (hpetit.trans hfour)]
      refine iff_of_false (fun heq => ?_) fun hboth => Bool.noConfusion hboth.1
      exact hs.recorded.owned _ (by omega) heq.symm
  | false =>
    rw [petitOwner_of_false hlive]
    cases hfour : (live.mTricks (live.lastTrick 18)).hasOneOfTrump with
    | true =>
      rw [petitOwner_of_true (hpetit.trans hfour), hlast, htricks _ (hplace hfour)]
      refine iff_of_false (fun heq => ?_) fun hboth => Bool.noConfusion hboth.2
      exact hs.recorded.owned _ (hplace hfour) heq
    | false =>
      rw [petitOwner_of_false (hpetit.trans hfour)]
      exact iff_of_true rfl ⟨rfl, rfl⟩

/-- At four players nothing is missing. -/
theorem Scorable.sameResult_of_four (hn : n = 4) :
    (loaded.analyzeGame {}).1.SameResult (live.analyzeGame {}).1 := by
  have hT : numberOfCardsInHand n = 18 := by rw [hn]; rfl
  obtain ⟨hwon, hcards, htricks⟩ := hs.loaded_tricks h hlevel
  obtain ⟨hpoints, houdlers⟩ := h.finalStats hs.owner (h.play.1.trans hlevel.stats)
  have hattack : loaded.mAttackHandle.size = live.mAttackHandle.size :=
    congrArg List.length h.attackHandle
  have hdefense : loaded.mDefenseHandle.size = live.mDefenseHandle.size :=
    congrArg List.length h.defenseHandle
  have hlast := lastTrick_congr hwon hcards 18 (by omega) (by omega)
  have hb := live.lastTrick_cases 18
  rw [sameResult_iff, h.players, hs.players, hn, hpoints, houdlers, shownPoints, shownPoints,
    hattack, hdefense]
  refine ⟨⟨rfl, rfl⟩, rfl, ?_, ?_⟩
  · rw [isSlam, isSlam, hwon]
  · change loaded.petitOwner 18 = live.petitOwner 18
    rw [petitOwner, petitOwner, hlast, htricks _ (by omega)]

/-- A deal of three or five players. -/
theorem Scorable.sameResult_iff_of_level (hn : n = 3 ∨ n = 5) :
    (loaded.analyzeGame {}).1.SameResult (live.analyzeGame {}).1 ↔ MeansTheSame n live := by
  have hT : numberOfCardsInHand n = 24 ∨ numberOfCardsInHand n = 15 := by
    rcases hn with rfl | rfl
    · exact .inl rfl
    · exact .inr rfl
  obtain ⟨hwon, -, -⟩ := hs.loaded_tricks h hlevel
  obtain ⟨hpoints, houdlers⟩ := h.finalStats hs.owner (h.play.1.trans hlevel.stats)
  have hslam : loaded.isSlam (numberOfCardsInHand 4) = live.isSlam (numberOfCardsInHand n) ↔
      live.mTricksWon ≠ numberOfCardsInHand n ∧ live.mTricksWon ≠ numberOfCardsInHand 4 := by
    have h18 : numberOfCardsInHand 4 = 18 := rfl
    rw [isSlam, isSlam, hwon, decide_eq_decide, h18]
    omega
  rw [sameResult_iff, hs.shownPoints_iff h hn, h.players, hs.players,
    hs.petitOwner_iff h hlevel hn, hpoints, houdlers, hslam]
  constructor
  · rintro ⟨-, ⟨hattack, hdefense⟩, ⟨hthis, hfour⟩, hpetit, hpetitOfFour⟩
    exact ⟨hlevel.partner, hattack, hdefense, hthis, hfour, hpetit, hpetitOfFour⟩
  · intro hmeans
    exact ⟨⟨rfl, rfl⟩, ⟨hmeans.attackHandle, hmeans.defenseHandle⟩,
      ⟨hmeans.slam, hmeans.slamOfFour⟩, hmeans.petit, hmeans.petitOfFour⟩

end

/-- Scoring a deal that has been saved and loaded gives the same results if and only if it is a deal
of four players, or it means the same at a table of four. -/
theorem Scorable.sameResult_iff (hs : Scorable n live) (h : Restored n live loaded)
    (hn : n = 3 ∨ n = 4 ∨ n = 5) :
    (loaded.analyzeGame {}).1.SameResult (live.analyzeGame {}).1 ↔
      n = 4 ∨ MeansTheSame n live := by
  have halone : n = 4 → ∀ j < numberOfCardsInHand n, ¬ live.PartnerWins j := by
    rintro rfl j hj ⟨hwins, -⟩
    exact hs.recorded.seats j hj (hwins.trans (hs.partner (by decide)))
  rcases hs.recorded.score with hlevel | hbehind
  · by_cases h4 : n = 4
    · exact iff_of_true (hs.sameResult_of_four h hlevel h4) (.inl h4)
    · rw [hs.sameResult_iff_of_level h hlevel (by omega)]
      exact ⟨.inr, fun hor => hor.resolve_left h4⟩
  · obtain ⟨j, hj, hwins⟩ := hbehind.partner
    refine iff_of_false (hs.not_sameResult h hbehind) ?_
    rintro (h4 | hmeans)
    · exact halone h4 j hj hwins
    · exact hmeans.partner j hj hwins

end TarotContext

end TarotClub
