import TarotClub.CardConservation
import TarotClub.Replay

namespace TarotClub

open Machine
open Finset (range)

namespace Deck

theorem points_nonneg (d : Deck) : 0 ≤ d.points := by
  refine List.sum_nonneg fun x hx => ?_
  obtain ⟨c, -, rfl⟩ := List.mem_map.mp hx
  exact le_trans Int.one_nonneg c.getPoints_pos

theorem points_of_nil {d : Deck} (h : d.mDeck = []) : d.points = 0 := by
  rw [points, h]
  rfl

theorem oudlers_of_nil {d : Deck} (h : d.mDeck = []) : d.oudlers = 0 := by
  rw [oudlers, h]
  rfl

/-- The half points of some cards, as a sum that can be split. -/
def cardPoints : Multiset Card →+ ℤ :=
  Multiset.sumAddMonoidHom.comp (Multiset.mapAddMonoidHom Card.getPoints)

theorem cardPoints_cards (d : Deck) : cardPoints d.cards = d.points := Multiset.sum_coe _

def countOudlers : Multiset Card →+ ℕ := Multiset.countPAddMonoidHom fun c => c.isOudler = true

theorem countOudlers_cards (d : Deck) : countOudlers d.cards = d.oudlers :=
  (Multiset.coe_countP _ _).trans (List.countP_congr fun _ _ => decide_eq_true_iff)

end Deck

namespace TarotContext

variable {n k : ℕ} {trick : Deck}

/-- Points are only exchanged for the Fool. -/
theorem hasFool_of_decided {ctx : TarotContext} {lead : Place}
    (h : (ctx.decided n k lead trick).2 = true) : trick.hasFool = true := by
  unfold decided at h
  split_ifs at h with hfool
  exact hfool

/-- A trick takes nothing away from the attack, and brings it no more than it is worth: who gives
the Fool back has it in this very trick. -/
theorem IsTrick.setTrick_bounds (ctx : TarotContext) (h : IsTrick n trick) (h2 : 2 ≤ n)
    (h5 : n ≤ 5) (hk : k < 24) (ho : ctx.mStatsAttack.oudlers + n < 256) :
    let stats := (ctx.setTrick trick (k + 1)).2.mStatsAttack
    (ctx.mStatsAttack.points ≤ stats.points ∧
        stats.points ≤ ctx.mStatsAttack.points + trick.points) ∧
      stats.oudlers ≤ ctx.mStatsAttack.oudlers + trick.oudlers := by
  intro stats
  generalize hd : ctx.decided n k (ctx.leadOf k) trick = d
  have hfool : d.2 = true → trick.hasFool = true := by
    rw [← hd]
    exact hasFool_of_decided
  have hset := h.setTrick_decided ctx h2 h5 hk
  rw [hd] at hset
  have hstats : stats = (({ ctx with mTricks := Function.update ctx.mTricks k trick } :
      TarotContext).creditTrick k d.1 d.2).mStatsAttack :=
    congrArg (fun r : Place × TarotContext => r.2.mStatsAttack) hset
  have hcredit := creditTrick_account
    { ctx with mTricks := Function.update ctx.mTricks k trick } k d.1 d.2
  simp only [Function.update_self, h.size] at hcredit
  obtain ⟨hpoints, houdlers, -⟩ := hcredit hfool ho
  rw [← hstats] at hpoints houdlers
  change stats.points = _ + (_ + 8 * ctx.madeExchange d.1 d.2) at hpoints
  change (stats.oudlers : ℤ) = _ + (_ + ctx.madeExchange d.1 d.2) at houdlers
  have hworth := (Deck.points_bounds h).2
  have hnonneg := trick.points_nonneg
  have hcount : d.2 = true → 0 < trick.oudlers := fun hswap => Deck.oudlers_pos (hfool hswap)
  rw [madeExchange] at hpoints houdlers
  generalize ctx.mBid.isAttack d.1 = attack at hpoints houdlers
  generalize d.2 = foolSwap at hpoints houdlers hfool hcount
  -- eight half points and an oudler are taken back for the Fool, which lies in the trick
  cases foolSwap with
  | false =>
    cases attack with
    | false =>
      simp only [Bool.false_eq_true, if_false] at hpoints houdlers
      omega
    | true =>
      simp only [Bool.false_eq_true, if_false, if_true] at hpoints houdlers
      omega
  | true =>
    have hpoints' := hworth (hfool rfl)
    have hcount' := hcount rfl
    cases attack with
    | false =>
      simp only [Bool.false_eq_true, if_false, if_true] at hpoints houdlers
      omega
    | true =>
      simp only [if_true] at hpoints houdlers
      omega

end TarotContext

namespace Engine

variable {n : ℕ} {plays : List (Card × Place)} {e : Engine}

/-- What the stored tricks are worth, in half points. -/
def tricksPoints (e : Engine) : ℤ := ∑ j ∈ range 24, (e.mCtx.mTricks j).points

def tricksOudlers (e : Engine) : ℕ := ∑ j ∈ range 24, (e.mCtx.mTricks j).oudlers

/-- The pack is worth 91 points. -/
theorem tricksPoints_le (h : e.cards = Deck.tarotDeck.cards) :
    e.tricksPoints + e.aside.points ≤ 182 := by
  have hall := congrArg Deck.cardPoints h
  have hdeck : Deck.tarotDeck.points = 182 := by decide +kernel
  rw [cards, map_add, map_add, map_add, map_sum, map_sum] at hall
  simp only [Deck.cardPoints_cards, hdeck] at hall
  have hhands : 0 ≤ ∑ i ∈ range e.mCtx.mNbPlayers, (e.mPlayers i).points :=
    Finset.sum_nonneg fun i _ => (e.mPlayers i).points_nonneg
  have hcurrent := e.currentTrick.points_nonneg
  rw [tricksPoints]
  omega

theorem tricksOudlers_le (h : e.cards = Deck.tarotDeck.cards) :
    e.tricksOudlers + e.aside.oudlers ≤ 3 := by
  have hall := congrArg Deck.countOudlers h
  have hdeck : Deck.tarotDeck.oudlers = 3 := by decide +kernel
  rw [cards, map_add, map_add, map_add, map_sum, map_sum] at hall
  simp only [Deck.countOudlers_cards, hdeck] at hall
  rw [tricksOudlers]
  omega

/-- What is counted for the attack in the course of the play. -/
structure Tallied (e : Engine) : Prop where
  nonneg : 0 ≤ e.mCtx.mStatsAttack.points
  points : e.mCtx.mStatsAttack.points ≤ e.tricksPoints
  oudlers : e.mCtx.mStatsAttack.oudlers ≤ e.tricksOudlers

theorem Tallied.congr {e' : Engine} (h : e.Tallied)
    (hstats : e'.mCtx.mStatsAttack = e.mCtx.mStatsAttack)
    (htricks : e'.mCtx.mTricks = e.mCtx.mTricks) : e'.Tallied := by
  refine ⟨?_, ?_, ?_⟩
  · rw [hstats]
    exact h.nonneg
  · rw [hstats, tricksPoints, htricks]
    exact h.points
  · rw [hstats, tricksOudlers, htricks]
    exact h.oudlers

theorem newDeal_tallied (e : Engine) (deal : Deal) : (e.newDeal deal).Tallied := by
  have hstats : (e.newDeal deal).mCtx.mStatsAttack = {} := by
    unfold newDeal createDeal
    cases deal.mFirstPlayer <;> rfl
  refine ⟨?_, ?_, ?_⟩
  · rw [hstats]
  · rw [hstats]
    exact Finset.sum_nonneg fun j _ => Deck.points_nonneg _
  · rw [hstats]
    exact Nat.zero_le _

/-- A trick that is stored is worth at least what is counted for it. -/
theorem Tallied.storeTrick (h : e.Tallied) (hp : e.Playing n plays) (hn : n = 3 ∨ n = 4 ∨ n = 5)
    (hk : e.mTrickCounter < numberOfCardsInHand n) (hpos : e.mPosition = n) :
    e.storeTrick.Tallied := by
  have hk24 : e.mTrickCounter < 24 := lt_of_lt_of_le hk (sizes hn).2.1
  have hle := currentTrick_le_cards e
  have htrick : TarotContext.IsTrick n e.currentTrick :=
    ⟨hp.current.trans hpos, valid_of_le_cards hp.cards hle, nodup_of_le_cards hp.cards hle⟩
  have hempty : (e.mCtx.mTricks e.mTrickCounter).mDeck = [] := by
    rw [← Deck.size_eq_zero, hp.tricks _ hk24, if_neg (lt_irrefl _)]
  have hbound := tricksOudlers_le hp.cards
  have houdlers := h.oudlers
  obtain ⟨⟨hge, hpoints⟩, hcount⟩ :=
    htrick.setTrick_bounds e.mCtx (by omega) (by omega) hk24 (by omega)
  obtain ⟨team, htricks⟩ := storeTrick_mTricks hk24
  have hsum := sum_update_add Deck.points e.mCtx.mTricks hk24 (e.currentTrick.setOwner team)
  have hsum' := sum_update_add Deck.oudlers e.mCtx.mTricks hk24 (e.currentTrick.setOwner team)
  rw [← htricks, Deck.points_of_nil hempty, add_zero] at hsum
  rw [← htricks, Deck.oudlers_of_nil hempty, add_zero] at hsum'
  change e.storeTrick.tricksPoints = e.tricksPoints + e.currentTrick.points at hsum
  change e.storeTrick.tricksOudlers = e.tricksOudlers + e.currentTrick.oudlers at hsum'
  refine ⟨h.nonneg.trans hge, ?_, ?_⟩
  · rw [hsum]
    exact hpoints.trans (add_le_add_left h.points _)
  · rw [hsum']
    exact hcount.trans (Nat.add_le_add_right houdlers _)

/-- Half points between zero and the whole pack, and oudlers that there are. -/
def InBounds (stats : Statistics) : Prop :=
  0 ≤ stats.points ∧ stats.points ≤ 2 * 91 ∧ stats.oudlers ≤ 3

theorem Tallied.inBounds (h : e.Tallied) (hcards : e.cards = Deck.tarotDeck.cards) :
    InBounds e.mCtx.mStatsAttack := by
  have hpoints := tricksPoints_le hcards
  have hcount := tricksOudlers_le hcards
  have haside := e.aside.points_nonneg
  have hle := h.points
  have hle' := h.oudlers
  exact ⟨h.nonneg, by omega, by omega⟩

/-- The points of a deal that has been scored, beside the statistics of the attack: the points are
the whole of the adjusted half points, and the attack wins when the half points were enough before
the half point was given or taken. -/
structure Scored (points : Points) (stats : Statistics) : Prop where
  pointsAttack : 2 * points.pointsAttack = stats.points
  oudlers : points.oudlers = stats.oudlers
  adjusted : stats.points = TarotContext.adjustHalfPoint points.cardsPointsAttack stats.oudlers
  winner : points.winner = .attack ↔ 2 * pointsToDo stats.oudlers ≤ points.cardsPointsAttack

end Engine

/-- The half point never passes the line that it is measured against. -/
theorem TarotContext.adjustHalfPoint_spec {total : ℤ} (h0 : 0 ≤ total) (hle : total ≤ 182)
    (oudlers : ℕ) :
    0 ≤ adjustHalfPoint total oudlers ∧ adjustHalfPoint total oudlers ≤ 182 ∧
      2 * (adjustHalfPoint total oudlers).tdiv 2 = adjustHalfPoint total oudlers ∧
      ((adjustHalfPoint total oudlers).tdiv 2 ≥ pointsToDo oudlers ↔
        2 * pointsToDo oudlers ≤ total) := by
  rw [adjustHalfPoint]
  generalize pointsToDo oudlers = todo
  cases hodd : hasDecimal total with
  | false =>
    rw [hasDecimal, decide_eq_false_iff_not] at hodd
    rw [if_neg Bool.false_ne_true, Int.tdiv_eq_ediv_of_nonneg h0]
    omega
  | true =>
    rw [hasDecimal, decide_eq_true_iff] at hodd
    rw [if_pos rfl]
    by_cases henough : total ≥ 2 * todo
    · rw [if_pos henough, Int.tdiv_eq_ediv_of_nonneg (by omega)]
      omega
    · rw [if_neg henough, Int.tdiv_eq_ediv_of_nonneg (by omega)]
      omega

namespace Engine

variable {n : ℕ} {plays : List (Card × Place)} {e : Engine}

/-- The discard that goes to the attack is put aside, not in a trick. -/
theorem Tallied.endOfDeal (h : e.Tallied) (hcards : e.cards = Deck.tarotDeck.cards) :
    InBounds e.endOfDeal.2.mCtx.mStatsAttack ∧
      Scored e.endOfDeal.2.mCurrentPoints e.endOfDeal.2.mCtx.mStatsAttack := by
  have hpoints := tricksPoints_le hcards
  have hcount := tricksOudlers_le hcards
  have haside := e.aside.points_nonneg
  have hle := h.points
  have hle' := h.oudlers
  have hnonneg := h.nonneg
  generalize hstats : (if e.mCtx.mDiscard.mOwner = .attack then
    e.mCtx.mDiscard.analyzeTrumps e.mCtx.mStatsAttack else e.mCtx.mStatsAttack) = stats
  have hdiscard : e.mCtx.mDiscard.points ≤ e.aside.points ∧
      e.mCtx.mDiscard.oudlers ≤ e.aside.oudlers ∧ 0 ≤ e.mCtx.mDiscard.points := by
    by_cases hnil : e.mCtx.mDiscard.mDeck = []
    · rw [Deck.points_of_nil hnil, Deck.oudlers_of_nil hnil]
      exact ⟨haside, Nat.zero_le _, le_rfl⟩
    · rw [aside, if_neg hnil]
      exact ⟨le_rfl, le_rfl, Deck.points_nonneg _⟩
  have hbounds : InBounds stats := by
    rw [← hstats]
    by_cases howner : e.mCtx.mDiscard.mOwner = .attack
    · rw [if_pos howner, InBounds, Deck.analyzeTrumps_points,
        Deck.analyzeTrumps_oudlers _ (by omega), u8, Nat.mod_eq_of_lt (by omega)]
      omega
    · rw [if_neg howner]
      exact ⟨hnonneg, by omega, by omega⟩
  obtain ⟨h0, h182, hwhole, hwinner⟩ :=
    TarotContext.adjustHalfPoint_spec hbounds.1 hbounds.2.1 stats.oudlers
  simp only [Engine.endOfDeal, TarotContext.analyzeGame, hstats]
  refine ⟨⟨h0, h182, hbounds.2.2⟩, hwhole, rfl, rfl, ?_⟩
  have hbyte : ((stats.oudlers : ℤ) % 256).toNat = stats.oudlers := by
    have hle := hbounds.2.2
    omega
  rw [← hwinner, Points.winner, hbyte]
  by_cases henough : (TarotContext.adjustHalfPoint stats.points stats.oudlers).tdiv 2 ≥
      pointsToDo stats.oudlers
  · rw [if_pos henough]
    exact ⟨fun _ => henough, fun _ => rfl⟩
  · rw [if_neg henough]
    exact ⟨fun h => Team.noConfusion h, fun h => absurd h henough⟩

/-- Cards have been dealt, and the deal has not been scored. -/
def isUnscored (e : Engine) : Bool :=
  match e.mSequence with
  | .badStep | .stopped | .waitForPlayers | .waitForReady | .waitForEndOfDeal => false
  | _ => true

/-- The totals in each step of a run. -/
structure Totals (e : Engine) : Prop where
  bounds : InBounds e.mCtx.mStatsAttack
  tallied : e.isUnscored = true → e.Tallied
  scored : e.mSequence = .waitForEndOfDeal → Scored e.mCurrentPoints e.mCtx.mStatsAttack

theorem Phase.cards_of_isUnscored (h : e.Phase n plays) (hs : e.isUnscored = true) :
    e.cards = Deck.tarotDeck.cards := by
  refine h.cards_eq ?_
  unfold isUnscored at hs
  cases hseq : e.mSequence <;> rw [hseq] at hs
  case badStep | stopped | waitForPlayers | waitForReady | waitForEndOfDeal => cases hs
  all_goals simp [Sequence.isPastAuction]

/-- Where the deal has not been scored, the tally is all there is to say. -/
theorem Tallied.totals (h : e.Tallied) (hs : e.isUnscored = true) (hp : e.Phase n plays) :
    e.Totals := by
  refine ⟨h.inBounds (hp.cards_of_isUnscored hs), fun _ => h, fun hend => ?_⟩
  rw [isUnscored, hend] at hs
  cases hs

/-- Two contexts of one deal with the same tricks, tally and handles. -/
structure SameCounts (ctx ctx' : TarotContext) : Prop where
  stats : ctx.mStatsAttack = ctx'.mStatsAttack
  tricks : ctx.mTricks = ctx'.mTricks
  attackHandle : ctx.mAttackHandle = ctx'.mAttackHandle
  defenseHandle : ctx.mDefenseHandle = ctx'.mDefenseHandle

namespace SameCounts

theorem refl (ctx : TarotContext) : SameCounts ctx ctx := ⟨rfl, rfl, rfl, rfl⟩

theorem trans {ctx ctx' ctx'' : TarotContext} (h : SameCounts ctx ctx')
    (h' : SameCounts ctx' ctx'') : SameCounts ctx ctx'' :=
  ⟨h.stats.trans h'.stats, h.tricks.trans h'.tricks, h.attackHandle.trans h'.attackHandle,
    h.defenseHandle.trans h'.defenseHandle⟩

end SameCounts

/-- Only a new deal, a handle and the step that stores a trick touch them. -/
theorem act_sameCounts (e : Engine) {a : Action} (hdeal : a.isNewDeal = false)
    (ha : a ≠ .gameSequence) (hhandle : ∀ cards p, a ≠ .handle cards p) :
    SameCounts (e.act a).mCtx e.mCtx := by
  have hstart : ∀ e : Engine, SameCounts e.startIfReady.mCtx e.mCtx := by
    intro e
    unfold startIfReady
    split_ifs
    · exact ⟨rfl, rfl, rfl, rfl⟩
    · exact .refl _
  have hmanage : ∀ e : Engine, SameCounts e.manageAfterBidSequence.mCtx e.mCtx := by
    intro e
    unfold manageAfterBidSequence TarotContext.manageDogAfterBid
    split_ifs
    · exact ⟨rfl, rfl, rfl, rfl⟩
    · exact ⟨rfl, rfl, rfl, rfl⟩
    · exact .refl _
  cases a with
  | stay | newGame | discardSequence => exact .refl _
  | newDeal deal => cases hdeal
  | gameSequence => exact absurd rfl ha
  | handle cards p => exact absurd rfl (hhandle cards p)
  | bid c slam p =>
    rw [act, setBid, TarotContext.setBid]
    split_ifs
    · exact ⟨rfl, rfl, rfl, rfl⟩
    · exact .refl _
  | bidSequence =>
    have hcount : e.isEndOfTrick.2.mCtx = e.mCtx := by
      unfold isEndOfTrick
      split_ifs
      · rfl
      · rfl
    refine (hstart _).trans ?_
    rw [Engine.bidSequence, ← hcount]
    generalize e.isEndOfTrick = r
    obtain ⟨endOfTrick, e⟩ := r
    dsimp only
    split_ifs
    · exact .refl _
    · exact ⟨rfl, rfl, rfl, rfl⟩
    · exact hmanage e
    · exact .refl _
  | manageAfterBid => exact (hstart _).trans (hmanage e)
  | discard cards =>
    rw [act, setDiscard]
    split_ifs
    · exact ⟨rfl, rfl, rfl, rfl⟩
    · exact ⟨rfl, rfl, rfl, rfl⟩
  | kingCall c =>
    rw [act, setKingCalled]
    by_cases hcheck : TarotContext.checkKingCall c (e.takerDeck.analyzeSuits {}) = true
    · rw [if_pos hcheck]
      exact ⟨rfl, rfl, rfl, rfl⟩
    · rw [if_neg hcheck]
      exact .refl _
  | card c p =>
    rw [act, setCard]
    split_ifs
    · exact .refl _
    · exact .refl _

theorem act_tally (e : Engine) {a : Action} (hdeal : a.isNewDeal = false) (ha : a ≠ .gameSequence) :
    (e.act a).mCtx.mStatsAttack = e.mCtx.mStatsAttack ∧
      (e.act a).mCtx.mTricks = e.mCtx.mTricks := by
  by_cases hhandle : ∃ cards p, a = .handle cards p
  · obtain ⟨cards, p, rfl⟩ := hhandle
    rw [act, setHandle, TarotContext.setHandle]
    split_ifs
    · exact ⟨rfl, rfl⟩
    · exact ⟨rfl, rfl⟩
    · exact ⟨rfl, rfl⟩
  · push Not at hhandle
    have h := act_sameCounts e hdeal ha hhandle
    exact ⟨h.stats, h.tricks⟩

/-- The actions inside of a deal are taken before it is scored. -/
theorem isUnscored_of_enabled {a : Action} (ha : e.Enabled a) (hr : a.isRestart = false)
    (hstay : a ≠ .stay) : e.isUnscored = true := by
  unfold isUnscored
  cases a with
  | stay => exact absurd rfl hstay
  | newGame | newDeal _ => cases hr
  | bid c slam p | discard cards | kingCall c | handle cards p | card c p => rw [ha.1]
  | manageAfterBid | discardSequence => rw [ha]
  | bidSequence =>
    rcases ha with hs | hs
    · rw [hs]
    · rw [hs]
  | gameSequence =>
    rcases ha with hs | hs | hs | hs | hs
    · rw [hs]
    · rw [hs]
    · rw [hs]
    · rw [hs]
    · rw [hs]

/-- None of them scores the deal but the one that stores its last trick. -/
theorem act_isUnscored {a : Action} (ha : e.Enabled a) (hr : a.isRestart = false)
    (hstay : a ≠ .stay) (hgame : a ≠ .gameSequence) : (e.act a).isUnscored = true := by
  have hmanage : ∀ e : Engine, e.manageAfterBidSequence.mSequence = .waitForShowDog ∨
      e.manageAfterBidSequence.mSequence = .waitForStartDeal := manageAfterBidSequence_mSequence
  unfold isUnscored
  cases a with
  | stay => exact absurd rfl hstay
  | gameSequence => exact absurd rfl hgame
  | newGame | newDeal _ => cases hr
  | bid c slam p | discardSequence => rfl
  | bidSequence =>
    rw [act, startIfReady_mSequence, bidSequence]
    dsimp only
    split_ifs
    · rfl
    · rfl
    · rcases hmanage e.isEndOfTrick.2 with hs | hs
      · rw [hs]
      · rw [hs]
    · rfl
  | manageAfterBid =>
    rw [act, startIfReady_mSequence]
    rcases hmanage e with hs | hs
    · rw [hs]
    · rw [hs]
  | discard cards =>
    rw [act, setDiscard, if_pos ha.2]
    rfl
  | kingCall c => rw [act, setKingCalled, if_pos ha.2]
  | handle cards p => rw [act, setHandle, if_pos ha.2.2]
  | card c p => rw [act, setCard, if_pos ha.2.2.2]

/-- The step of the game stores a trick, and behind the last one it scores the deal. -/
theorem Tallied.gameSequence (h : e.Tallied) (hp : e.Playing n plays) (hn : n = 3 ∨ n = 4 ∨ n = 5)
    (hk : e.mTrickCounter < numberOfCardsInHand n)
    (hp' : (e.act .gameSequence).Phase n plays) : (e.act .gameSequence).Totals := by
  rw [Engine.act] at hp' ⊢
  rcases playOn_cases hp.players (sizes hn).2.1 hk with
    ⟨hpos, hact⟩ | ⟨-, hact | hact⟩
  · have hfull := le_antisymm hp.position hpos
    have hstored := h.storeTrick hp hn hk hfull
    have hcards := (hp.storeTrick hn hk hfull).cards
    rw [hact] at hp' ⊢
    by_cases hlast : e.mTrickCounter + 1 = numberOfCardsInHand n
    · rw [if_pos hlast]
      obtain ⟨hbounds, hscored⟩ := hstored.endOfDeal hcards
      exact ⟨hbounds, fun hs => absurd hs Bool.false_ne_true, fun _ => hscored⟩
    · rw [if_neg hlast] at hp' ⊢
      exact hstored.totals rfl hp'
  · rw [hact] at hp' ⊢
    refine Tallied.totals (h.congr ?_ ?_) ?_ hp'
    · rfl
    · rfl
    · rfl
  · rw [hact] at hp' ⊢
    refine Tallied.totals (h.congr ?_ ?_) ?_ hp'
    · rfl
    · rfl
    · rfl

/-- What is true of the totals in one step of the engine is true in the next. -/
theorem Totals.act (h : e.Totals) (hp : e.Phase n plays) (hn : n = 3 ∨ n = 4 ∨ n = 5) {a : Action}
    (ha : e.Enabled a) (hp' : (e.act a).Phase n (notePlay e a plays)) : (e.act a).Totals := by
  by_cases hstay : a = .stay
  · rw [hstay]
    exact h
  by_cases hr : a.isRestart = true
  · cases a with
    | newGame => exact ⟨h.bounds, fun hs => absurd hs Bool.false_ne_true, fun hs => by cases hs⟩
    | newDeal deal => exact (newDeal_tallied e deal).totals rfl hp'
    | _ => cases hr
  rw [Bool.not_eq_true] at hr
  have hs := isUnscored_of_enabled ha hr hstay
  have htallied := h.tallied hs
  by_cases hgame : a = .gameSequence
  · subst hgame
    have hplay : e.Playing n plays ∧ e.mTrickCounter < numberOfCardsInHand n := by
      rcases ha with hseq | hseq | hseq | hseq | hseq <;> simp only [Phase, hseq] at hp
      exacts [⟨hp.1, hp.2.1⟩, ⟨hp.1, hp.2.1⟩, ⟨hp.1, hp.2.1⟩, hp, ⟨hp.1, hp.2.1⟩]
    exact htallied.gameSequence hplay.1 hn hplay.2 hp'
  · have hdeal : a.isNewDeal = false := by
      cases a with
      | newDeal deal => cases hr
      | _ => rfl
    obtain ⟨hstats, htricks⟩ := act_tally e hdeal hgame
    exact (htallied.congr hstats htricks).totals (act_isUnscored ha hr hstay hgame) hp'

/-- A step of the engine at a table where the bids leave a taker and new cards are a fair deal. -/
def FairStep (n : ℕ) (e : Engine) (a : Action) : Prop :=
  e.Enabled a ∧ e.BidCounts a ∧ ∀ deal, a = .newDeal deal → deal.Fair n

/-- In every state that follows a deal of the 78 cards the half points of the attack are between
zero and those of the whole pack, and the oudlers are at most three. When the deal has been scored
the points are whole, nothing of the adjusted total is cut off, and the attack has won exactly when
the total before the adjustment was enough. -/
theorem deal_totals (hn : n = 3 ∨ n = 4 ∨ n = 5) (hplayers : e.mCtx.mNbPlayers = n) {deal : Deal}
    (hfair : deal.Fair n) {as : List Action}
    (hsteps : Guarded Engine.act (FairStep n) (e.newDeal deal) as) :
    let r := run Engine.act (e.newDeal deal) as
    let stats := r.mCtx.mStatsAttack
    let points := r.getCurrentGamePoints
    (0 ≤ stats.points ∧ stats.points ≤ 2 * 91 ∧ stats.oudlers ≤ 3) ∧
      (r.mSequence = .waitForEndOfDeal →
        (0 ≤ points.pointsAttack ∧ points.pointsAttack ≤ 91 ∧
            2 * points.pointsAttack = stats.points) ∧
          (points.oudlers = stats.oudlers ∧ stats.points =
            TarotContext.adjustHalfPoint points.cardsPointsAttack stats.oudlers) ∧
          (points.winner = .attack ↔
            2 * pointsToDo stats.oudlers ≤ points.cardsPointsAttack)) := by
  intro r stats points
  have hstart : (e.newDeal deal).Phase n [] ∧ (e.newDeal deal).Taken := by
    refine ⟨⟨newDeal_beforeDiscard e hplayers hfair, rfl⟩, newDeal_taken deal ?_⟩
    rw [hplayers]
    omega
  have hrun : (∃ plays, r.Phase n plays) ∧ r.Taken ∧ r.Totals := by
    refine hsteps.invariant (fun r : Engine => (∃ plays, r.Phase n plays) ∧ r.Taken ∧ r.Totals) ?_
      ⟨⟨[], hstart.1⟩, hstart.2, (newDeal_tallied e deal).totals rfl hstart.1⟩
    rintro s a ⟨⟨plays, hphase⟩, htaken, htotals⟩ ⟨ha, hbid, hdeal⟩
    have htaken' := htaken.act ha hbid
    have hphase' := hphase.act hn htaken ha htaken' hdeal
    exact ⟨⟨_, hphase'⟩, htaken', htotals.act hphase hn ha hphase'⟩
  obtain ⟨-, -, hbounds, -, hscored⟩ := hrun
  refine ⟨hbounds, fun hend => ?_⟩
  obtain ⟨hwhole, hcount, hadjusted, hwinner⟩ := hscored hend
  obtain ⟨h0, h182, -⟩ := hbounds
  change 2 * points.pointsAttack = stats.points at hwhole
  change 0 ≤ stats.points at h0
  change stats.points ≤ 2 * 91 at h182
  exact ⟨⟨by omega, by omega, hwhole⟩, ⟨hcount, hadjusted⟩, hwinner⟩

end Engine

namespace PlayingTable

open Engine (FairStep)

/-- A deal at a table is a run of such steps for its engine. -/
theorem Reachable.exists_fairSteps {t : PlayingTable} (ht : t.Reachable) {n : ℕ}
    (hn : n = 3 ∨ n = 4 ∨ n = 5) (hplayers : t.nbPlayers = n) {c : Call}
    (hdeal : (t.action c).isNewDeal = true) {cs : List Call}
    (hfair : ∀ d ∈ c :: cs, d.DealsFairly n) (hbids : ∀ d ∈ cs, d.NamesContract) :
    ∃ deal as, deal.Fair n ∧ Guarded Engine.act (FairStep n) (t.mEngine.newDeal deal) as ∧
      (Machine.run PlayingTable.apply (t.apply c) cs).mEngine =
        Machine.run Engine.act (t.mEngine.newDeal deal) as := by
  have hfirst := hfair c List.mem_cons_self
  obtain ⟨deal, hcards, hstart⟩ := exists_newDeal hplayers hdeal hfirst
  obtain ⟨hin, -⟩ := ht.open.newDeal_inDeal hn hplayers hdeal hfirst
  have hguard : Guarded PlayingTable.apply (FairCall n) (t.apply c) cs :=
    guarded_fairCall (guarded_bidCounts _ hbids) fun d hd => hfair d (List.mem_cons_of_mem c hd)
  have hsteps : Guarded Engine.act (FairStep n) _ _ ∧ _ := run_labels mEngine
    (fun s : PlayingTable => ∃ plays, s.InDeal n plays) (fun s d ⟨_, hs⟩ hd => ⟨_, hs.apply hn hd⟩)
    (fun s d ⟨_, hs⟩ hd => ⟨⟨hs.action_enabled d, hd.1, hs.fair hd.2⟩, apply_mEngine s d⟩)
    ⟨_, hin⟩ hguard
  rw [hstart] at hsteps
  exact ⟨deal, _, hcards, hsteps⟩

/-- Three players have played a whole deal. -/
theorem deal_totals_three :
    let r := (playedThree plainDealer).mEngine
    let stats := r.mCtx.mStatsAttack
    let points := r.getCurrentGamePoints
    r.mSequence = .waitForEndOfDeal ∧ 2 * points.pointsAttack = stats.points ∧
      (points.winner = .attack ↔ 2 * pointsToDo stats.oudlers ≤ points.cardsPointsAttack) := by
  have hdeals := playThree_dealsFairly (plainDealer_fair (.inl rfl))
  have hready := lastReady_isNewDeal
  have hend := playedThree_ends.1
  generalize plainDealer = dealer at *
  obtain ⟨deal, as, hfair, hsteps, hrun⟩ := Reachable.exists_fairSteps (t := nearlyReady dealer)
    (.run (.create {} 3 .south (by decide)) _) (.inl rfl) hready.1 hready.2 hdeals
    (playThree_named dealer)
  have htotals := Engine.deal_totals (.inl rfl) hready.1 hfair hsteps
  rw [← hrun] at htotals
  unfold playedThree at hend ⊢
  generalize Machine.run PlayingTable.apply _ (playThree dealer) = s at htotals hend ⊢
  obtain ⟨hscored, -, hwinner⟩ := htotals.2 hend
  exact ⟨hend, hscored.2.2, hwinner⟩

end PlayingTable

end TarotClub
