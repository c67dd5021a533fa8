import TarotClub.CardConservation
import TarotClub.SavedDeal

namespace TarotClub

namespace TarotContext

variable {n k : ℕ} {ctx : TarotContext}

/-- Before the play. -/
structure Unplayed (n : ℕ) (ctx : TarotContext) : Prop where
  stats : ctx.mStatsAttack = {}
  won : ctx.mTricksWon = 0
  partner : n ≠ 5 → ctx.mBid.partner = .nowhere
  attackHandle : ctx.mAttackHandle.mDeck = []
  defenseHandle : ctx.mDefenseHandle.mDeck = []

/-- A handle that was shown: it is long enough, and its cards are cards. -/
structure ShownHandle (handle : Deck) : Prop where
  shown : Shown handle
  valid : ∀ c ∈ handle.mDeck, c.isValid = true

/-- During the play, when `k` tricks are stored. -/
structure Logged (n k : ℕ) (ctx : TarotContext) : Prop where
  recorded : Recorded n k ctx
  discard : ctx.mDiscard.mDeck ≠ []
  owner : ctx.mDiscard.mOwner = if ctx.mBid.contract = .guardAgainst then .defense else .attack
  partner : n ≠ 5 → ctx.mBid.partner = .nowhere
  attackHandle : ShownHandle ctx.mAttackHandle
  defenseHandle : ShownHandle ctx.mDefenseHandle

theorem ShownHandle.of_nil {handle : Deck} (h : handle.mDeck = []) : ShownHandle handle where
  shown := .inl h
  valid := fun c hc => by
    rw [h] at hc
    exact absurd hc List.not_mem_nil

/-- The play begins when the discard is settled. -/
theorem Unplayed.logged (h : Unplayed n ctx) (htricks : ∀ j < 24, (ctx.mTricks j).mDeck = [])
    (discard : Deck) (hd : discard.mDeck ≠ [])
    (howner : discard.mOwner = if ctx.mBid.contract = .guardAgainst then .defense else .attack)
    (first : Place) : Logged n 0 { ctx with mDiscard := discard, mFirstPlayer := first } where
  recorded := .start h.stats h.won htricks
  discard := hd
  owner := howner
  partner := h.partner
  attackHandle := .of_nil h.attackHandle
  defenseHandle := .of_nil h.defenseHandle

end TarotContext

namespace Engine

open TarotContext (Unplayed Logged)

variable {n : ℕ} {plays : List (Card × Place)} {e : Engine}

/-- What is on record in each step of a deal. -/
def Ledger (n : ℕ) (e : Engine) : Prop :=
  match e.mSequence with
  | .waitForCards | .waitForBid | .waitForShowBid | .waitForShowKingCall => Unplayed n e.mCtx
  | .waitForKingCall => Unplayed n e.mCtx ∧ n = 5
  | .waitForShowDog | .waitForDiscard =>
    Unplayed n e.mCtx ∧ e.mCtx.mBid.contract ≠ .guardAgainst
  | .waitForStartDeal | .waitForHandle | .waitForShowHandle | .waitForPlayedCard
  | .waitForShowCard | .waitForEndOfTrick => Logged n e.mTrickCounter e.mCtx
  | .waitForEndOfDeal => ∃ ctx, Logged n (numberOfCardsInHand n) ctx ∧
      e.mCtx = (ctx.analyzeGame {}).2 ∧ e.mCurrentPoints = (ctx.analyzeGame {}).1
  | _ => True

theorem newDeal_unplayed (e : Engine) (deal : Deal) : Unplayed n (e.newDeal deal).mCtx := by
  unfold newDeal createDeal
  cases deal.mFirstPlayer
  · exact ⟨rfl, rfl, fun _ => rfl, rfl, rfl⟩
  · exact ⟨rfl, rfl, fun _ => rfl, rfl, rfl⟩

/-- The dog of a guard without or against is settled at once. -/
theorem BeforeDiscard.manage_ledger (h : e.BeforeDiscard n) (hn : n = 3 ∨ n = 4 ∨ n = 5)
    (hu : Unplayed n e.mCtx) : (e.act .manageAfterBid).Ledger n := by
  have hdog : e.mCtx.mDog.mDeck ≠ [] := by
    intro hnil
    have h0 : e.mCtx.mDog.size = 0 := congrArg List.length hnil
    have hpos := (sizes hn).1
    rw [h.dog] at h0
    omega
  rw [act, manageAfterBidSequence, TarotContext.manageDogAfterBid]
  by_cases hw : e.mCtx.mBid.contract = .guardWithout
  · rw [if_pos hw]
    exact hu.logged h.tricks (e.mCtx.mDog.setOwner .attack) hdog (by rw [hw]; rfl) _
  rw [if_neg hw]
  by_cases ha : e.mCtx.mBid.contract = .guardAgainst
  · rw [if_pos ha]
    exact hu.logged h.tricks (e.mCtx.mDog.setOwner .defense) hdog (by rw [ha]; rfl) _
  · rw [if_neg ha]
    exact ⟨hu, ha⟩

theorem BeforeDiscard.bid_ledger (h : e.BeforeDiscard n) (hn : n = 3 ∨ n = 4 ∨ n = 5)
    (hu : Unplayed n e.mCtx) : (e.act .bidSequence).Ledger n := by
  have hcount : e.isEndOfTrick.2.BeforeDiscard n ∧ Unplayed n e.isEndOfTrick.2.mCtx := by
    unfold isEndOfTrick
    split_ifs
    · exact ⟨h.congr rfl rfl rfl rfl rfl rfl, hu⟩
    · exact ⟨h, hu⟩
  rw [act, Engine.bidSequence]
  generalize e.isEndOfTrick = r at hcount
  obtain ⟨endOfTrick, e⟩ := r
  obtain ⟨hbefore, hu⟩ := hcount
  dsimp only at hbefore hu ⊢
  by_cases hclosed : (endOfTrick || e.mCtx.mBid.slam) = true
  · rw [if_pos hclosed]
    by_cases hpass : e.mCtx.mBid.contract = .pass
    · rw [if_pos hpass]
      trivial
    rw [if_neg hpass]
    by_cases hking : e.mCtx.mNbPlayers = 5 ∧ e.mSequence = .waitForShowBid
    · have h5 : n = 5 := hbefore.players.symm.trans hking.1
      rw [if_pos hking]
      exact ⟨⟨hu.stats, hu.won, fun hne => absurd h5 hne, hu.attackHandle, hu.defenseHandle⟩, h5⟩
    · rw [if_neg hking]
      exact hbefore.manage_ledger hn hu
  · rw [if_neg hclosed]
    exact hu

/-- The discard of the taker goes to the attack. -/
theorem BeforeDiscard.discard_ledger (h : e.BeforeDiscard n) (hn : n = 3 ∨ n = 4 ∨ n = 5)
    (hu : Unplayed n e.mCtx) (hcontract : e.mCtx.mBid.contract ≠ .guardAgainst) {discard : Deck}
    (ha : e.Enabled (.discard discard)) : (e.act (.discard discard)).Ledger n := by
  obtain ⟨hsize, -⟩ := testDiscard_le ha.2
  have hnil : discard.mDeck ≠ [] := by
    intro hnil
    have h0 : discard.size = 0 := congrArg List.length hnil
    have hpos := (sizes hn).1
    rw [h.players] at hsize
    omega
  rw [act, setDiscard, if_pos ha.2]
  exact hu.logged h.tricks (discard.setOwner .attack) hnil (by rw [if_neg hcontract]; rfl) _

/-- A handle that passes the test is a handle of the hand. -/
theorem Playing.shownHandle (h : e.Playing n plays) {p : Place} (hp : p.value < n)
    {cards : Deck} (ht : (e.mPlayers p.value).testHandle cards = true) :
    TarotContext.ShownHandle cards := by
  simp only [Deck.testHandle, Bool.and_eq_true, decide_eq_true_eq, List.all_eq_true,
    Deck.hasCard_iff, ne_eq] at ht
  have hvalid := valid_of_le_cards h.cards (hand_le_cards e (h.players.symm ▸ hp))
  exact ⟨.inr ht.1.1.1, fun c hc => hvalid c (ht.1.2 c hc)⟩

/-- Storing a trick. -/
theorem Playing.logged_storeTrick (h : e.Playing n plays) (hn : n = 3 ∨ n = 4 ∨ n = 5)
    (hk : e.mTrickCounter < numberOfCardsInHand n) (hpos : e.mPosition = n)
    (hl : Logged n e.mTrickCounter e.mCtx) :
    Logged n e.storeTrick.mTrickCounter e.storeTrick.mCtx := by
  have hk24 : e.mTrickCounter < 24 := lt_of_lt_of_le hk (sizes hn).2.1
  have hle := currentTrick_le_cards e
  have htrick : TarotContext.IsTrick n e.currentTrick :=
    ⟨h.current.trans hpos, valid_of_le_cards h.cards hle,
      Multiset.coe_nodup.mp (nodup_of_le_cards h.cards hle)⟩
  have htaker : e.mCtx.mBid.taker ≠ .nowhere := by
    intro hnowhere
    have hlt := h.taker
    rw [hnowhere] at hlt
    have hvalue : Place.nowhere.value = 5 := rfl
    omega
  obtain ⟨-, -, hbid, -, hdiscard, -, hattack, hdefense, -⟩ :=
    TarotContext.setTrick_frame e.mCtx e.currentTrick hk24
  have hrecorded := hl.recorded.setTrick htrick (by omega) (by omega) hk hk24 h.lead htaker
  exact
    { recorded := hrecorded
      discard := by
        change (e.mCtx.setTrick e.currentTrick (e.mTrickCounter + 1)).2.mDiscard.mDeck ≠ []
        rw [hdiscard]
        exact hl.discard
      owner := by
        change (e.mCtx.setTrick e.currentTrick (e.mTrickCounter + 1)).2.mDiscard.mOwner =
          if (e.mCtx.setTrick e.currentTrick (e.mTrickCounter + 1)).2.mBid.contract = _ then _
          else _
        rw [hdiscard, hbid]
        exact hl.owner
      partner := fun hne => (congrArg Bid.partner hbid).trans (hl.partner hne)
      attackHandle := by
        change TarotContext.ShownHandle (e.mCtx.setTrick e.currentTrick _).2.mAttackHandle
        rw [hattack]
        exact hl.attackHandle
      defenseHandle := by
        change TarotContext.ShownHandle (e.mCtx.setTrick e.currentTrick _).2.mDefenseHandle
        rw [hdefense]
        exact hl.defenseHandle }

theorem Playing.gameSequence_ledger (h : e.Playing n plays) (hn : n = 3 ∨ n = 4 ∨ n = 5)
    (hk : e.mTrickCounter < numberOfCardsInHand n) (hl : Logged n e.mTrickCounter e.mCtx) :
    (e.act .gameSequence).Ledger n := by
  rw [act]
  rcases playOn_cases h.players (sizes hn).2.1 hk with
    ⟨hpos, hact⟩ | ⟨-, hact | hact⟩ <;> rw [hact]
  · have hend := h.logged_storeTrick hn hk (le_antisymm h.position hpos) hl
    split_ifs with hlast
    · have hcounter : e.storeTrick.mTrickCounter = numberOfCardsInHand n := hlast
      rw [hcounter] at hend
      exact ⟨e.storeTrick.mCtx, hend, rfl, rfl⟩
    · exact hend
  · exact hl
  · exact hl

theorem Playing.handle_ledger (h : e.Playing n plays) (hl : Logged n e.mTrickCounter e.mCtx)
    {cards : Deck} {p : Place} (hp : p.value < n) (ha : e.Enabled (.handle cards p)) :
    (e.act (.handle cards p)).Ledger n := by
  have hshown := h.shownHandle hp ha.2.2
  rw [act, setHandle, if_pos ha.2.2, TarotContext.setHandle]
  split_ifs
  · exact ⟨hl.recorded.congr rfl rfl rfl rfl rfl rfl, hl.discard, hl.owner, hl.partner, hshown,
      hl.defenseHandle⟩
  · exact ⟨hl.recorded.congr rfl rfl rfl rfl rfl rfl, hl.discard, hl.owner, hl.partner,
      hl.attackHandle, hshown⟩

/-- What is on record in one step of the engine is on record in the next. -/
theorem Ledger.act (hledger : e.Ledger n) (h : e.Phase n plays) (hn : n = 3 ∨ n = 4 ∨ n = 5)
    {a : Action} (ha : e.Enabled a) : (e.act a).Ledger n := by
  cases a with
  | stay => exact hledger
  | newGame => trivial
  | newDeal deal => exact newDeal_unplayed e deal
  | bid c slam p =>
    simp only [Ledger, ha.1] at hledger
    have hctx : ∀ c' slam', Unplayed n { e.mCtx with
        mBid := { e.mCtx.mBid with contract := c', taker := p, slam := slam' } } := fun _ _ =>
      ⟨hledger.stats, hledger.won, hledger.partner, hledger.attackHandle, hledger.defenseHandle⟩
    simp only [Engine.act, setBid, TarotContext.setBid]
    split_ifs
    · exact hctx c slam
    · exact hledger
  | bidSequence =>
    have h' : e.BeforeDiscard n ∧ Unplayed n e.mCtx := by
      rcases ha with hs | hs <;> simp only [Phase, Ledger, hs] at h hledger <;>
        exact ⟨h.1, hledger⟩
    exact h'.1.bid_ledger hn h'.2
  | manageAfterBid =>
    simp only [Phase, Ledger, show e.mSequence = _ from ha] at h hledger
    exact h.1.manage_ledger hn hledger
  | discardSequence =>
    simp only [Ledger, show e.mSequence = _ from ha] at hledger
    exact hledger
  | discard cards =>
    simp only [Phase, Ledger, ha.1] at h hledger
    exact h.1.discard_ledger hn hledger.1 hledger.2 ha
  | kingCall c =>
    simp only [Ledger, ha.1] at hledger
    obtain ⟨hu, h5⟩ := hledger
    rw [Engine.act, setKingCalled, if_pos ha.2]
    exact ⟨hu.stats, hu.won, fun hne => absurd h5 hne, hu.attackHandle, hu.defenseHandle⟩
  | handle cards p =>
    simp only [Phase, Ledger, ha.1] at h hledger
    have hp : p.value < n := by
      rw [ha.2.1, h.1.turn]
      exact TarotContext.seatAfter_lt (by omega) h.1.lead _
    exact h.1.handle_ledger hledger hp ha
  | gameSequence =>
    have h' : e.Playing n plays ∧ e.mTrickCounter < numberOfCardsInHand n ∧
        Logged n e.mTrickCounter e.mCtx := by
      rcases ha with hs | hs | hs | hs | hs <;> simp only [Phase, Ledger, hs] at h hledger
      exacts [⟨h.1, h.2.1, hledger⟩, ⟨h.1, h.2.1, hledger⟩, ⟨h.1, h.2.1, hledger⟩,
        ⟨h.1, h.2, hledger⟩, ⟨h.1, h.2.1, hledger⟩]
    exact h'.1.gameSequence_ledger hn h'.2.1 h'.2.2
  | card c p =>
    simp only [Ledger, ha.1] at hledger
    rw [Engine.act, setCard, if_pos ha.2.2.2]
    exact hledger

end Engine

end TarotClub
