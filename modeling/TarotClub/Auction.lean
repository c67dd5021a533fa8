import TarotClub.FirstMax
import TarotClub.Refusals
import TarotClub.Trick

namespace TarotClub

open Machine

namespace Engine

/-- How the auction goes on: with another bid, or to its end. -/
theorem act_bidSequence_cases (e : Engine) :
    (e.mPosition < e.mCtx.mNbPlayers ∧ e.mCtx.mBid.slam = false ∧
      e.act .bidSequence = { e with mSequence := .waitForBid }) ∨
    ((e.mCtx.mNbPlayers ≤ e.mPosition ∨ e.mCtx.mBid.slam = true) ∧
      (e.act .bidSequence).mCtx.mBid.contract = e.mCtx.mBid.contract ∧
      (e.act .bidSequence).mCtx.mBid.taker = e.mCtx.mBid.taker ∧
      (e.act .bidSequence).mCtx.mBid.slam = e.mCtx.mBid.slam ∧
      (e.mCtx.mBid.contract = .pass ∧ (e.act .bidSequence).mSequence = .waitForAllPassed ∨
        e.mCtx.mBid.contract ≠ .pass ∧
          (e.act .bidSequence).mSequence.isPastAuction = true)) := by
  by_cases hclosed : e.mCtx.mNbPlayers ≤ e.mPosition ∨ e.mCtx.mBid.slam = true
  · refine .inr ⟨hclosed, ?_⟩
    have hctx : e.isEndOfTrick.2.mCtx = e.mCtx := by
      unfold isEndOfTrick
      split_ifs <;> rfl
    have hcond : (e.isEndOfTrick.1 || e.mCtx.mBid.slam) = true := by
      unfold isEndOfTrick
      split_ifs with h <;> simp_all
    simp only [act, startIfReady_mBid, startIfReady_mSequence, bidSequence, hctx, hcond, if_true]
    by_cases hpass : e.mCtx.mBid.contract = .pass
    · simp only [if_pos hpass]
      exact ⟨trivial, trivial, trivial, .inl ⟨hpass, trivial⟩⟩
    · simp only [if_neg hpass]
      split_ifs
      · exact ⟨rfl, rfl, rfl, .inr ⟨hpass, rfl⟩⟩
      · rw [manageAfterBidSequence_mBid, hctx]
        refine ⟨rfl, rfl, rfl, .inr ⟨hpass, ?_⟩⟩
        rcases manageAfterBidSequence_mSequence e.isEndOfTrick.2 with h | h <;> rw [h] <;> rfl
  · push Not at hclosed
    rw [ne_eq, Bool.not_eq_true] at hclosed
    refine .inl ⟨hclosed.1, hclosed.2, ?_⟩
    simp [act, bidSequence, isEndOfTrick, not_le.mpr hclosed.1, hclosed.2, startIfReady]

/-! A deal past the auction has a taker, unless the last bid of an auction without bids names
no contract either. -/

/-- The bid names a contract, or one has been named before, or another bid is to come. -/
def BidCounts (e : Engine) : Action → Prop
  | .bid c _ _ => c ≠ .noAny ∨ e.mCtx.mBid.contract ≠ .noAny ∨ e.mPosition + 1 < e.mCtx.mNbPlayers
  | _ => True

/-- What bids leave behind them. -/
structure Taken (e : Engine) : Prop where
  players : 0 < e.mCtx.mNbPlayers ∧ e.mCtx.mNbPlayers ≤ 5
  taker : e.mCtx.mBid.contract ≠ .noAny → e.mCtx.mBid.taker.value < e.mCtx.mNbPlayers
  past : e.mSequence.isPastAuction = true → Contract.take ≤ e.mCtx.mBid.contract
  auction : e.mSequence = .waitForCards ∨ e.mSequence = .waitForBid ∨
      e.mSequence = .waitForShowBid → e.mCtx.mBid.contract = .noAny →
    e.mCtx.mBid.slam = false ∧ e.mPosition < e.mCtx.mNbPlayers

theorem newDeal_mBid (e : Engine) (deal : Deal) : (e.newDeal deal).mCtx.mBid = {} := by
  unfold newDeal createDeal
  cases deal.mFirstPlayer <;> rfl

theorem newDeal_mPosition (e : Engine) (deal : Deal) : (e.newDeal deal).mPosition = 0 := by
  unfold newDeal createDeal
  cases deal.mFirstPlayer <;> rfl

/-- A bid is recorded when it is higher than the ones before. -/
theorem setBid_mBid (e : Engine) (c : Contract) (slam : Bool) (p : Place) :
    (e.mCtx.mBid.contract < c ∧ (e.setBid c slam p).2.mCtx.mBid =
        { e.mCtx.mBid with contract := c, taker := p, slam := slam }) ∨
      (c ≤ e.mCtx.mBid.contract ∧ (e.setBid c slam p).2.mCtx.mBid = e.mCtx.mBid) := by
  simp only [setBid, TarotContext.setBid]
  split_ifs with h
  · exact .inl ⟨h, rfl⟩
  · exact .inr ⟨not_lt.mp h, rfl⟩

theorem setBid_mPosition (e : Engine) (c : Contract) (slam : Bool) (p : Place) :
    (e.setBid c slam p).2.mPosition = u8 (e.mPosition + 1) := rfl

theorem setBid_mSequence (e : Engine) (c : Contract) (slam : Bool) (p : Place) :
    (e.setBid c slam p).2.mSequence = .waitForShowBid := rfl

theorem Taken.bid {e : Engine} (he : e.Taken) {c : Contract} {slam : Bool} {p : Place}
    (ha : e.Enabled (.bid c slam p)) (hc : e.BidCounts (.bid c slam p)) :
    (e.act (.bid c slam p)).Taken := by
  obtain ⟨hseq, -, hp⟩ := ha
  have hn : (e.act (.bid c slam p)).mCtx.mNbPlayers = e.mCtx.mNbPlayers := act_mNbPlayers e _
  refine ⟨hn.symm ▸ he.players, ?_, fun h => absurd h Bool.false_ne_true, fun _ => ?_⟩ <;> rw [hn]
  · rcases setBid_mBid e c slam p with ⟨-, h⟩ | ⟨-, h⟩ <;> rw [act, h]
    · exact fun _ => hp
    · exact he.taker
  · rcases setBid_mBid e c slam p with ⟨hlt, h⟩ | ⟨hle, h⟩ <;> rw [act, h]
    · rintro rfl
      exact absurd hlt (not_lt.mpr (Contract.noAny_le _))
    · intro hnone
      rw [hnone] at hle
      have hcn : c = .noAny := le_antisymm hle (Contract.noAny_le c)
      obtain ⟨hslam, hpos⟩ := he.auction (.inr (.inl hseq)) hnone
      refine ⟨hslam, ?_⟩
      rcases hc with hc | hc | hc
      · exact absurd hcn hc
      · exact absurd hnone hc
      · rw [setBid_mPosition, u8, Nat.mod_eq_of_lt (by have := he.players.2; omega)]
        exact hc

theorem Taken.bidSequence {e : Engine} (he : e.Taken) (ha : e.Enabled .bidSequence) :
    (e.act .bidSequence).Taken := by
  have hn : (e.act .bidSequence).mCtx.mNbPlayers = e.mCtx.mNbPlayers := act_mNbPlayers e _
  rcases act_bidSequence_cases e with ⟨hpos, hslam, h⟩ | ⟨hclosed, hc, ht, -, hseq⟩
  · rw [h]
    exact ⟨he.players, he.taker, fun h => absurd h Bool.false_ne_true, fun _ _ => ⟨hslam, hpos⟩⟩
  · have hnone : e.mCtx.mBid.contract ≠ .noAny := by
      intro hnone
      obtain ⟨hslam, hpos⟩ := he.auction (ha.imp_right .inr) hnone
      rcases hclosed with h | h
      · omega
      · exact Bool.false_ne_true (hslam.symm.trans h)
    refine ⟨hn.symm ▸ he.players, ?_, ?_, ?_⟩
    · rw [hn, hc, ht]
      exact he.taker
    · rw [hc]
      rcases hseq with ⟨-, h⟩ | ⟨hpass, -⟩
      · rw [h]
        exact fun h => absurd h Bool.false_ne_true
      · exact fun _ => Contract.take_le hnone hpass
    · rw [hc]
      exact fun _ h => absurd h hnone

/-- Past the auction the taker is a seat. -/
theorem Taken.taker_lt {e : Engine} (he : e.Taken) (h : e.mSequence.isPastAuction = true) :
    e.mCtx.mBid.taker.value < e.mCtx.mNbPlayers := by
  refine he.taker fun hnone => ?_
  have htake := he.past h
  rw [hnone] at htake
  exact absurd htake (by decide)

theorem newDeal_taken {e : Engine} (deal : Deal)
    (hn : 0 < e.mCtx.mNbPlayers ∧ e.mCtx.mNbPlayers ≤ 5) : (e.newDeal deal).Taken := by
  refine ⟨(newDeal_mNbPlayers e deal).symm ▸ hn, ?_, fun h => absurd h Bool.false_ne_true,
    fun _ _ => ?_⟩ <;> rw [newDeal_mBid]
  · exact fun h => absurd rfl h
  · rw [newDeal_mPosition, newDeal_mNbPlayers]
    exact ⟨rfl, hn.1⟩

/-- Every action of the engine keeps it, as long as the bids count. -/
theorem Taken.act {e : Engine} (he : e.Taken) {a : Action} (ha : e.Enabled a)
    (hc : e.BidCounts a) : (e.act a).Taken := by
  by_cases hl : a.isLate = true
  · obtain ⟨hcontract, htaker, -⟩ := act_isLate_mBid e hl
    have hpast := act_isLate_mSequence ha hl
    have hn := act_mNbPlayers e a
    refine ⟨hn.symm ▸ he.players, ?_, fun _ => ?_, fun h => ?_⟩
    · rw [hcontract, htaker, hn]
      exact he.taker
    · rw [hcontract]
      exact he.past (enabled_isLate ha hl)
    · rcases h with h | h | h <;> rw [h] at hpast <;> exact absurd hpast Bool.false_ne_true
  · cases a with
    | stay => exact he
    | newGame =>
      refine ⟨he.players, he.taker, fun h => absurd h Bool.false_ne_true, fun h => ?_⟩
      rcases h with h | h | h <;> cases h
    | newDeal deal => exact newDeal_taken deal he.players
    | bid c slam p => exact he.bid ha hc
    | bidSequence => exact he.bidSequence ha
    | _ => exact absurd rfl hl

theorem createTable_taken (e : Engine) {n : ℕ} (randomPlace : Place) (h0 : 0 < n) (hn : n ≤ 5) :
    (e.createTable n randomPlace).Taken :=
  ⟨⟨h0, hn⟩, fun h => absurd rfl h, fun h => absurd h Bool.false_ne_true,
    fun h => by rcases h with h | h | h <;> cases h⟩

end Engine

namespace PlayingTable

/-- No auction ends on a bid that names no contract when none before did. -/
def BidCounts (t : PlayingTable) (c : Call) : Prop := t.mEngine.BidCounts (t.action c)

/-- Past the auction there is a taker, who has announced `TAKE` or more, in every state that
is reached from a new table by calls whose bids count. -/
theorem taker_of_pastAuction (t : PlayingTable) {n : ℕ} (randomPlace : Place) (h0 : 0 < n)
    (hn : n ≤ 5) {cs : List Call}
    (hcs : Guarded PlayingTable.apply BidCounts (t.createTable n randomPlace) cs) :
    let e := (run PlayingTable.apply (t.createTable n randomPlace) cs).mEngine
    e.mSequence.isPastAuction = true →
      e.mCtx.mBid.taker.value < e.mCtx.mNbPlayers ∧ Contract.take ≤ e.mCtx.mBid.contract := by
  intro e hpast
  have hopen := (createTable_barrier t randomPlace hn).toOpen
  have hinv : (run PlayingTable.apply (t.createTable n randomPlace) cs).Open ∧ e.Taken := by
    refine Guarded.invariant (fun s : PlayingTable => s.Open ∧ s.mEngine.Taken) ?_
      ⟨hopen, Engine.createTable_taken t.mEngine randomPlace h0 hn⟩ hcs
    rintro s c ⟨hs, htaken⟩ hc
    refine ⟨hs.apply c, ?_⟩
    rw [apply_mEngine]
    exact htaken.act (hs.action_enabled c) hc
  exact ⟨hinv.2.taker_lt hpast, hinv.2.past hpast⟩

theorem bidCounts_of_namesContract {t : PlayingTable} {c : Call} (hc : c.NamesContract) :
    t.BidCounts c := by
  unfold BidCounts
  cases ha : t.action c with
  | bid contract slam p => exact .inl (hc.ne_noAny ha)
  | _ => trivial

theorem guarded_bidCounts (t : PlayingTable) {cs : List Call} (h : ∀ c ∈ cs, c.NamesContract) :
    Guarded PlayingTable.apply BidCounts t cs :=
  (guarded_of_forall _ _ t cs h).mono fun _ _ => bidCounts_of_namesContract

/-- Three players join, are ready, have seen their cards, and bid in turn order. -/
def biddingCalls (dealer : Dealer) (bids : List (ℕ × JsonValue)) : List Call :=
  [.addPlayer 7, .addPlayer 8, .addPlayer 9] ++ everyone dealer [7, 8, 9] .waitForPlayers ++
    everyone dealer [7, 8, 9] .waitForReady ++ everyone dealer [7, 8, 9] .waitForCards ++
    bids.flatMap fun bid =>
      .executeRequest dealer bid.1 bid.2 :: everyone dealer [7, 8, 9] .waitForShowBid

theorem taker_of_pastAuction_three :
    let e := (run PlayingTable.apply (({} : PlayingTable).createTable 3 .south)
      (biddingCalls (createRandomDeal Deck.tarotDeck) [(9, PlayerContext.buildReplyBid .pass false),
        (7, PlayerContext.buildReplyBid .take false),
        (8, PlayerContext.buildReplyBid .guard false)])).mEngine
    e.mSequence = .waitForShowDog ∧ e.mCtx.mBid.taker = .east ∧
      e.mCtx.mBid.taker.value < e.mCtx.mNbPlayers :=
  ⟨by decide +kernel, by decide +kernel,
    (taker_of_pastAuction {} .south (by decide) (by decide)
      (guarded_bidCounts _ (by decide +kernel)) (by decide +kernel)).1⟩

/-- Three replies without a contract: the deal goes on without a taker. -/
theorem pastAuction_without_taker :
    let bid : JsonValue := .object (JsonObject.ofList [(str "cmd", .string (str "ReplyBid"))])
    let e := (run PlayingTable.apply (({} : PlayingTable).createTable 3 .south)
      (biddingCalls (createRandomDeal Deck.tarotDeck) [(9, bid), (7, bid), (8, bid)])).mEngine
    e.mSequence.isPastAuction = true ∧
      ¬ (e.mCtx.mBid.taker.value < e.mCtx.mNbPlayers ∧
        Contract.take ≤ e.mCtx.mBid.contract) := by
  decide +kernel

end PlayingTable

end TarotClub
