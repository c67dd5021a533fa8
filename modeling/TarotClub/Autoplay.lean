import TarotClub.Auction
import TarotClub.Eager

namespace TarotClub

open Machine Eager

instance : Eager Card where
  eval c k := match c with
    | ⟨mValue, mSuit⟩ => k ⟨mValue, mSuit⟩
  eval_eq _ _ := rfl

instance : Eager Team where
  eval a k := match a with
    | .attack => k .attack
    | .defense => k .defense
    | .noTeam => k .noTeam
  eval_eq a k := by cases a <;> rfl

instance : Eager Place where
  eval a k := match a with
    | .south => k .south
    | .east => k .east
    | .north => k .north
    | .west => k .west
    | .fifth => k .fifth
    | .nowhere => k .nowhere
  eval_eq a k := by cases a <;> rfl

instance : Eager Contract where
  eval a k := match a with
    | .noAny => k .noAny
    | .pass => k .pass
    | .take => k .take
    | .guard => k .guard
    | .guardWithout => k .guardWithout
    | .guardAgainst => k .guardAgainst
  eval_eq a k := by cases a <;> rfl

instance : Eager Sequence where
  eval a k := match a with
    | .badStep => k .badStep
    | .stopped => k .stopped
    | .waitForPlayers => k .waitForPlayers
    | .waitForReady => k .waitForReady
    | .waitForCards => k .waitForCards
    | .waitForBid => k .waitForBid
    | .waitForShowBid => k .waitForShowBid
    | .waitForAllPassed => k .waitForAllPassed
    | .waitForKingCall => k .waitForKingCall
    | .waitForShowKingCall => k .waitForShowKingCall
    | .waitForShowDog => k .waitForShowDog
    | .waitForDiscard => k .waitForDiscard
    | .waitForStartDeal => k .waitForStartDeal
    | .waitForHandle => k .waitForHandle
    | .waitForShowHandle => k .waitForShowHandle
    | .waitForPlayedCard => k .waitForPlayedCard
    | .waitForShowCard => k .waitForShowCard
    | .waitForEndOfTrick => k .waitForEndOfTrick
    | .waitForEndOfDeal => k .waitForEndOfDeal
  eval_eq a k := by cases a <;> rfl

instance : Eager Deck where
  eval d k := eval d.mDeck fun mDeck => eval d.mOwner fun mOwner => k ⟨mDeck, mOwner⟩
  eval_eq d k := by simp

instance : Eager Challenger where
  eval c k := eval c.uuid fun uuid => eval c.ack fun ack => k ⟨uuid, ack⟩
  eval_eq c k := by simp

instance : Eager Bid where
  eval b k := eval b.taker fun taker => eval b.partner fun partner =>
    eval b.contract fun contract => eval b.slam fun slam => k ⟨taker, partner, contract, slam⟩
  eval_eq b k := by simp

instance : Eager Points where
  eval p k := eval p.pointsAttack fun pointsAttack =>
    eval p.cardsPointsAttack fun cardsPointsAttack => eval p.oudlers fun oudlers =>
    eval p.handlePoints fun handlePoints => eval p.slamDone fun slamDone =>
    eval p.littleEndianOwner fun littleEndianOwner =>
    k ⟨pointsAttack, cardsPointsAttack, oudlers, handlePoints, slamDone, littleEndianOwner⟩
  eval_eq p k := by simp

/-- The tricks and their winners stay as they are stored: what is stored has been computed. -/
instance : Eager TarotContext where
  eval c k := eval c.mNbPlayers fun mNbPlayers => eval c.mBid fun mBid =>
    eval c.mDiscard fun mDiscard => eval c.mDog fun mDog =>
    eval c.mFirstPlayer fun mFirstPlayer => eval c.mTricksWon fun mTricksWon =>
    k { c with mNbPlayers, mBid, mDiscard, mDog, mFirstPlayer, mTricksWon }
  eval_eq c k := by simp

instance : Eager Engine where
  eval e k := evalFirst 5 e.mPlayers fun mPlayers => eval e.currentTrick fun currentTrick =>
    eval e.mSequence fun mSequence => eval e.mPosition fun mPosition =>
    eval e.mDealer fun mDealer => eval e.mTrickCounter fun mTrickCounter =>
    eval e.mCurrentPlayer fun mCurrentPlayer => evalFirst 5 e.mHandleAsked fun mHandleAsked =>
    eval e.mCtx fun mCtx => eval e.mCurrentPoints fun mCurrentPoints =>
    k { e with mPlayers, currentTrick, mSequence, mPosition, mDealer, mTrickCounter,
               mCurrentPlayer, mHandleAsked, mCtx, mCurrentPoints }
  eval_eq e k := by simp

instance : Eager PlayingTable where
  eval t k := eval t.mEngine fun mEngine => evalFirst 5 t.mPlayers fun mPlayers =>
    eval t.mAdmin fun mAdmin => k { t with mEngine, mPlayers, mAdmin }
  eval_eq t k := by simp

namespace PlayingTable

/-- The first card of a hand that may be played. -/
def firstPlayable (e : Engine) : Option Card :=
  let hand := e.mPlayers e.mCurrentPlayer.value
  hand.mDeck.find? fun c => hand.canPlayCard c e.currentTrick

/-- What the players send in the state the table is in. -/
def nextCalls (dealer : Dealer) (contract : Contract) (uuids : List ℕ) (t : PlayingTable) :
    List Call :=
  let e := t.mEngine
  let send := Call.executeRequest dealer (t.mPlayers e.mCurrentPlayer.value).uuid
  match e.mSequence with
  | .waitForBid =>
    [send (PlayerContext.buildReplyBid (if e.mPosition = 0 then contract else .pass) false)]
  | .waitForHandle => [send (PlayerContext.buildHandle {})]
  | .waitForPlayedCard =>
    ((firstPlayable e).map fun c => send (PlayerContext.buildSendCard c)).toList
  | step => everyone dealer uuids step

theorem everyone_dealsFairly {n : ℕ} {dealer : Dealer}
    (hd : ∀ distribution, (dealer n distribution).Fair n) (uuids : List ℕ) (step : Sequence) :
    ∀ c ∈ everyone dealer uuids step, c.DealsFairly n := by
  intro c hc
  obtain ⟨uuid, -, rfl⟩ := List.mem_map.mp hc
  exact hd

theorem everyone_named (dealer : Dealer) (uuids : List ℕ) (step : Sequence) :
    ∀ c ∈ everyone dealer uuids step, c.NamesContract := by
  intro c hc
  obtain ⟨uuid, -, rfl⟩ := List.mem_map.mp hc
  intro hcmd
  rw [PlayerContext.sync_cmd] at hcmd
  contradiction

/-- The players send a bid, or something that is no bid. -/
theorem mem_nextCalls {dealer : Dealer} {contract : Contract} {uuids : List ℕ} {t : PlayingTable}
    {c : Call} (h : c ∈ nextCalls dealer contract uuids t) :
    ∃ uuid json, c = .executeRequest dealer uuid json ∧
      ((∃ bid, json = PlayerContext.buildReplyBid bid false ∧ (bid = contract ∨ bid = .pass)) ∨
        (json.findValue (str "cmd")).getString ≠ str "ReplyBid") := by
  have hall : ∀ step, c ∈ everyone dealer uuids step → ∃ uuid json,
      c = .executeRequest dealer uuid json ∧
        (json.findValue (str "cmd")).getString ≠ str "ReplyBid" := by
    intro step hmem
    obtain ⟨uuid, -, rfl⟩ := List.mem_map.mp hmem
    exact ⟨uuid, _, rfl, by rw [PlayerContext.sync_cmd]; decide⟩
  simp only [nextCalls] at h
  split at h
  · rw [List.mem_singleton.mp h]
    refine ⟨_, _, rfl, .inl ⟨_, rfl, ?_⟩⟩
    split_ifs
    · exact .inl rfl
    · exact .inr rfl
  · rw [List.mem_singleton.mp h]
    exact ⟨_, _, rfl, .inr (by decide)⟩
  · obtain ⟨card, -, rfl⟩ := Option.map_eq_some_iff.mp (Option.mem_toList.mp h)
    exact ⟨_, _, rfl, .inr (by rw [PlayerContext.buildSendCard_cmd]; decide)⟩
  · obtain ⟨uuid, json, hc, hjson⟩ := hall _ h
    exact ⟨uuid, json, hc, .inr hjson⟩

theorem nextCalls_named (dealer : Dealer) {contract : Contract} (hc : contract ≠ .noAny)
    (uuids : List ℕ) (t : PlayingTable) :
    ∀ c ∈ nextCalls dealer contract uuids t, c.NamesContract := by
  intro c hmem
  obtain ⟨uuid, json, rfl, ⟨bid, rfl, hbid⟩ | hother⟩ := mem_nextCalls hmem
  · intro _
    rw [(PlayerContext.buildReplyBid_read bid false).1]
    rcases hbid with rfl | rfl
    · exact hc
    · decide
  · exact fun hcmd => absurd hcmd hother

theorem nextCalls_dealsFairly {n : ℕ} {dealer : Dealer}
    (hd : ∀ distribution, (dealer n distribution).Fair n) (contract : Contract) (uuids : List ℕ)
    (t : PlayingTable) : ∀ c ∈ nextCalls dealer contract uuids t, c.DealsFairly n := by
  intro c hmem
  obtain ⟨uuid, json, rfl, -⟩ := mem_nextCalls hmem
  exact hd

/-- Three players sit down, and two of them are ready. -/
def openingCalls (dealer : Dealer) : List Call :=
  [.addPlayer 7, .addPlayer 8, .addPlayer 9] ++ everyone dealer [7, 8, 9] .waitForPlayers ++
    everyone dealer [7, 8] .waitForReady

def nearlyReady (dealer : Dealer) : PlayingTable :=
  run apply (({} : PlayingTable).createTable 3 .south) (openingCalls dealer)

/-- The last of three players is ready. -/
def lastReady (dealer : Dealer) : Call :=
  .executeRequest dealer 9 (PlayerContext.sync .waitForReady)

/-- What the three do from their cards to the end of the deal. -/
def playThree (dealer : Dealer) : List Call :=
  answers apply (nextCalls dealer .guardWithout [7, 8, 9]) 178
    ((nearlyReady dealer).apply (lastReady dealer))

/-- All calls, from the first player to the end of the deal. -/
def dealCalls (dealer : Dealer) : List Call :=
  openingCalls dealer ++ lastReady dealer :: playThree dealer

/-- The table at the end of the deal. -/
def playedThree (dealer : Dealer) : PlayingTable :=
  run apply ((nearlyReady dealer).apply (lastReady dealer)) (playThree dealer)

theorem run_dealCalls (dealer : Dealer) :
    run apply (({} : PlayingTable).createTable 3 .south) (dealCalls dealer) =
      playedThree dealer := by
  rw [dealCalls, run_append, run_cons]
  rfl

theorem playedThree_reachable (dealer : Dealer) : (playedThree dealer).Reachable :=
  .run (.call _ _ (.run (.create {} 3 .south (by decide)) _)) (playThree dealer)

theorem playThree_named (dealer : Dealer) : ∀ c ∈ playThree dealer, c.NamesContract :=
  forall_mem_answers (nextCalls_named dealer (by decide) _) _ _

theorem dealCalls_named (dealer : Dealer) : ∀ c ∈ dealCalls dealer, c.NamesContract := by
  have hadd : ∀ c ∈ [Call.addPlayer 7, .addPlayer 8, .addPlayer 9], c.NamesContract := by decide
  have hready := everyone_named dealer [7, 8, 9] .waitForReady
  simp only [dealCalls, openingCalls, List.forall_mem_append, List.forall_mem_cons]
  refine ⟨⟨⟨?_, everyone_named _ _ _⟩, everyone_named _ _ _⟩, ?_, playThree_named dealer⟩
  · simpa using hadd
  · exact hready _ (by simp [everyone, lastReady])

section

variable {dealer : Dealer} (hd : ∀ distribution, (dealer 3 distribution).Fair 3)
include hd

theorem playThree_dealsFairly : ∀ c ∈ lastReady dealer :: playThree dealer, c.DealsFairly 3 :=
  List.forall_mem_cons.mpr ⟨hd, forall_mem_answers (nextCalls_dealsFairly hd _ _) _ _⟩

theorem dealCalls_dealsFairly : ∀ c ∈ dealCalls dealer, c.DealsFairly 3 := by
  have hplay := playThree_dealsFairly hd
  simp only [dealCalls, openingCalls, List.forall_mem_append, List.forall_mem_cons]
  simp only [List.forall_mem_cons] at hplay
  exact ⟨⟨⟨⟨trivial, trivial, trivial, by simp⟩, everyone_dealsFairly hd _ _⟩,
    everyone_dealsFairly hd _ _⟩, hplay⟩

end

theorem playedThree_of_play (dealer : Dealer) {P : PlayingTable → Bool}
    (h : play apply (nextCalls dealer .guardWithout [7, 8, 9]) 178
      ((nearlyReady dealer).apply (lastReady dealer)) P = true) : P (playedThree dealer) = true :=
  (play_eq apply _ _ _ P).symm.trans h

theorem lastReady_isNewDeal : (nearlyReady plainDealer).nbPlayers = 3 ∧
    ((nearlyReady plainDealer).action (lastReady plainDealer)).isNewDeal = true := by
  decide +kernel

theorem playedThree_ends : (playedThree plainDealer).mEngine.mSequence = .waitForEndOfDeal ∧
    (playedThree plainDealer).mEngine.mTrickCounter = 24 :=
  of_decide_eq_true (playedThree_of_play plainDealer (P := fun t =>
    decide (t.mEngine.mSequence = .waitForEndOfDeal ∧ t.mEngine.mTrickCounter = 24))
      (by decide +kernel))

/-- A table of three players who have just sat down. -/
def threePlayers : PlayingTable :=
  run apply (({} : PlayingTable).createTable 3 .south) [.addPlayer 7, .addPlayer 8, .addPlayer 9]

end PlayingTable

end TarotClub
