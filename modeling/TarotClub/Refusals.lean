import TarotClub.AckBarrier

namespace TarotClub

open Machine

namespace PlayingTable

/-- The requests that are out of turn, out of step, not the sender's to make, or against the
rules. -/
inductive Refused (t : PlayingTable) (srcUuid : ℕ) (json : JsonValue) : Prop
  | notCurrent (step : Sequence)
      (hcmd : Answers (json.findValue (str "cmd")).getString step)
      (hstep : step = .waitForBid ∨ step = .waitForHandle ∨ step = .waitForPlayedCard)
      (h : t.getPlayerUuid t.mEngine.mCurrentPlayer ≠ srcUuid)
  | notTaker (step : Sequence)
      (hcmd : Answers (json.findValue (str "cmd")).getString step)
      (hstep : step = .waitForDiscard ∨ step = .waitForKingCall)
      (h : t.getPlayerUuid t.mEngine.mCtx.mBid.taker ≠ srcUuid)
  | wrongStep (step : Sequence)
      (hcmd : Answers (json.findValue (str "cmd")).getString step)
      (h : t.mEngine.mSequence ≠ step)
  | notAdmin (hcmd : (json.findValue (str "cmd")).getString = str "RequestNewGame")
      (h : srcUuid ≠ t.mAdmin)
  | badCard (hcmd : (json.findValue (str "cmd")).getString = str "Card")
      (h : (t.mEngine.mPlayers t.mEngine.mCurrentPlayer.value).canPlayCard
        (Card.ofString (json.findValue (str "card")).getString) t.mEngine.currentTrick = false)
  | badDiscard (hcmd : (json.findValue (str "cmd")).getString = str "Discard")
      (h : t.mEngine.takerDeck.testDiscard
        (Deck.ofString (json.findValue (str "discard")).getString) t.mEngine.mCtx.mDog
        t.nbPlayers = false)

/-- Who does not sit on a seat is not found there. -/
theorem getPlayerPlace_ne {t : PlayingTable} (hn : t.nbPlayers ≤ 5) {p : Place}
    (hp : p.value < t.nbPlayers) {uuid : ℕ} (h : t.getPlayerUuid p ≠ uuid) :
    t.getPlayerPlace uuid ≠ p := by
  rintro rfl
  have hne : t.getPlayerPlace uuid ≠ .nowhere := by
    intro he
    rw [he, show Place.nowhere.value = 5 from rfl] at hp
    omega
  exact h (getPlayerPlace_of_ne hn hne).2

section
variable {t : PlayingTable} {srcUuid : ℕ} {json : JsonValue}

theorem executeReplyBid_refused
    (h : t.getPlayerPlace srcUuid ≠ t.mEngine.mCurrentPlayer ∨
      t.mEngine.mSequence ≠ .waitForBid) :
    t.executeReplyBid srcUuid json = { table := t } := by
  simp only [executeReplyBid]
  rw [if_neg]
  tauto

theorem executeDiscard_refused
    (h : t.mEngine.mSequence ≠ .waitForDiscard ∨
      t.getPlayerPlace srcUuid ≠ t.mEngine.mCtx.mBid.taker ∨
      t.mEngine.takerDeck.testDiscard (Deck.ofString (json.findValue (str "discard")).getString)
        t.mEngine.mCtx.mDog t.nbPlayers = false) :
    t.executeDiscard srcUuid json = { table := t } := by
  by_cases hturn : t.mEngine.mSequence = .waitForDiscard ∧
      t.mEngine.mCtx.mBid.taker = t.getPlayerPlace srcUuid
  · have htest : t.mEngine.takerDeck.testDiscard
        (Deck.ofString (json.findValue (str "discard")).getString) t.mEngine.mCtx.mDog
        t.mEngine.mCtx.mNbPlayers = false := by
      rcases h with h | h | h
      · exact absurd hturn.1 h
      · exact absurd hturn.2.symm h
      · exact h
    simp only [executeDiscard, if_pos hturn, Engine.setDiscard, htest, Bool.false_eq_true, if_false]
  · simp only [executeDiscard, if_neg hturn]

theorem executeReplyKingCall_refused
    (h : t.mEngine.mSequence ≠ .waitForKingCall ∨
      t.getPlayerPlace srcUuid ≠ t.mEngine.mCtx.mBid.taker) :
    t.executeReplyKingCall srcUuid json = { table := t } := by
  simp only [executeReplyKingCall]
  rw [if_neg]
  tauto

theorem executeHandle_refused
    (h : t.mEngine.mSequence ≠ .waitForHandle ∨
      t.getPlayerPlace srcUuid ≠ t.mEngine.mCurrentPlayer) :
    t.executeHandle srcUuid json = { table := t } := by
  simp only [executeHandle]
  rw [if_neg]
  tauto

theorem executeCard_refused
    (h : t.mEngine.mSequence ≠ .waitForPlayedCard ∨
      t.getPlayerPlace srcUuid ≠ t.mEngine.mCurrentPlayer ∨
      (t.mEngine.mPlayers t.mEngine.mCurrentPlayer.value).canPlayCard
        (Card.ofString (json.findValue (str "card")).getString) t.mEngine.currentTrick = false) :
    t.executeCard srcUuid json = { table := t } := by
  by_cases hturn : (Card.ofString (json.findValue (str "card")).getString).isValid = true ∧
      t.mEngine.mSequence = .waitForPlayedCard ∧
      t.mEngine.mCurrentPlayer = t.getPlayerPlace srcUuid
  · have hplay : (t.mEngine.mPlayers (t.getPlayerPlace srcUuid).value).canPlayCard
        (Card.ofString (json.findValue (str "card")).getString) t.mEngine.currentTrick =
          false := by
      rcases h with h | h | h
      · exact absurd hturn.2.1 h
      · exact absurd hturn.2.2.symm h
      · rw [← hturn.2.2]
        exact h
    simp only [executeCard, if_pos hturn, Engine.setCard, hplay, Bool.false_eq_true, if_false]
  · simp only [executeCard, if_neg hturn]

/-- Nothing answers a step that the engine does not wait at. -/
theorem executeAnswer_refused {step : Sequence} (h : t.mEngine.mSequence ≠ step) :
    t.executeAnswer step srcUuid json = { table := t } := by
  cases step
  case waitForBid => exact executeReplyBid_refused (.inr h)
  case waitForDiscard => exact executeDiscard_refused (.inl h)
  case waitForKingCall => exact executeReplyKingCall_refused (.inl h)
  case waitForHandle => exact executeHandle_refused (.inl h)
  case waitForPlayedCard => exact executeCard_refused (.inl h)
  all_goals rfl

end

/-- A refused request changes nothing and is not answered. -/
theorem executeRequest_refused {t : PlayingTable} (ht : t.Reachable)
    (hcur : t.mEngine.mCurrentPlayer.value < t.nbPlayers)
    (htaker : t.mEngine.mSequence.isPastAuction = true →
      t.mEngine.mCtx.mBid.taker.value < t.nbPlayers)
    (dealer : Dealer) {srcUuid : ℕ} {json : JsonValue} (h : t.Refused srcUuid json) :
    t.executeRequest dealer srcUuid json = { table := t, out := [], isEndOfDeal := false } := by
  have hn := ht.open.seats
  cases h with
  | notCurrent step hcmd hstep h =>
    have hp := getPlayerPlace_ne hn hcur h
    rw [executeRequest_of_answers dealer t srcUuid json hcmd]
    rcases hstep with rfl | rfl | rfl
    · exact executeReplyBid_refused (.inl hp)
    · exact executeHandle_refused (.inr hp)
    · exact executeCard_refused (.inr (.inl hp))
  | notTaker step hcmd hstep h =>
    rw [executeRequest_of_answers dealer t srcUuid json hcmd]
    by_cases hs : t.mEngine.mSequence = step
    · have hp := getPlayerPlace_ne hn
        (htaker (by rcases hstep with rfl | rfl <;> rw [hs] <;> rfl)) h
      rcases hstep with rfl | rfl
      · exact executeDiscard_refused (.inr (.inl hp))
      · exact executeReplyKingCall_refused (.inr hp)
    · rcases hstep with rfl | rfl
      · exact executeDiscard_refused (.inl hs)
      · exact executeReplyKingCall_refused (.inl hs)
  | wrongStep step hcmd h =>
    rw [executeRequest_of_answers dealer t srcUuid json hcmd]
    exact executeAnswer_refused h
  | notAdmin hcmd h =>
    rw [(request_of_newGame dealer t srcUuid json hcmd).1, executeNewGame, if_neg h]
  | badCard hcmd h =>
    rw [executeRequest_of_answers dealer t srcUuid json (hcmd ▸ Answers.card)]
    exact executeCard_refused (.inr (.inr h))
  | badDiscard hcmd h =>
    rw [executeRequest_of_answers dealer t srcUuid json (hcmd ▸ Answers.discard)]
    exact executeDiscard_refused (.inr (.inr h))

theorem executeRequest_refused_turn :
    let dealer : Dealer := fun _ _ => ⟨fun _ => {}, {}, none⟩
    let t := run PlayingTable.apply (({} : PlayingTable).createTable 3 .south)
      ([.addPlayer 7, .addPlayer 8, .addPlayer 9] ++ everyone dealer [7, 8, 9] .waitForPlayers ++
        everyone dealer [7, 8, 9] .waitForReady ++ everyone dealer [7, 8, 9] .waitForCards)
    t.mEngine.mSequence = .waitForBid ∧
      t.executeRequest dealer 7 (PlayerContext.buildReplyBid .take false) =
        { table := t, out := [], isEndOfDeal := false } := by
  refine ⟨by decide +kernel, executeRequest_refused ((Reachable.create _ _ _ (by decide)).run _)
    (by decide +kernel) (fun h => absurd h (by decide +kernel)) _
    (.notCurrent .waitForBid ?_ (.inl rfl) (by decide +kernel))⟩
  rw [PlayerContext.buildReplyBid_cmd]
  exact .replyBid

end PlayingTable

end TarotClub
