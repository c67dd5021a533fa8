import TarotClub.DealLength
import TarotClub.DeckText
import TarotClub.Discards
import TarotClub.KingCall
import TarotClub.LegalPlay
import TarotClub.Tournament

namespace TarotClub

open Machine

/-- The deal is over. -/
def Sequence.isOver (seq : Sequence) : Bool := seq = .waitForAllPassed || seq = .waitForEndOfDeal

namespace Deck

/-- The taker can put cards aside exactly when the hand and the dog have enough of them that are
neither trumps nor kings. -/
theorem exists_testDiscard {hand dog : Deck} {n : ℕ} (hn : n = 3 ∨ n = 4 ∨ n = 5)
    (hnodup : (hand.cards + dog.cards).Nodup) :
    (∃ discard, hand.testDiscard discard dog n = true) ↔
      numberOfDogCards n ≤ (hand.mDeck ++ dog.mDeck).countP isDiscardable := by
  constructor
  · rintro ⟨discard, htest⟩
    unfold testDiscard at htest
    split_ifs at htest with hsize
    simp only [List.all_eq_true, Bool.and_eq_true, Bool.or_eq_true, hasCard_iff,
      decide_eq_true_eq] at htest
    have honce : discard.mDeck.Nodup :=
      List.nodup_iff_count_le_one.mpr fun c => by
        by_cases hc : c ∈ discard.mDeck
        · exact (htest c hc).2.le
        · rw [List.count_eq_zero_of_not_mem hc]
          exact Nat.zero_le 1
    have hsub : discard.mDeck ⊆ (hand.mDeck ++ dog.mDeck).filter isDiscardable := by
      intro c hc
      obtain ⟨⟨hown, hkind⟩, -⟩ := htest c hc
      rw [List.mem_filter, List.mem_append]
      refine ⟨hown, ?_⟩
      revert hkind
      simp only [isDiscardable]
      by_cases htrump : c.mSuit = Card.trumps <;> simp [htrump]
    calc numberOfDogCards n = discard.mDeck.length := hsize.symm
      _ ≤ ((hand.mDeck ++ dog.mDeck).filter isDiscardable).length :=
          (List.subperm_of_subset honce hsub).length_le
      _ = (hand.mDeck ++ dog.mDeck).countP isDiscardable := List.countP_eq_length_filter.symm
  · intro henough
    refine ⟨(hand.autoDiscard dog n).1, (testDiscard_autoDiscard hand dog hn hnodup).mpr ?_⟩
    rw [autoDiscard_size hand dog hn, min_eq_left_iff]
    exact henough

end Deck

namespace Engine

/-- The taker has enough cards to put aside. -/
def CanDiscard (n : ℕ) (e : Engine) : Prop :=
  numberOfDogCards n ≤ (e.takerDeck.mDeck ++ e.mCtx.mDog.mDeck).countP Deck.isDiscardable

instance (n : ℕ) (e : Engine) : Decidable (e.CanDiscard n) := inferInstanceAs (Decidable (_ ≤ _))

/-- The taker of this contract takes the dog. -/
def TakesDog (e : Engine) : Prop :=
  e.mCtx.mBid.contract ≠ .pass ∧ e.mCtx.mBid.contract ≠ .guardWithout ∧
    e.mCtx.mBid.contract ≠ .guardAgainst

/-- What keeps a deal from coming to an end. -/
def Blocked (n : ℕ) (e : Engine) : Prop :=
  match e.mSequence with
  | .waitForCards | .waitForBid => n ≤ e.mCurrentPlayer.value
  | .waitForShowBid =>
    (n ≤ e.mPosition ∨ e.mCtx.mBid.slam = true) ∧ e.TakesDog ∧ ¬ e.CanDiscard n
  | .waitForKingCall | .waitForShowKingCall => e.TakesDog ∧ ¬ e.CanDiscard n
  | .waitForShowDog | .waitForDiscard => ¬ e.CanDiscard n
  | _ => False

variable {n : ℕ} {plays : List (Card × Place)} {e : Engine}

theorem Blocked.not_isOver (h : e.Blocked n) : e.mSequence.isOver = false := by
  unfold Blocked at h
  cases hseq : e.mSequence <;> simp only [hseq] at h <;> rfl

/-- The cards that the taker chooses the discard from are some of the pack. -/
theorem BeforeDiscard.own_le (h : e.BeforeDiscard n) (ht : e.mCtx.mBid.taker.value < n) :
    e.takerDeck.cards + e.mCtx.mDog.cards ≤ e.cards := by
  have hhand : e.takerDeck.cards ≤ ∑ i ∈ Finset.range n, (e.mPlayers i).cards :=
    Finset.single_le_sum (f := fun i => (e.mPlayers i).cards) (fun _ _ => Multiset.zero_le _)
      (Finset.mem_range.mpr ht)
  rw [h.cards_eq]
  exact add_le_add_left hhand _

theorem BeforeDiscard.own_nodup (h : e.BeforeDiscard n) (ht : e.mCtx.mBid.taker.value < n) :
    (e.takerDeck.cards + e.mCtx.mDog.cards).Nodup :=
  nodup_of_le_cards h.cards (h.own_le ht)

/-! The end of the auction. -/

theorem isEndOfTrick_keeps (e : Engine) :
    e.isEndOfTrick.2.mCtx = e.mCtx ∧ e.isEndOfTrick.2.mPlayers = e.mPlayers ∧
      e.isEndOfTrick.2.mSequence = e.mSequence := by
  unfold isEndOfTrick
  split_ifs <;> exact ⟨rfl, rfl, rfl⟩

/-- A dog that is taken is shown. -/
theorem manageAfterBid_blocked (h : e.mCtx.mBid.contract ≠ .pass) :
    (e.act .manageAfterBid).Blocked n ↔ e.TakesDog ∧ ¬ e.CanDiscard n := by
  simp only [act, manageAfterBidSequence, TarotContext.manageDogAfterBid]
  by_cases hwithout : e.mCtx.mBid.contract = .guardWithout
  · simp [hwithout, startIfReady, startDeal, Blocked, TakesDog]
  by_cases hagainst : e.mCtx.mBid.contract = .guardAgainst
  · simp [hagainst, startIfReady, startDeal, Blocked, TakesDog]
  · simp [hwithout, hagainst, startIfReady, Blocked, TakesDog, CanDiscard, takerDeck, h]

/-- An auction that goes on asks the next player; one that is closed leaves the bid, the hands and
the dog as they are. -/
theorem bidSequence_blocked (hn : e.mCtx.mNbPlayers = n) (hcounted : e.Counted n)
    (h0 : 0 < n) (ha : e.Enabled .bidSequence) :
    (e.act .bidSequence).Blocked n ↔ e.Blocked n := by
  rcases act_bidSequence_cases e with ⟨hpos, hslam, hact⟩ | ⟨hclosed, hcontract, -, -, -⟩
  · rw [hact]
    rcases ha with hs | hs <;> simp only [Counted, hs] at hcounted <;> simp only [Blocked, hs]
    refine iff_of_false (not_le.mpr hcounted.2) ?_
    rintro ⟨hfull | hslam', -⟩
    · exact absurd hpos (not_lt.mpr (hn.symm ▸ hfull))
    · rw [hslam] at hslam'
      cases hslam'
  have hs : e.mSequence = .waitForShowBid := by
    rcases ha with hs | hs
    · simp only [Counted, hs] at hcounted
      rcases hclosed with hfull | hslam
      · omega
      · rw [hcounted.2] at hslam
        cases hslam
    · exact hs
  have hcond : (e.isEndOfTrick.1 || e.mCtx.mBid.slam) = true := by
    unfold isEndOfTrick
    split_ifs with hfull
    · rfl
    · exact hclosed.resolve_left hfull
  obtain ⟨hctx, hplayers, hseq⟩ := isEndOfTrick_keeps e
  rw [hn] at hclosed
  have hbefore : e.Blocked n ↔ e.TakesDog ∧ ¬ e.CanDiscard n := by
    simp only [Blocked, hs]
    exact and_iff_right hclosed
  rw [hbefore, act, bidSequence]
  simp only [hctx, hcond, if_true]
  split_ifs with hpass hking
  · refine iff_of_false id fun h => h.1.1 hpass
  · simp only [Blocked, startIfReady, TakesDog, CanDiscard, takerDeck, hplayers, reduceCtorEq,
      if_false]
  · have hmanage := manageAfterBid_blocked (n := n) (e := e.isEndOfTrick.2) (by rwa [hctx])
    rw [act] at hmanage
    rw [hmanage]
    simp only [TakesDog, CanDiscard, takerDeck, hctx, hplayers]

/-- Whether a deal is blocked is settled by the bids: no other move changes it. -/
theorem Phase.blocked_act (h : e.Phase n plays) (hn : n = 3 ∨ n = 4 ∨ n = 5)
    (hcounted : e.Counted n) (htaken : e.Taken) {a : Action} (ha : e.Enabled a)
    (hrestart : a.isRestart = false) (hbid : ∀ c slam p, a ≠ .bid c slam p) :
    (e.act a).Blocked n ↔ e.Blocked n := by
  cases a with
  | stay => exact Iff.rfl
  | newGame | newDeal _ => cases hrestart
  | bid c slam p => exact absurd rfl (hbid c slam p)
  | bidSequence => exact bidSequence_blocked h.players hcounted (by omega) ha
  | manageAfterBid =>
    have hpass : e.mCtx.mBid.contract ≠ .pass := by
      intro hpass
      have htake := htaken.past (by rw [ha]; rfl)
      rw [hpass] at htake
      exact absurd htake (by decide)
    rw [manageAfterBid_blocked hpass]
    simp only [Blocked, show e.mSequence = _ from ha]
  | discardSequence => simp only [Blocked, Engine.act, discardSequence, show e.mSequence = _ from ha,
      CanDiscard, takerDeck]
  | discard cards =>
    simp only [Phase, ha.1] at h
    have hnodup : (e.takerDeck.cards + e.mCtx.mDog.cards).Nodup := by
      exact h.1.own_nodup (h.1.players ▸ htaken.taker_lt (by rw [ha.1]; rfl))
    have hcan : e.CanDiscard n :=
      (Deck.exists_testDiscard hn hnodup).mp ⟨cards, h.1.players ▸ ha.2⟩
    rw [Engine.act, setDiscard, if_pos ha.2]
    simp only [Blocked, startDeal, ha.1]
    exact iff_of_false id (not_not.mpr hcan)
  | kingCall c =>
    rw [Engine.act, setKingCalled, if_pos ha.2]
    simp only [Blocked, ha.1, TakesDog, CanDiscard, takerDeck]
    split <;> exact Iff.rfl
  | handle cards p =>
    rw [Engine.act, setHandle, if_pos ha.2.2]
    simp only [Blocked, ha.1]
  | gameSequence =>
    have hbefore : ¬ e.Blocked n := by
      rcases ha with hs | hs | hs | hs | hs <;> simp only [Blocked, hs] <;> exact id
    refine iff_of_false ?_ hbefore
    rw [Engine.act, playOn]
    split_ifs
    · exact id
    · rcases gameSequence_mSequence e with hs | hs | hs <;> simp only [Blocked, hs] <;> exact id
  | card c p =>
    rw [Engine.act, setCard, if_pos ha.2.2.2]
    simp only [Blocked, ha.1]

/-- Behind the highest bid the dog stays where it is. -/
theorem bid_not_blocked (e : Engine) (slam : Bool) (p : Place) :
    ¬ (e.act (.bid .guardAgainst slam p)).Blocked n := by
  have hcontract : (e.setBid .guardAgainst slam p).2.mCtx.mBid.contract = .guardAgainst := by
    rcases setBid_mBid e .guardAgainst slam p with ⟨-, h⟩ | ⟨hle, h⟩ <;> rw [h]
    revert hle
    cases e.mCtx.mBid.contract <;> decide
  exact fun h => h.2.1.2.2 hcontract

end Engine

namespace PlayingTable

variable {t : PlayingTable} {n : ℕ}

/-- A request of a player at the table, which goes on with the deal. -/
def PlaysOn (t : PlayingTable) (c : Call) : Prop :=
  c.NamesContract ∧ (t.action c).isRestart = false ∧
    ∃ i < t.nbPlayers, ∃ dealer json, c = .executeRequest dealer (t.mPlayers i).uuid json

/-- The flags that are down. -/
def downFlags (t : PlayingTable) : ℕ :=
  ((Finset.range t.nbPlayers).filter fun i => (t.mPlayers i).ack = false).card

/-- Somebody sits on every seat. -/
def Seated (t : PlayingTable) : Prop := ∀ i < t.nbPlayers, (t.mPlayers i).uuid ≠ invalidUid

instance (t : PlayingTable) : Decidable t.Seated :=
  inferInstanceAs (Decidable (∀ i < t.nbPlayers, (t.mPlayers i).uuid ≠ invalidUid))

theorem downFlags_le (t : PlayingTable) : t.downFlags ≤ t.nbPlayers := by
  calc t.downFlags ≤ (Finset.range t.nbPlayers).card := Finset.card_filter_le _ _
    _ = t.nbPlayers := Finset.card_range _

/-- Who sits on a seat is found there. -/
theorem Barrier.getPlayerPlace_seat (ht : t.Barrier) (hseated : t.Seated) {i : ℕ}
    (hi : i < t.nbPlayers) : (t.getPlayerPlace (t.mPlayers i).uuid).value = i := by
  have hfound : t.getPlayerPlace (t.mPlayers i).uuid ≠ .nowhere := fun hnone =>
    (getPlayerPlace_eq_nowhere ht.seats).mp hnone i hi rfl
  obtain ⟨hlt, huuid⟩ := getPlayerPlace_of_ne ht.seats hfound
  exact (ht.distinct i hi _ hlt huuid.symm (hseated i hi)).symm

theorem Barrier.getPlayerPlace_place (ht : t.Barrier) (hseated : t.Seated) {p : Place}
    (hp : p.value < t.nbPlayers) : t.getPlayerPlace (t.mPlayers p.value).uuid = p :=
  Place.value_inj.mp (ht.getPlayerPlace_seat hseated hp)

/-- A player at the table who acknowledges the current step is noted, or completes the step. -/
theorem action_sync (hacked : t.mEngine.mSequence.isAcked = true) {u : ℕ}
    (hplace : t.getPlayerPlace u ≠ .nowhere) (dealer : Dealer) :
    let c := Call.executeRequest dealer u (PlayerContext.sync t.mEngine.mSequence)
    t.action c = .stay ∧ t.apply c = t.noteAck t.mEngine.mSequence u ∨
      t.action c = t.resetAck.syncedAction dealer t.mEngine.mSequence := by
  intro c
  obtain ⟨hcmd, hstep⟩ := isAck_sync hacked
  have hbad : t.mEngine.mSequence ≠ .badStep := by
    intro hbad
    rw [hbad] at hacked
    exact absurd hacked (by decide)
  obtain ⟨hrequest, haction⟩ := request_of_ack dealer t u
    (PlayerContext.sync t.mEngine.mSequence) hcmd
  have hexecute : t.apply c =
      (t.executeAck dealer u (PlayerContext.sync t.mEngine.mSequence)).table :=
    congrArg Response.table hrequest
  change t.requestAction dealer u (PlayerContext.sync t.mEngine.mSequence) = _ ∧ _ ∨
    t.requestAction dealer u (PlayerContext.sync t.mEngine.mSequence) = _
  rw [haction, ackAction]
  simp only [hstep]
  cases hfire : (t.sync t.mEngine.mSequence u).1 with
  | true =>
    right
    rw [if_pos ⟨hplace, hbad, rfl⟩, sync_of_fst hfire]
  | false =>
    left
    refine ⟨if_neg fun h => Bool.false_ne_true h.2.2, ?_⟩
    rw [hexecute, executeAck, if_pos hplace]
    simp only [hstep, if_neg hbad, hfire, Bool.false_eq_true, if_false]
    exact sync_of_not_fst hfire

/-- As long as players have not acknowledged the step one of them can, and either it is noted or the
step is complete. -/
theorem Barrier.exists_ack (ht : t.Barrier) (h0 : 0 < t.nbPlayers)
    (hacked : t.mEngine.mSequence.isAcked = true) (dealer : Dealer) :
    ∃ i < t.nbPlayers, ∃ c, c = Call.executeRequest dealer (t.mPlayers i).uuid
        (PlayerContext.sync t.mEngine.mSequence) ∧
      ((t.action c = .stay ∧ (t.apply c).downFlags < t.downFlags) ∨
        t.action c = t.resetAck.syncedAction dealer t.mEngine.mSequence) := by
  obtain ⟨i, hi, hdown⟩ := ht.down h0
  refine ⟨i, hi, _, rfl, ?_⟩
  have hplace : t.getPlayerPlace (t.mPlayers i).uuid ≠ .nowhere := fun hnone =>
    (getPlayerPlace_eq_nowhere ht.seats).mp hnone i hi rfl
  rcases action_sync hacked hplace dealer with ⟨hstay, htable⟩ | hfire
  swap
  · exact .inr hfire
  refine .inl ⟨hstay, ?_⟩
  rw [htable]
  refine Finset.card_lt_card ⟨fun j hj => ?_, fun hsub => ?_⟩
  · obtain ⟨hlt, hack⟩ := Finset.mem_filter.mp hj
    refine Finset.mem_filter.mpr ⟨hlt, ?_⟩
    by_contra hup
    have hraised := (noteAck_ack t t.mEngine.mSequence (t.mPlayers i).uuid j).mpr
      (.inl (eq_true_of_ne_false hup))
    rw [hack] at hraised
    cases hraised
  · have hmine := hsub (Finset.mem_filter.mpr ⟨Finset.mem_range.mpr hi, hdown⟩)
    have hraised := (noteAck_ack t t.mEngine.mSequence (t.mPlayers i).uuid i).mpr
      (.inr ⟨hi, rfl, rfl⟩)
    rw [(Finset.mem_filter.mp hmine).2] at hraised
    cases hraised

/-- A request that brings the deal nearer to its end, with the highest bid where a bid is awaited. -/
structure Advances (t : PlayingTable) (c : Call) : Prop where
  playsOn : t.PlaysOn c
  highest : ∀ contract slam p, t.action c = .bid contract slam p → contract = .guardAgainst
  nearer : (t.action c = .stay ∧ (t.apply c).downFlags < t.downFlags) ∨ (t.action c).isMove = true

/-- The player on this seat answers what the engine waits for. -/
theorem exists_answer {p : Place} (hp : p.value < t.nbPlayers) (json : JsonValue)
    (hnamed : (Call.executeRequest plainDealer (t.mPlayers p.value).uuid json).NamesContract)
    {a : Engine.Action} (ha : t.requestAction plainDealer (t.mPlayers p.value).uuid json = a)
    (hmove : a.isMove = true)
    (hhighest : ∀ c slam q, a = .bid c slam q → c = .guardAgainst) : ∃ c, t.Advances c := by
  have haction : t.action (.executeRequest plainDealer (t.mPlayers p.value).uuid json) = a := ha
  refine ⟨.executeRequest plainDealer (t.mPlayers p.value).uuid json, ⟨hnamed, ?_, ?_⟩, ?_, ?_⟩
  · rw [haction]
    exact Engine.Action.isRestart_of_isMove hmove
  · exact ⟨p.value, hp, plainDealer, json, rfl⟩
  · rw [haction]
    exact hhighest
  · rw [haction]
    exact .inr hmove

/-- A player who has not acknowledged the step does so. -/
theorem Barrier.exists_advance (ht : t.Barrier) (h0 : 0 < t.nbPlayers)
    (hacked : t.mEngine.mSequence.isAcked = true) {a : Engine.Action}
    (ha : t.resetAck.syncedAction plainDealer t.mEngine.mSequence = a) (hmove : a.isMove = true) :
    ∃ c, t.Advances c := by
  obtain ⟨i, hi, c, rfl, hc⟩ := ht.exists_ack h0 hacked plainDealer
  rw [ha] at hc
  refine ⟨_, ⟨?_, ?_, i, hi, plainDealer, PlayerContext.sync t.mEngine.mSequence, rfl⟩, ?_, ?_⟩
  · intro hcmd
    rw [PlayerContext.sync_cmd] at hcmd
    exact absurd hcmd (by decide)
  · rcases hc with ⟨hstay, -⟩ | hc
    · rw [hstay]
      rfl
    · rw [hc]
      exact Engine.Action.isRestart_of_isMove hmove
  · intro contract slam p hbid
    rcases hc with ⟨hstay, -⟩ | hc
    · rw [hstay] at hbid
      cases hbid
    · exact absurd (ha.trans (hc.symm.trans hbid)) (syncedAction_ne_bid _ _ _ _ _ _)
  · rcases hc with hc | hc
    · exact .inl hc
    · exact .inr (hc ▸ hmove)

/-! The replies that bring a deal nearer to its end. -/

section

variable (hbarrier : t.Barrier) (hseated : t.Seated)
include hbarrier hseated

/-- Whose turn it is bids, higher than anybody can. -/
theorem exists_replyBid (hs : t.mEngine.mSequence = .waitForBid)
    (hlt : t.mEngine.mCurrentPlayer.value < t.nbPlayers) : ∃ c, t.Advances c := by
  have hplace := hbarrier.getPlayerPlace_place hseated hlt
  have hne : t.mEngine.mCurrentPlayer ≠ .nowhere := by
    intro hnone
    have h5 := hbarrier.seats
    rw [hnone] at hlt
    exact absurd hlt (not_lt.mpr h5)
  obtain ⟨hcontract, hslam⟩ := PlayerContext.buildReplyBid_read .guardAgainst false
  refine exists_answer hlt (PlayerContext.buildReplyBid .guardAgainst false) ?_
    (a := .bid .guardAgainst false t.mEngine.mCurrentPlayer) ?_ rfl ?_
  · intro _
    rw [hcontract]
    decide
  · rw [requestAction_of_answers _ t _ (PlayerContext.buildReplyBid _ _) .replyBid, answerAction,
      bidAction, hplace, hcontract, hslam]
    exact if_pos ⟨hne, rfl, hs⟩
  · intro c slam q hc
    cases hc
    rfl

/-- The taker calls a king. -/
theorem exists_replyKingCall (hs : t.mEngine.mSequence = .waitForKingCall)
    (hlt : t.mEngine.mCtx.mBid.taker.value < t.nbPlayers) : ∃ c, t.Advances c := by
  have hplace := hbarrier.getPlayerPlace_place hseated hlt
  have hcheck : TarotContext.checkKingCall (Card.ofString (str "14-C"))
      (t.mEngine.takerDeck.analyzeSuits {}) = true := if_pos (by decide)
  refine exists_answer hlt (replyKingCall (str "14-C")) ?_
    (a := .kingCall (Card.ofString (str "14-C"))) ?_ rfl ?_
  · exact fun hcmd => absurd hcmd (by decide)
  · rw [requestAction_of_answers _ t _ (replyKingCall _) .replyKingCall]
    exact if_pos ⟨hs, hplace.symm, hcheck⟩
  · intro c slam q hc
    cases hc

variable {plays : List (Card × Place)} (hn : n = 3 ∨ n = 4 ∨ n = 5) (hdeal : t.InDeal n plays)
include hn hdeal

/-- The taker puts cards aside that the table reads back as they are. -/
theorem exists_discard (hs : t.mEngine.mSequence = .waitForDiscard)
    (hfree : ¬ t.mEngine.Blocked n) : ∃ c, t.Advances c := by
  have hnb := hdeal.players
  have hlt : t.mEngine.mCtx.mBid.taker.value < t.nbPlayers :=
    hdeal.taken.taker_lt (by rw [hs]; rfl)
  have hplace := hbarrier.getPlayerPlace_place hseated hlt
  have hphase := hdeal.phase
  simp only [Engine.Phase, hs] at hphase
  simp only [Engine.Blocked, hs, not_not] at hfree
  obtain ⟨discard, htest⟩ := (Deck.exists_testDiscard hn
    (hphase.1.own_nodup (hnb ▸ hlt))).mpr hfree
  have hvalid : ∀ c ∈ discard.mDeck, c.isValid = true := by
    have hle := (Engine.testDiscard_le htest).2.trans (hphase.1.own_le (hnb ▸ hlt))
    exact Engine.valid_of_le_cards hphase.1.cards hle
  have hread : Deck.ofString ((PlayerContext.buildDiscard discard).findValue
      (str "discard")).getString = discard.setOwner .noTeam := Deck.ofString_toString hvalid
  refine exists_answer hlt (PlayerContext.buildDiscard discard) ?_
    (a := .discard (discard.setOwner .noTeam)) ?_ rfl ?_
  · exact fun hcmd => absurd (show str "Discard" = str "ReplyBid" from hcmd) (by decide)
  · rw [requestAction_of_answers _ t _ (PlayerContext.buildDiscard _) .discard, answerAction,
      discardAction, hread]
    exact if_pos ⟨hs, hplace.symm, by rw [hnb]; exact htest⟩
  · intro c slam q hc
    cases hc

/-- A handle without cards is either shown or declined. -/
theorem exists_handle (hs : t.mEngine.mSequence = .waitForHandle) : ∃ c, t.Advances c := by
  have hphase := hdeal.phase
  simp only [Engine.Phase, hs] at hphase
  obtain ⟨hcur, -, -⟩ := hphase.1.turn_spec hn hphase.2.1 hphase.2.2
  have hlt : t.mEngine.mCurrentPlayer.value < t.nbPlayers := hdeal.players.symm ▸ hcur
  have hplace := hbarrier.getPlayerPlace_place hseated hlt
  refine exists_answer hlt (PlayerContext.buildHandle {}) ?_ rfl ?_ ?_
  · exact fun hcmd => absurd (show str "Handle" = str "ReplyBid" from hcmd) (by decide)
  · rw [requestAction_of_answers _ t _ (PlayerContext.buildHandle {}) .handle, answerAction,
      handleAction, hplace, if_pos ⟨hs, rfl⟩]
    split_ifs <;> rfl
  · intro c slam q hbid
    rw [requestAction_of_answers _ t _ (PlayerContext.buildHandle {}) .handle, answerAction,
      handleAction] at hbid
    split_ifs at hbid

/-- Whose turn it is has a card that the rules allow. -/
theorem exists_sendCard (hs : t.mEngine.mSequence = .waitForPlayedCard) : ∃ c, t.Advances c := by
  have hphase := hdeal.phase
  simp only [Engine.Phase, hs] at hphase
  obtain ⟨hcur, -, hsize⟩ := hphase.1.turn_spec hn hphase.2.1 hphase.2.2
  have hlt : t.mEngine.mCurrentPlayer.value < t.nbPlayers := hdeal.players.symm ▸ hcur
  have hplace := hbarrier.getPlayerPlace_place hseated hlt
  obtain ⟨c, hc⟩ := Deck.exists_legalPlay (List.ne_nil_of_length_pos hsize)
    t.mEngine.currentTrick
  have hvalid : c.isValid = true :=
    Engine.valid_of_le_cards hphase.1.cards (Engine.hand_le_cards _ hlt) c hc.1
  have hread := PlayerContext.buildSendCard_read hvalid
  refine exists_answer hlt (PlayerContext.buildSendCard c) ?_
    (a := .card c t.mEngine.mCurrentPlayer) ?_ rfl ?_
  · exact fun hcmd => absurd (show str "Card" = str "ReplyBid" from hcmd) (by decide)
  · rw [requestAction_of_answers _ t _ (PlayerContext.buildSendCard _) .card, answerAction,
      cardAction, hread, hplace]
    exact if_pos ⟨hvalid, hs, rfl, (Deck.canPlayCard_iff_legalPlay _ _ c).mpr hc⟩
  · intro c slam q hc
    cases hc

/-- In a deal that is not blocked somebody can go on. -/
theorem exists_advance (hdealt : t.mEngine.mSequence.isDealt = true)
    (hover : t.mEngine.mSequence.isOver = false) (hfree : ¬ t.mEngine.Blocked n) :
    ∃ c, t.Advances c := by
  have hnb := hdeal.players
  have hsync : ∀ a : Engine.Action, t.mEngine.mSequence.isAcked = true →
      t.resetAck.syncedAction plainDealer t.mEngine.mSequence = a → a.isMove = true →
      ∃ c, t.Advances c := by
    intro a hacked ha hmove
    exact hbarrier.exists_advance (by omega) hacked ha hmove
  cases hs : t.mEngine.mSequence with
  | badStep | stopped | waitForPlayers | waitForReady => rw [hs] at hdealt; cases hdealt
  | waitForAllPassed | waitForEndOfDeal => rw [hs] at hover; cases hover
  | waitForCards | waitForShowBid =>
    rw [hs] at hsync
    exact hsync .bidSequence rfl rfl rfl
  | waitForShowKingCall =>
    rw [hs] at hsync
    exact hsync .manageAfterBid rfl rfl rfl
  | waitForShowDog =>
    rw [hs] at hsync
    exact hsync .discardSequence rfl rfl rfl
  | waitForStartDeal | waitForShowHandle | waitForShowCard | waitForEndOfTrick =>
    rw [hs] at hsync
    exact hsync .gameSequence rfl rfl rfl
  | waitForBid =>
    simp only [Engine.Blocked, hs, not_le] at hfree
    exact exists_replyBid hbarrier hseated hs (hnb.symm ▸ hfree)
  | waitForKingCall =>
    exact exists_replyKingCall hbarrier hseated hs (hdeal.taken.taker_lt (by rw [hs]; rfl))
  | waitForDiscard => exact exists_discard hbarrier hseated hn hdeal hs hfree
  | waitForHandle => exact exists_handle hbarrier hseated hn hdeal hs
  | waitForPlayedCard => exact exists_sendCard hbarrier hseated hn hdeal hs

end

/-- What holds at a table whose deal goes on. -/
structure GoesOn (n : ℕ) (t : PlayingTable) : Prop where
  paced : t.Paced n
  barrier : t.Barrier
  seated : t.Seated
  dealt : t.mEngine.mSequence.isDealt = true

theorem PlaysOn.not_newDeal {c : Call} (hc : t.PlaysOn c) {deal : Deal} :
    t.action c ≠ .newDeal deal := by
  intro hdeal
  have hrestart := hc.2.1
  rw [hdeal] at hrestart
  cases hrestart

theorem GoesOn.apply (h : t.GoesOn n) (hn : n = 3 ∨ n = 4 ∨ n = 5) {c : Call}
    (hc : t.PlaysOn c) : (t.apply c).GoesOn n := by
  have hbid := bidCounts_of_namesContract (t := t) hc.1
  have henabled := h.barrier.toOpen.action_enabled c
  obtain ⟨-, hrestart, i, hi, dealer, json, hcall⟩ := id hc
  have hsender : c.HasSender := by
    rw [hcall]
    exact h.seated i hi
  refine ⟨h.paced.act hn hbid fun deal hdeal => absurd hdeal hc.not_newDeal,
    h.barrier.apply c hsender, ?_, ?_⟩
  · intro j hj
    rw [apply_nbPlayers] at hj
    rw [hcall]
    change ((t.executeRequest dealer _ json).table.mPlayers j).uuid ≠ invalidUid
    rw [executeRequest_uuid]
    exact h.seated j hj
  · rw [apply_mEngine]
    rcases Engine.act_isDealt henabled hrestart with hstay | ⟨hdealt, -⟩
    · rw [hstay]
      exact h.dealt
    · exact hdealt

/-- A blocked deal stays blocked, whatever the players send. -/
theorem GoesOn.blocked_apply (h : t.GoesOn n) (hn : n = 3 ∨ n = 4 ∨ n = 5) {c : Call}
    (hc : t.PlaysOn c) (hblocked : t.mEngine.Blocked n) : (t.apply c).mEngine.Blocked n := by
  obtain ⟨plays, hdeal⟩ := h.paced.inDeal
  have henabled := hdeal.action_enabled c
  rw [apply_mEngine]
  refine (hdeal.phase.blocked_act hn h.paced.counted hdeal.taken henabled hc.2.1 ?_).mpr hblocked
  intro contract slam p hbid
  rw [hbid] at henabled
  obtain ⟨hs, hturn, hlt⟩ := henabled
  simp only [Engine.Blocked, hs] at hblocked
  have hnb : t.mEngine.mCtx.mNbPlayers = n := hdeal.players
  rw [hnb, hturn] at hlt
  omega

/-- The moves that the deal still has count more than the flags that are down. -/
def distance (n : ℕ) (t : PlayingTable) : ℕ := t.mEngine.toGo n * (n + 1) + t.downFlags

theorem GoesOn.advance (h : t.GoesOn n) (hn : n = 3 ∨ n = 4 ∨ n = 5) {c : Call}
    (hc : t.Advances c) (hfree : ¬ t.mEngine.Blocked n) :
    ¬ (t.apply c).mEngine.Blocked n ∧ (t.apply c).distance n < t.distance n := by
  obtain ⟨plays, hdeal⟩ := h.paced.inDeal
  have henabled := hdeal.action_enabled c
  have hflags := downFlags_le (t.apply c)
  rw [apply_nbPlayers, hdeal.players] at hflags
  constructor
  · rw [apply_mEngine]
    by_cases hbid : ∃ contract slam p, t.action c = .bid contract slam p
    · obtain ⟨contract, slam, p, hbid⟩ := hbid
      rw [hbid, hc.highest contract slam p hbid]
      exact Engine.bid_not_blocked _ slam p
    · push Not at hbid
      exact mt (hdeal.phase.blocked_act hn h.paced.counted hdeal.taken henabled hc.playsOn.2.1
        hbid).mp hfree
  · unfold distance
    rcases hc.nearer with ⟨hstay, hlt⟩ | hmove
    · rw [apply_mEngine, hstay, Engine.act]
      omega
    · have hlt := hdeal.phase.toGo_lt h.paced.counted hn henabled hmove
      rw [← apply_mEngine] at hlt
      have hmul := Nat.mul_le_mul_right (n + 1) (Nat.succ_le_of_lt hlt)
      rw [Nat.succ_mul] at hmul
      omega

/-- The requests of the players at the table can bring a deal to its end exactly when it is not
blocked. -/
theorem GoesOn.ends_iff (h : t.GoesOn n) (hn : n = 3 ∨ n = 4 ∨ n = 5) :
    (∃ cs, Guarded PlayingTable.apply PlaysOn t cs ∧
        (run PlayingTable.apply t cs).mEngine.mSequence.isOver = true) ↔
      ¬ t.mEngine.Blocked n := by
  constructor
  · rintro ⟨cs, hguard, hover⟩ hblocked
    have hinv := hguard.invariant (fun s => s.GoesOn n ∧ s.mEngine.Blocked n)
      (fun s c hs hc => ⟨hs.1.apply hn hc, hs.1.blocked_apply hn hc hs.2⟩) ⟨h, hblocked⟩
    rw [hinv.2.not_isOver] at hover
    cases hover
  · intro hfree
    have hnext : ∀ s : PlayingTable, (s.GoesOn n ∧ ¬ s.mEngine.Blocked n) →
        ¬ s.mEngine.mSequence.isOver = true → ∃ c, s.PlaysOn c ∧
          ((s.apply c).GoesOn n ∧ ¬ (s.apply c).mEngine.Blocked n) ∧
            (s.apply c).distance n < s.distance n := by
      rintro s ⟨hs, hsfree⟩ hnot
      obtain ⟨plays, hdeal⟩ := hs.paced.inDeal
      obtain ⟨c, hc⟩ := exists_advance hs.barrier hs.seated hn hdeal hs.dealt
        (Bool.eq_false_iff.mpr hnot) hsfree
      obtain ⟨hfree', hlt⟩ := hs.advance hn hc hsfree
      exact ⟨c, hc.playsOn, ⟨hs.apply hn hc.playsOn, hfree'⟩, hlt⟩
    obtain ⟨cs, hguard, -, hover⟩ := exists_run_done (distance n) hnext ⟨h, hfree⟩
    exact ⟨cs, hguard, hover⟩

theorem goesOn_of_run (t : PlayingTable) (randomPlace : Place) (hn : n = 3 ∨ n = 4 ∨ n = 5)
    {cs : List Call} (hsend : ∀ c ∈ cs, c.HasSender) (hbids : ∀ c ∈ cs, c.NamesContract)
    (hdeals : ∀ c ∈ cs, c.DealsFairly n)
    (hseated : (run PlayingTable.apply (t.createTable n randomPlace) cs).Seated)
    (hdealt : (run PlayingTable.apply (t.createTable n randomPlace) cs).mEngine.mSequence.isDealt =
      true) : (run PlayingTable.apply (t.createTable n randomPlace) cs).GoesOn n := by
  have hfair : Guarded PlayingTable.apply (FairCall n) (t.createTable n randomPlace) cs :=
    guarded_fairCall (guarded_bidCounts _ hbids) hdeals
  have hsenders := guarded_of_forall PlayingTable.apply Call.HasSender
    (t.createTable n randomPlace) cs hsend
  exact
    { paced := hfair.invariant (Paced n) (fun s c hs hc => hs.apply hn hc)
        (createTable_paced t randomPlace hn)
      barrier := hsenders.invariant Barrier (fun s c hs hc => hs.apply c hc)
        (createTable_barrier t randomPlace (by omega))
      seated := hseated
      dealt := hdealt }

/-- In every deal of every run of a table, with somebody on each seat, the players can play the deal
to its end if and only if it is not blocked: the bids have not gone to a seat that the table does
not have, and the taker who takes the dog holds enough cards that are neither trumps nor kings. -/
theorem deal_ends_iff (t : PlayingTable) (randomPlace : Place) (hn : n = 3 ∨ n = 4 ∨ n = 5)
    {cs : List Call} (hsend : ∀ c ∈ cs, c.HasSender) (hbids : ∀ c ∈ cs, c.NamesContract)
    (hdeals : ∀ c ∈ cs, c.DealsFairly n) :
    let s := run PlayingTable.apply (t.createTable n randomPlace) cs
    s.Seated → s.mEngine.mSequence.isDealt = true →
      ((∃ ds, Guarded PlayingTable.apply PlaysOn s ds ∧
          (run PlayingTable.apply s ds).mEngine.mSequence.isOver = true) ↔
        ¬ s.mEngine.Blocked n) := by
  intro s hseated hdealt
  exact (goesOn_of_run t randomPlace hn hsend hbids hdeals hseated hdealt).ends_iff hn

/-- A shuffled pack that gives all trumps and kings to the third of three players, or to the dog. -/
def trumpDealer : Dealer :=
  let low := Deck.tarotDeck.mDeck.filter Deck.isDiscardable
  let high := Deck.tarotDeck.mDeck.filter fun c => !Deck.isDiscardable c
  createRandomDeal { mDeck := low.take 48 ++ high ++ low.drop 48 }

theorem trumpDealer_fair (distribution : Distribution) :
    (trumpDealer 3 distribution).Fair 3 :=
  createRandomDeal_fair (by decide +kernel) (.inl rfl) distribution

instance : DecidablePred Call.HasSender
  | .executeRequest _ srcUuid _ => inferInstanceAs (Decidable (srcUuid ≠ invalidUid))
  | .addPlayer _ | .removePlayer _ => isTrue trivial

/-- The third player takes, and is shown the dog. -/
def trumpCalls : List Call :=
  biddingCalls trumpDealer [(9, PlayerContext.buildReplyBid .take false),
    (7, PlayerContext.buildReplyBid .pass false), (8, PlayerContext.buildReplyBid .pass false)]

theorem deal_ends_iff_trumps :
    let s := run PlayingTable.apply (({} : PlayingTable).createTable 3 .south) trumpCalls
    s.mEngine.mSequence = .waitForShowDog ∧
      ¬ ∃ ds, Guarded PlayingTable.apply PlaysOn s ds ∧
        (run PlayingTable.apply s ds).mEngine.mSequence.isOver = true := by
  intro s
  have hs : s.mEngine.mSequence = .waitForShowDog := by decide +kernel
  have hdeals : ∀ c ∈ trumpCalls, c.DealsFairly 3 := biddingCalls_dealsFairly trumpDealer_fair _
  refine ⟨hs, fun hends => ?_⟩
  have hsend : ∀ c ∈ trumpCalls, c.HasSender := by decide +kernel
  have hbids : ∀ c ∈ trumpCalls, c.NamesContract := by decide +kernel
  refine (deal_ends_iff {} .south (.inl rfl) hsend hbids hdeals (by decide +kernel)
    (by decide +kernel)).mp hends ?_
  change s.mEngine.Blocked 3
  simp only [Engine.Blocked, hs]
  decide +kernel

end PlayingTable

end TarotClub
