import TarotClub.Auction
import TarotClub.DealInvariant

namespace TarotClub.Engine

open Finset (range)
open TarotContext (seatAfter turnOf seated)

variable {n : ℕ} {plays : List (Card × Place)} {e e' : Engine}

/-! Steps that leave the cards where they are. -/

theorem cards_congr (hp : e'.mPlayers = e.mPlayers) (ht : e'.currentTrick = e.currentTrick)
    (hn : e'.mCtx.mNbPlayers = e.mCtx.mNbPlayers) (hdog : e'.mCtx.mDog = e.mCtx.mDog)
    (hdis : e'.mCtx.mDiscard = e.mCtx.mDiscard) (htr : e'.mCtx.mTricks = e.mCtx.mTricks) :
    e'.cards = e.cards := by
  simp only [Engine.cards, aside, hp, ht, hn, hdog, hdis, htr]

theorem BeforeDiscard.congr (h : e.BeforeDiscard n) (hp : e'.mPlayers = e.mPlayers)
    (ht : e'.currentTrick = e.currentTrick) (hn : e'.mCtx.mNbPlayers = e.mCtx.mNbPlayers)
    (hdog : e'.mCtx.mDog = e.mCtx.mDog) (hdis : e'.mCtx.mDiscard = e.mCtx.mDiscard)
    (htr : e'.mCtx.mTricks = e.mCtx.mTricks) : e'.BeforeDiscard n where
  players := hn.trans h.players
  hands := by rw [hp]; exact h.hands
  current := by rw [ht]; exact h.current
  tricks := by rw [htr]; exact h.tricks
  cards := (cards_congr hp ht hn hdog hdis htr).trans h.cards
  dog := by rw [hdog]; exact h.dog
  discard := by rw [hdis]; exact h.discard

/-- Handles, statistics and the step of the game are not part of the play. -/
theorem Playing.congr (h : e.Playing n plays) (hp : e'.mPlayers = e.mPlayers)
    (ht : e'.currentTrick = e.currentTrick) (hn : e'.mCtx.mNbPlayers = e.mCtx.mNbPlayers)
    (hdog : e'.mCtx.mDog = e.mCtx.mDog) (hdis : e'.mCtx.mDiscard = e.mCtx.mDiscard)
    (htr : e'.mCtx.mTricks = e.mCtx.mTricks) (hlead : e'.mCtx.leadOf = e.mCtx.leadOf)
    (htaker : e'.mCtx.mBid.taker = e.mCtx.mBid.taker) (hk : e'.mTrickCounter = e.mTrickCounter)
    (hpos : e'.mPosition = e.mPosition) (hcur : e'.mCurrentPlayer = e.mCurrentPlayer) :
    e'.Playing n plays where
  players := hn.trans h.players
  lead := by rw [hlead, hk]; exact h.lead
  counter := by rw [hk]; exact h.counter
  position := by rw [hpos]; exact h.position
  current := by rw [ht, hpos]; exact h.current
  turn := by rw [hcur, hlead, hk, hpos]; exact h.turn
  tricks := by rw [htr, hk]; exact h.tricks
  hands := by rw [hp, hlead, hk, hpos]; exact h.hands
  taker := by rw [htaker]; exact h.taker
  plays_eq := by rw [hlead, htr, hk, ht]; exact h.plays_eq
  cards := (cards_congr hp ht hn hdog hdis htr).trans h.cards

/-! The deal. -/

theorem newDeal_mPlayers (e : Engine) (deal : Deal) {i : ℕ} (hi : i < e.mCtx.mNbPlayers) :
    ((e.newDeal deal).mPlayers i).mDeck = (deal.mPlayers i).mDeck := by
  have hm : (e.newDeal deal).mPlayers i = if i < e.mCtx.mNbPlayers then
      (e.mPlayers i).clear.append (deal.mPlayers i) else e.mPlayers i := by
    unfold newDeal createDeal
    cases deal.mFirstPlayer <;> rfl
  rw [hm, if_pos hi]
  rfl

theorem newDeal_dog (e : Engine) (deal : Deal) :
    (e.newDeal deal).mCtx.mDog = deal.mDogDeck := by
  unfold newDeal createDeal
  cases deal.mFirstPlayer <;> rfl

theorem newDeal_discard (e : Engine) (deal : Deal) :
    (e.newDeal deal).mCtx.mDiscard.mDeck = [] := by
  unfold newDeal createDeal
  cases deal.mFirstPlayer <;> rfl

theorem newDeal_currentTrick (e : Engine) (deal : Deal) :
    (e.newDeal deal).currentTrick.mDeck = [] := by
  unfold newDeal createDeal
  cases deal.mFirstPlayer <;> rfl

theorem newDeal_mTricks (e : Engine) (deal : Deal) {j : ℕ} (hj : j < 24) :
    ((e.newDeal deal).mCtx.mTricks j).mDeck = [] := by
  have hm : (e.newDeal deal).mCtx.mTricks j = if j < 24 then (e.mCtx.mTricks j).clear
      else e.mCtx.mTricks j := by
    unfold newDeal createDeal
    cases deal.mFirstPlayer <;> rfl
  rw [hm, if_pos hj]
  rfl

theorem newDeal_beforeDiscard (e : Engine) (hn : e.mCtx.mNbPlayers = n) {deal : Deal}
    (hd : deal.Fair n) : (e.newDeal deal).BeforeDiscard n where
  players := (newDeal_mNbPlayers e deal).trans hn
  hands := fun i hi => by
    rw [Deck.size, newDeal_mPlayers e deal (hn.symm ▸ hi)]
    exact hd.hands i hi
  current := newDeal_currentTrick e deal
  tricks := fun j hj => newDeal_mTricks e deal hj
  cards := by
    have hhands : ∑ i ∈ range n, ((e.newDeal deal).mPlayers i).cards =
        ∑ i ∈ range n, (deal.mPlayers i).cards :=
      Finset.sum_congr rfl fun i hi => congrArg Multiset.ofList
        (newDeal_mPlayers e deal (hn.symm ▸ Finset.mem_range.mp hi))
    have htricks : ∑ j ∈ range 24, ((e.newDeal deal).mCtx.mTricks j).cards = 0 :=
      Finset.sum_eq_zero fun j hj =>
        Deck.cards_of_nil (newDeal_mTricks e deal (Finset.mem_range.mp hj))
    rw [Engine.cards, newDeal_mNbPlayers, hn, hhands, htricks,
      Deck.cards_of_nil (newDeal_currentTrick e deal), aside_of_nil (newDeal_discard e deal),
      newDeal_dog, add_zero, add_zero]
    exact hd.cards
  dog := by rw [newDeal_dog]; exact hd.dog
  discard := newDeal_discard e deal

/-! The start of the play. -/

/-- With the cards dealt and a taker the play begins: with the taker after a slam, else on the
right of the dealer. -/
theorem Dealt.startDeal (h : e.Dealt n) (h0 : 0 < n)
    (ht : e.mCtx.mBid.taker.value < n) : e.startDeal.2.Playing n [] where
  players := h.players
  lead := by
    change (if e.mCtx.mBid.slam then _ else _ : Place).value < n
    split_ifs
    · exact ht
    · rw [h.players]
      exact Place.next_value_lt _ h0
  counter := Nat.zero_le _
  position := Nat.zero_le _
  current := Deck.size_eq_zero.mpr h.current
  turn := rfl
  tricks := fun j hj => Deck.size_eq_zero.mpr (h.tricks j hj)
  hands := fun i hi => h.hands i hi
  taker := ht
  plays_eq := by
    change [] = seated n _ e.currentTrick.mDeck
    rw [h.current]
    rfl
  cards := h.cards

theorem Dealt.startIfReady (h : e.Dealt n) (hn : n = 3 ∨ n = 4 ∨ n = 5)
    (ht : e.mCtx.mBid.taker.value < n) (hs : e.mSequence = .waitForStartDeal) :
    e.startIfReady.Phase n [] := by
  have hseq : e.startIfReady.mSequence = .waitForStartDeal := by rw [startIfReady_mSequence, hs]
  simp only [Phase, hseq]
  rw [Engine.startIfReady, if_pos hs]
  exact ⟨h.startDeal (by omega) ht, (sizes hn).2.2, show 0 < n by omega⟩

/-- The dog of a guard without or against is put aside, else it is shown. -/
theorem BeforeDiscard.manageAfterBid (h : e.BeforeDiscard n) (hn : n = 3 ∨ n = 4 ∨ n = 5)
    (ht : e.mCtx.mBid.taker.value < n) : (e.act .manageAfterBid).Phase n [] := by
  have hdealt : ∀ team : Team, ({ e with
      mCtx := { e.mCtx with mDiscard := e.mCtx.mDog.setOwner team },
      mSequence := .waitForStartDeal } : Engine).Dealt n := fun team =>
    { players := h.players
      hands := h.hands
      current := h.current
      tricks := h.tricks
      cards := by
        rw [← h.cards, Engine.cards, Engine.cards, aside_of_nil h.discard, aside_of_size_pos]
        · rfl
        · exact h.dog.symm ▸ (sizes hn).1 }
  rw [act, manageAfterBidSequence, TarotContext.manageDogAfterBid]
  by_cases hw : e.mCtx.mBid.contract = .guardWithout
  · rw [if_pos hw]
    exact (hdealt .attack).startIfReady hn ht rfl
  rw [if_neg hw]
  by_cases ha : e.mCtx.mBid.contract = .guardAgainst
  · rw [if_pos ha]
    exact (hdealt .defense).startIfReady hn ht rfl
  · rw [if_neg ha]
    exact ⟨h.congr rfl rfl rfl rfl rfl rfl, rfl⟩

/-- The bids leave the cards alone; an auction that is closed leads on to the dog. -/
theorem BeforeDiscard.bidSequence (h : e.BeforeDiscard n) (hn : n = 3 ∨ n = 4 ∨ n = 5)
    (ht : (e.act .bidSequence).Taken) : (e.act .bidSequence).Phase n [] := by
  have hcount : e.isEndOfTrick.2.BeforeDiscard n := by
    unfold isEndOfTrick
    split_ifs
    · exact h.congr rfl rfl rfl rfl rfl rfl
    · exact h
  revert ht
  rw [act, Engine.bidSequence]
  generalize e.isEndOfTrick = r at hcount
  obtain ⟨endOfTrick, e⟩ := r
  dsimp only
  by_cases hclosed : (endOfTrick || e.mCtx.mBid.slam) = true
  · rw [if_pos hclosed]
    by_cases hpass : e.mCtx.mBid.contract = .pass
    · rw [if_pos hpass]
      exact fun _ => ⟨hcount.congr rfl rfl rfl rfl rfl rfl, rfl⟩
    rw [if_neg hpass]
    by_cases hking : e.mCtx.mNbPlayers = 5 ∧ e.mSequence = .waitForShowBid
    · rw [if_pos hking]
      exact fun _ => ⟨hcount.congr rfl rfl rfl rfl rfl rfl, rfl⟩
    · rw [if_neg hking]
      intro ht
      refine hcount.manageAfterBid hn ?_
      have hpast : e.manageAfterBidSequence.startIfReady.mSequence.isPastAuction = true := by
        rw [startIfReady_mSequence]
        rcases manageAfterBidSequence_mSequence e with hs | hs <;> rw [hs] <;> rfl
      have htaker := ht.taker_lt hpast
      rwa [startIfReady_mBid, manageAfterBidSequence_mBid, startIfReady_mNbPlayers,
        manageAfterBidSequence_mNbPlayers, hcount.players] at htaker
  · rw [if_neg hclosed]
    exact fun _ => ⟨hcount.congr rfl rfl rfl rfl rfl rfl, rfl⟩

/-- A discard that passes the test is part of the hand and the dog. -/
theorem testDiscard_le {hand discard dog : Deck}
    (h : hand.testDiscard discard dog n = true) :
    discard.size = numberOfDogCards n ∧ discard.cards ≤ hand.cards + dog.cards := by
  unfold Deck.testDiscard at h
  split_ifs at h with hsize
  refine ⟨hsize, ?_⟩
  simp only [List.all_eq_true, Bool.and_eq_true, Bool.or_eq_true, Deck.hasCard_iff,
    decide_eq_true_eq] at h
  have hnodup : discard.cards.Nodup := by
    rw [Deck.cards, Multiset.coe_nodup, List.nodup_iff_count_le_one]
    intro c
    by_cases hc : c ∈ discard.mDeck
    · exact (h c hc).2.le
    · rw [List.count_eq_zero_of_not_mem hc]
      exact Nat.zero_le _
  rw [Multiset.le_iff_subset hnodup]
  intro c hc
  exact Multiset.mem_add.mpr (h c hc).1.1

theorem BeforeDiscard.cards_eq (h : e.BeforeDiscard n) :
    e.cards = ∑ i ∈ range n, (e.mPlayers i).cards + e.mCtx.mDog.cards := by
  have htricks : ∑ j ∈ range 24, (e.mCtx.mTricks j).cards = 0 :=
    Finset.sum_eq_zero fun j hj => Deck.cards_of_nil (h.tricks j (Finset.mem_range.mp hj))
  rw [Engine.cards, h.players, htricks, Deck.cards_of_nil h.current, aside_of_nil h.discard,
    add_zero, add_zero]

/-- The taker takes the dog and puts as many cards aside. -/
theorem BeforeDiscard.discard_phase (h : e.BeforeDiscard n) (hn : n = 3 ∨ n = 4 ∨ n = 5)
    {discard : Deck} (ha : e.Enabled (.discard discard)) (ht : e.mCtx.mBid.taker.value < n) :
    (e.act (.discard discard)).Phase n [] := by
  obtain ⟨hsize, hle⟩ := testDiscard_le ha.2
  have hmem : e.mCtx.mBid.taker.value ∈ range n := Finset.mem_range.mpr ht
  have hhand : e.takerDeck.cards + e.mCtx.mDog.cards ≤ e.cards := by
    rw [h.cards_eq]
    exact add_le_add_left (Finset.single_le_sum (f := fun i => (e.mPlayers i).cards)
      (fun _ _ => Multiset.zero_le _) hmem) _
  have hnodup := nodup_of_le_cards h.cards hhand
  rw [← Deck.cards_append] at hnodup hle
  obtain ⟨-, hrest, -⟩ := Deck.removeDuplicates_of_le hnodup hle
  have hupdate := sum_update_add Deck.cards e.mPlayers ht
    ((e.takerDeck.append e.mCtx.mDog).removeDuplicates discard).2
  change _ + e.takerDeck.cards = _ at hupdate
  rw [act, setDiscard, if_pos ha.2]
  refine ⟨Dealt.startDeal ⟨h.players, fun i hi => ?_, h.current, h.tricks, ?_⟩ (by omega) ht,
    (sizes hn).2.2, show 0 < n by omega⟩
  · change (Function.update e.mPlayers e.mCtx.mBid.taker.value
      ((e.takerDeck.append e.mCtx.mDog).removeDuplicates discard).2 i).size = _
    by_cases hi' : i = e.mCtx.mBid.taker.value
    · subst hi'
      have hcard := congrArg Multiset.card hrest
      have hdog := h.dog
      have hhands := h.hands _ hi
      rw [Multiset.card_add, Deck.card_cards, Deck.card_cards, Deck.cards_append,
        Multiset.card_add, Deck.card_cards, Deck.card_cards] at hcard
      rw [Function.update_self]
      rw [h.players] at hsize
      rw [takerDeck] at hcard ⊢
      omega
    · rw [Function.update_of_ne hi']
      exact h.hands i hi
  · have htricks : ∑ j ∈ range 24, (e.mCtx.mTricks j).cards = 0 :=
      Finset.sum_eq_zero fun j hj => Deck.cards_of_nil (h.tricks j (Finset.mem_range.mp hj))
    have haside : (discard.setOwner .attack).mDeck ≠ [] := by
      intro hnil
      have h0 : discard.size = 0 := congrArg List.length hnil
      have := (sizes hn).1
      rw [h.players] at hsize
      omega
    rw [← h.cards, h.cards_eq]
    simp only [Engine.cards, aside, if_neg haside, h.players, htricks,
      Deck.cards_of_nil h.current, add_zero, Deck.cards_setOwner]
    refine add_right_cancel (b := e.takerDeck.cards) ?_
    rw [Deck.cards_append] at hrest
    calc _ = (∑ i ∈ range n, (Function.update e.mPlayers e.mCtx.mBid.taker.value
          ((e.takerDeck.append e.mCtx.mDog).removeDuplicates discard).2 i).cards +
            e.takerDeck.cards) + discard.cards := by abel
      _ = ∑ i ∈ range n, (e.mPlayers i).cards +
            (((e.takerDeck.append e.mCtx.mDog).removeDuplicates discard).2.cards +
              discard.cards) := by
          rw [hupdate, add_assoc]
      _ = _ := by
          rw [hrest]
          abel

/-! The play. -/

/-- The seat whose turn it is plays a card from its hand. -/
theorem Playing.card (h : e.Playing n plays) (hn : n = 3 ∨ n = 4 ∨ n = 5)
    (hpos : e.mPosition < n) {c : Card} {p : Place} (ha : e.Enabled (.card c p)) :
    (e.act (.card c p)).Playing n (plays ++ [(c, p)]) := by
  obtain ⟨-, hp, -, hplay⟩ := ha
  have hn5 : n ≤ 5 := by omega
  have hseat : p = seatAfter (e.mCtx.leadOf e.mTrickCounter) n e.mPosition := hp.trans h.turn
  have hlt : p.value < n := hseat ▸ TarotContext.seatAfter_lt hn5 h.lead _
  have hmem : c ∈ (e.mPlayers p.value).mDeck := by
    unfold Deck.canPlayCard at hplay
    rw [← Deck.hasCard_iff]
    by_contra hnot
    simp [hnot] at hplay
  have hnodup := nodup_of_le_cards h.cards (hand_le_cards e (h.players.symm ▸ hlt))
  have hturn : turnOf (e.mCtx.leadOf e.mTrickCounter) n p.value = e.mPosition := by
    rw [hseat]
    exact TarotContext.turnOf_seatAfter hn5 h.lead hpos
  have hu8 : u8 (e.mPosition + 1) = e.mPosition + 1 := Nat.mod_eq_of_lt (by omega)
  rw [act, setCard, if_pos hplay, hu8]
  dsimp only
  exact
    { players := h.players
      lead := h.lead
      counter := h.counter
      position := hpos
      current := by
        rw [← h.current]
        exact List.length_append
      turn := by rw [TarotContext.seatAfter_succ, ← h.turn, h.players]
      tricks := h.tricks
      hands := fun i hi => by
        have hi' := h.hands i hi
        dsimp only
        by_cases hip : i = p.value
        · subst hip
          have hsize := Deck.size_remove hnodup hmem
          rw [hturn, if_neg (lt_irrefl _)] at hi'
          rw [Function.update_self, hturn, if_pos (Nat.lt_succ_self _)]
          omega
        · have hne : turnOf (e.mCtx.leadOf e.mTrickCounter) n i ≠ e.mPosition := fun he =>
            hip (TarotContext.turnOf_inj h.lead hi hlt (he.trans hturn.symm))
          rw [Function.update_of_ne hip]
          split_ifs at hi' ⊢ <;> omega
      taker := h.taker
      plays_eq := by
        have hlen : e.currentTrick.mDeck.length = e.mPosition := h.current
        rw [h.plays_eq, List.append_assoc]
        simp only [Deck.appendCard, TarotContext.seated_append, hlen, hseat]
      cards := by
        have hupdate := sum_update_add Deck.cards e.mPlayers hlt ((e.mPlayers p.value).remove c)
        rw [← Deck.cards_remove hnodup hmem, add_comm (Deck.cards _) {c}, ← add_assoc] at hupdate
        rw [← h.cards]
        simp only [Engine.cards, aside, h.players, Deck.cards_appendCard]
        rw [← add_right_cancel hupdate]
        abel }

/-- The engine behind a trick that every seat has played to. -/
def storeTrick (e : Engine) : Engine :=
  { e with
    mPosition := 0
    mTrickCounter := e.mTrickCounter + 1
    mCurrentPlayer := (e.mCtx.setTrick e.currentTrick (e.mTrickCounter + 1)).1
    mCtx := (e.mCtx.setTrick e.currentTrick (e.mTrickCounter + 1)).2
    currentTrick := e.currentTrick.clear
    mSequence := .waitForEndOfTrick }

theorem gameSequence_of_full (hpos : e.mCtx.mNbPlayers ≤ e.mPosition) (hk : e.mTrickCounter < 24) :
    e.gameSequence = e.storeTrick := by
  have hu8 : u8 (e.mTrickCounter + 1) = e.mTrickCounter + 1 := Nat.mod_eq_of_lt (by omega)
  simp only [gameSequence, isEndOfTrick, if_pos hpos, hu8, if_true, storeTrick]

/-- Storing a trick does not move the leads of the tricks up to it. -/
theorem storeTrick_leadOf (hk : e.mTrickCounter < 24) {j : ℕ} (hj : j ≤ e.mTrickCounter) :
    e.storeTrick.mCtx.leadOf j = e.mCtx.leadOf j := by
  obtain ⟨-, hw, -, -, -, hfirst, -⟩ := TarotContext.setTrick_frame e.mCtx e.currentTrick hk
  simp only [storeTrick, TarotContext.leadOf, hfirst, hw]
  split_ifs with h0
  · rfl
  · rw [Function.update_of_ne (by omega)]

/-- The winner leads the next trick. -/
theorem storeTrick_leadOf_succ (hk : e.mTrickCounter < 24) :
    e.storeTrick.mCtx.leadOf (e.mTrickCounter + 1) = e.storeTrick.mCurrentPlayer := by
  obtain ⟨-, hw, -⟩ := TarotContext.setTrick_frame e.mCtx e.currentTrick hk
  simp only [storeTrick, TarotContext.leadOf, if_neg (Nat.succ_ne_zero _), hw,
    Nat.add_sub_cancel, Function.update_self]

theorem storeTrick_mTricks (hk : e.mTrickCounter < 24) : ∃ team,
    e.storeTrick.mCtx.mTricks =
      Function.update e.mCtx.mTricks e.mTrickCounter (e.currentTrick.setOwner team) :=
  ⟨_, (TarotContext.setTrick_frame e.mCtx e.currentTrick hk).1⟩

/-- The winner is one of the seats. -/
theorem Playing.winner_lt (h : e.Playing n plays) (hn : n = 3 ∨ n = 4 ∨ n = 5)
    (hk : e.mTrickCounter < 24) (hpos : e.mPosition = n) :
    e.storeTrick.mCurrentPlayer.value < n := by
  have hsize : e.currentTrick.size = n := h.current.trans hpos
  have hle := currentTrick_le_cards e
  rcases TarotContext.setTrick_winner e.mCtx e.currentTrick hk (valid_of_le_cards h.cards hle)
    (nodup_of_le_cards h.cards hle) (by omega) (by omega) with hw | hw
  · rw [storeTrick, hw, hsize]
    exact TarotContext.seatAfter_lt (by omega) h.lead _
  · rw [storeTrick, hw]
    exact h.taker

/-- A trick that every seat has played to goes to its winner, who leads the next one. -/
theorem Playing.storeTrick (h : e.Playing n plays) (hn : n = 3 ∨ n = 4 ∨ n = 5)
    (hk : e.mTrickCounter < numberOfCardsInHand n) (hpos : e.mPosition = n) :
    e.storeTrick.Playing n plays := by
  have hk24 : e.mTrickCounter < 24 := lt_of_lt_of_le hk (sizes hn).2.1
  obtain ⟨-, -, hbid, hdog, hdis, -, -, -, hnb⟩ :=
    TarotContext.setTrick_frame e.mCtx e.currentTrick hk24
  obtain ⟨team, htr⟩ := storeTrick_mTricks hk24
  have hlead' := storeTrick_leadOf_succ hk24
  have hk' : e.storeTrick.mTrickCounter = e.mTrickCounter + 1 := rfl
  exact
    { players := hnb.trans h.players
      lead := by rw [hk', hlead']; exact h.winner_lt hn hk24 hpos
      counter := hk
      position := Nat.zero_le n
      current := rfl
      turn := by rw [hk', hlead']; rfl
      tricks := fun j hj => by
        rw [htr, hk']
        by_cases hjk : j = e.mTrickCounter
        · subst hjk
          rw [Function.update_self, if_pos (Nat.lt_succ_self _)]
          exact h.current.trans hpos
        · rw [Function.update_of_ne hjk, h.tricks j hj]
          exact if_congr (by omega) rfl rfl
      hands := fun i hi => by
        have hi' := h.hands i hi
        rw [hpos, if_pos (TarotContext.turnOf_lt h.lead hi)] at hi'
        exact hi'
      taker := hbid.symm ▸ h.taker
      plays_eq := by
        have hrest : (List.range e.mTrickCounter).flatMap (fun j =>
            seated n (e.storeTrick.mCtx.leadOf j) (e.storeTrick.mCtx.mTricks j).mDeck) =
              (List.range e.mTrickCounter).flatMap fun j =>
                seated n (e.mCtx.leadOf j) (e.mCtx.mTricks j).mDeck :=
          List.flatMap_congr fun j hj => by
            have hjk := List.mem_range.mp hj
            rw [storeTrick_leadOf hk24 hjk.le, htr, Function.update_of_ne hjk.ne]
        rw [h.plays_eq, hk', List.range_succ, List.flatMap_append, hrest,
          List.flatMap_singleton, storeTrick_leadOf hk24 le_rfl, htr, Function.update_self]
        exact (List.append_nil _).symm
      cards := by
        have hupdate := sum_update_add Deck.cards e.mCtx.mTricks hk24
          (e.currentTrick.setOwner team)
        have hold : (e.mCtx.mTricks e.mTrickCounter).cards = 0 := by
          rw [Deck.cards_eq_zero, ← Deck.size_eq_zero, h.tricks _ hk24, if_neg (lt_irrefl _)]
        rw [hold, add_zero, Deck.cards_setOwner, ← htr] at hupdate
        have haside : e.storeTrick.aside = e.aside := by
          simp only [aside, Engine.storeTrick, hdog, hdis]
        have hnb' : e.storeTrick.mCtx.mNbPlayers = e.mCtx.mNbPlayers := hnb
        have hp' : e.storeTrick.mPlayers = e.mPlayers := rfl
        have ht' : e.storeTrick.currentTrick.cards = 0 := rfl
        rw [← h.cards, Engine.cards, Engine.cards, hupdate, haside, hnb', hp', ht']
        abel }

/-- The step of the game stores a trick that is full, and behind the last one scores the deal;
else it asks the player in turn for a handle or for a card. -/
theorem playOn_cases (hn : e.mCtx.mNbPlayers = n) (hH : numberOfCardsInHand n ≤ 24)
    (hk : e.mTrickCounter < numberOfCardsInHand n) :
    (n ≤ e.mPosition ∧ e.playOn =
      if e.mTrickCounter + 1 = numberOfCardsInHand n then e.storeTrick.endOfDeal.2
      else e.storeTrick) ∨
    (e.mPosition < n ∧ (e.playOn =
        { e with
          mHandleAsked := Function.update e.mHandleAsked e.mCurrentPlayer.value true
          mSequence := .waitForHandle } ∨
      e.playOn = { e with mSequence := .waitForPlayedCard })) := by
  by_cases hpos : n ≤ e.mPosition
  · refine .inl ⟨hpos, ?_⟩
    have hdone : e.storeTrick.isLastTrick = true ↔ e.mTrickCounter + 1 = numberOfCardsInHand n := by
      have hn' : e.storeTrick.mCtx.mNbPlayers = n := (setTrick_mNbPlayers ..).trans hn
      rw [isLastTrick, isDealFinished, hn', decide_eq_true_eq]
      exact ⟨fun hge => le_antisymm hk hge, fun he => he.ge⟩
    rw [playOn, gameSequence_of_full (hn.symm ▸ hpos) (lt_of_lt_of_le hk hH)]
    exact if_congr hdone rfl rfl
  · refine .inr ⟨not_le.mp hpos, ?_⟩
    have hgs : e.gameSequence = if e.mTrickCounter = 0 ∧
          !e.mHandleAsked e.mCurrentPlayer.value then
        { e with
          mHandleAsked := Function.update e.mHandleAsked e.mCurrentPlayer.value true
          mSequence := .waitForHandle }
      else { e with mSequence := .waitForPlayedCard } := by
      rw [Engine.gameSequence, isEndOfTrick, hn, if_neg hpos]
      rfl
    have hnot : ¬ e.gameSequence.isLastTrick = true := by
      have hc : e.gameSequence.mTrickCounter = e.mTrickCounter := by
        rw [hgs]
        split_ifs <;> rfl
      rw [isLastTrick, isDealFinished, gameSequence_mNbPlayers, hc, hn, decide_eq_true_eq]
      exact not_le.mpr hk
    rw [playOn, if_neg hnot, hgs]
    split_ifs
    · exact .inl rfl
    · exact .inr rfl

theorem Playing.gameSequence (h : e.Playing n plays) (hn : n = 3 ∨ n = 4 ∨ n = 5)
    (hk : e.mTrickCounter < numberOfCardsInHand n) : (e.act .gameSequence).Phase n plays := by
  rw [act]
  rcases playOn_cases h.players (sizes hn).2.1 hk with
    ⟨hpos, hact⟩ | ⟨hpos, hact | hact⟩ <;> rw [hact]
  · have hend := h.storeTrick hn hk (le_antisymm h.position hpos)
    have hcounter : e.storeTrick.mTrickCounter = e.mTrickCounter + 1 := rfl
    have hseq : e.storeTrick.mSequence = .waitForEndOfTrick := rfl
    have hzero : e.storeTrick.mPosition = 0 := rfl
    generalize e.storeTrick = r at hend hcounter hseq hzero ⊢
    split_ifs with hlast
    · exact ⟨hend.congr rfl rfl rfl rfl rfl rfl rfl rfl rfl rfl rfl, hcounter.trans hlast, hzero⟩
    · simp only [Phase, hseq]
      exact ⟨hend, by omega, by omega⟩
  · exact ⟨h.congr rfl rfl rfl rfl rfl rfl rfl rfl rfl rfl rfl, hk, hpos⟩
  · exact ⟨h.congr rfl rfl rfl rfl rfl rfl rfl rfl rfl rfl rfl, hk, hpos⟩

/-! The whole course. -/

theorem Phase.players (h : e.Phase n plays) : e.mCtx.mNbPlayers = n := by
  unfold Phase at h
  split at h
  all_goals first | exact h.1.players | exact h

/-- From the deal on the cards are all there. -/
theorem Phase.cards_eq (h : e.Phase n plays)
    (hs : e.mSequence = .waitForCards ∨ e.mSequence = .waitForBid ∨ e.mSequence = .waitForShowBid ∨
      e.mSequence = .waitForAllPassed ∨ e.mSequence.isPastAuction = true) :
    e.cards = Deck.tarotDeck.cards := by
  unfold Phase at h
  cases hseq : e.mSequence <;> simp only [hseq] at h hs
  case badStep | stopped | waitForPlayers | waitForReady => simp [Sequence.isPastAuction] at hs
  all_goals exact h.1.cards

/-- What is true in one step of the engine is true in the next. -/
theorem Phase.act (h : e.Phase n plays) (hn : n = 3 ∨ n = 4 ∨ n = 5) (ht : e.Taken) {a : Action}
    (ha : e.Enabled a) (ht' : (e.act a).Taken)
    (hfair : ∀ deal, a = .newDeal deal → deal.Fair n) :
    (e.act a).Phase n (notePlay e a plays) := by
  have htaker : e.mSequence.isPastAuction = true → e.mCtx.mBid.taker.value < n :=
    fun hs => h.players ▸ ht.taker_lt hs
  cases a with
  | stay => exact h
  | newGame => exact h.players
  | newDeal deal => exact ⟨newDeal_beforeDiscard e h.players (hfair deal rfl), rfl⟩
  | bid c slam p =>
    simp only [Phase, ha.1] at h
    obtain ⟨h, rfl⟩ := h
    refine ⟨h.congr rfl rfl (setBid_mNbPlayers e c slam p) ?_ ?_ ?_, rfl⟩ <;>
      · simp only [Engine.act, setBid, TarotContext.setBid]
        split_ifs <;> rfl
  | bidSequence =>
    have h' : e.BeforeDiscard n ∧ plays = [] := by
      rcases ha with hs | hs <;> simpa only [Phase, hs] using h
    obtain ⟨hdeal, rfl⟩ := h'
    exact hdeal.bidSequence hn ht'
  | manageAfterBid =>
    have htaker := htaker (by rw [ha]; rfl)
    simp only [Phase, show e.mSequence = _ from ha] at h
    obtain ⟨h, rfl⟩ := h
    exact h.manageAfterBid hn htaker
  | discardSequence =>
    simp only [Phase, show e.mSequence = _ from ha] at h
    exact ⟨h.1.congr rfl rfl rfl rfl rfl rfl, h.2⟩
  | discard cards =>
    have htaker := htaker (by rw [ha.1]; rfl)
    simp only [Phase, ha.1] at h
    obtain ⟨h, rfl⟩ := h
    exact h.discard_phase hn ha htaker
  | kingCall c =>
    simp only [Phase, ha.1] at h
    rw [Engine.act, setKingCalled, if_pos ha.2]
    exact ⟨h.1.congr rfl rfl rfl rfl rfl rfl, h.2⟩
  | handle cards p =>
    simp only [Phase, ha.1] at h
    rw [Engine.act, setHandle, if_pos ha.2.2, TarotContext.setHandle]
    split_ifs
    · exact ⟨h.1.congr rfl rfl rfl rfl rfl rfl rfl rfl rfl rfl rfl, h.2⟩
    · exact ⟨h.1.congr rfl rfl rfl rfl rfl rfl rfl rfl rfl rfl rfl, h.2⟩
  | gameSequence =>
    have h' : e.Playing n plays ∧ e.mTrickCounter < numberOfCardsInHand n := by
      rcases ha with hs | hs | hs | hs | hs <;> simp only [Phase, hs] at h
      exacts [⟨h.1, h.2.1⟩, ⟨h.1, h.2.1⟩, ⟨h.1, h.2.1⟩, h, ⟨h.1, h.2.1⟩]
    exact h'.1.gameSequence hn h'.2
  | card c p =>
    simp only [Phase, ha.1] at h
    obtain ⟨h, hk, hpos⟩ := h
    have hcard := h.card hn hpos ha
    have hseq : (e.act (.card c p)).mSequence = .waitForShowCard := by
      rw [Engine.act, setCard, if_pos ha.2.2.2]
    have hcounter : (e.act (.card c p)).mTrickCounter = e.mTrickCounter := by
      rw [Engine.act, setCard, if_pos ha.2.2.2]
    simp only [Phase, hseq, hcounter]
    exact ⟨hcard, hk⟩

/-- No action between two deals loses a card. -/
theorem Phase.cards_act {a : Action}
    (h' : (e.act a).Phase n (notePlay e a plays)) (ha : e.Enabled a)
    (hcards : e.cards = Deck.tarotDeck.cards) : (e.act a).cards = Deck.tarotDeck.cards := by
  by_cases hl : a.isLate = true
  · exact h'.cards_eq (.inr (.inr (.inr (.inr (act_isLate_mSequence ha hl)))))
  cases a with
  | stay | newGame => exact hcards
  | newDeal deal =>
    refine h'.cards_eq (.inl ?_)
    unfold Engine.act newDeal
    rfl
  | bid c slam p => exact h'.cards_eq (.inr (.inr (.inl rfl)))
  | bidSequence =>
    rcases act_bidSequence_cases e with ⟨-, -, hact⟩ | ⟨-, -, -, -, ⟨-, hs⟩ | ⟨-, hs⟩⟩
    · exact h'.cards_eq (.inr (.inl (by rw [hact])))
    · exact h'.cards_eq (.inr (.inr (.inr (.inl hs))))
    · exact h'.cards_eq (.inr (.inr (.inr (.inr hs))))
  | _ => exact absurd rfl hl

end TarotClub.Engine
