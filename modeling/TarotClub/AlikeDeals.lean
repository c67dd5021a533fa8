import TarotClub.KingCall
import TarotClub.PlayReplica

namespace TarotClub

namespace TarotContext

/-- Before the last trick the winner is the player of the leading card, on whatever side. -/
theorem setTrick_fst {k : ℕ} (hk : k < 24) (ctx : TarotContext) {trick : Deck}
    (hlast : isDealFinished (k + 1) (trick.size % 256) = false) :
    (ctx.setTrick trick (k + 1)).1 =
      if (trickLeader trick).isValid then
        walkTo (trickLeader trick) (trick.size % 256) (ctx.leadOf k) trick.mDeck
      else .nowhere := by
  have hfool : ∀ (ctx : TarotContext) (winner foolPlace : Place),
      (ctx.foolRule winner foolPlace (k + 1) (trick.size % 256)).1 = winner := by
    intro ctx winner foolPlace
    rw [foolRule, if_neg (by rw [hlast]; exact Bool.false_ne_true)]
  rw [setTrick_eq ctx trick hk]
  simp only [decideTrick, getOwner, Function.update_self]
  split_ifs
  · exact hfool _ _ _
  · rfl
  · rfl
  · rfl

end TarotContext

namespace Engine

/-- The two actions differ at most in cards that are not shown: new cards for the seats that are not
one's own, and cards put aside. -/
def Action.Matches (mine : ℕ → Prop) : Action → Action → Prop
  | .stay, .stay | .newGame, .newGame | .bidSequence, .bidSequence
  | .manageAfterBid, .manageAfterBid | .discardSequence, .discardSequence
  | .discard _, .discard _ | .gameSequence, .gameSequence => True
  | .newDeal deal, .newDeal deal' => deal'.mFirstPlayer = deal.mFirstPlayer ∧
      ∀ i < 5, mine i → (deal'.mPlayers i).mDeck = (deal.mPlayers i).mDeck
  | .bid c slam p, .bid c' slam' p' => c' = c ∧ slam' = slam ∧ p' = p
  | .kingCall c, .kingCall c' => c' = c
  | .handle cards p, .handle cards' p' => cards' = cards ∧ p' = p
  | .card c p, .card c' p' => c' = c ∧ p' = p
  | _, _ => False

instance (mine : ℕ → Prop) [DecidablePred mine] (a a' : Action) : Decidable (a.Matches mine a') := by
  unfold Action.Matches
  split <;> infer_instance

/-- Actions that match are equal, or give out or put aside other cards. -/
inductive Action.Twins (mine : ℕ → Prop) : Action → Action → Prop
  | same (a : Action) : Twins mine a a
  | newDeal {deal deal' : Deal} (hfirst : deal'.mFirstPlayer = deal.mFirstPlayer)
    (hmine : ∀ i < 5, mine i → (deal'.mPlayers i).mDeck = (deal.mPlayers i).mDeck) :
    Twins mine (.newDeal deal) (.newDeal deal')
  | discard (cards cards' : Deck) : Twins mine (.discard cards) (.discard cards')

theorem Action.Matches.twins {mine : ℕ → Prop} {a a' : Action} (h : a.Matches mine a') :
    a.Twins mine a' := by
  unfold Matches at h
  split at h
  case h_6 => exact .discard _ _
  case h_8 => exact .newDeal h.1 h.2
  case h_9 =>
    obtain ⟨rfl, rfl, rfl⟩ := h
    exact .same _
  case h_10 =>
    subst h
    exact .same _
  case h_11 | h_12 =>
    obtain ⟨rfl, rfl⟩ := h
    exact .same _
  case h_13 => exact h.elim
  all_goals exact .same _

/-- The engines are in the same step of a deal, and differ at most in cards that have not been played
and in what is made of them: the hands, the dog, the discard, the partner and the points. -/
structure Alike (e e' : Engine) : Prop where
  mSequence : e'.mSequence = e.mSequence
  mPosition : e'.mPosition = e.mPosition
  mTrickCounter : e'.mTrickCounter = e.mTrickCounter
  mDealer : e'.mDealer = e.mDealer
  mHandleAsked : e'.mHandleAsked = e.mHandleAsked
  mNbPlayers : e'.mCtx.mNbPlayers = e.mCtx.mNbPlayers
  currentTrick : e'.currentTrick = e.currentTrick
  taker : e'.mCtx.mBid.taker = e.mCtx.mBid.taker
  contract : e'.mCtx.mBid.contract = e.mCtx.mBid.contract
  slam : e'.mCtx.mBid.slam = e.mCtx.mBid.slam
  turn : e.mSequence.isRunning = true → e'.mCurrentPlayer = e.mCurrentPlayer

/-- The same seat leads the trick. -/
def SameLead (e e' : Engine) : Prop :=
  e.mSequence.hasTrick = true → e'.mCtx.leadOf e.mTrickCounter = e.mCtx.leadOf e.mTrickCounter

/-- A king is called at a table of five only. -/
def KingAtFive (e : Engine) : Prop := e.mSequence = .waitForKingCall → e.mCtx.mNbPlayers = 5

variable {e e' : Engine} {mine : ℕ → Prop} {n : ℕ} {plays plays' : List (Card × Place)}

/-- The next step, in the middle of a deal. -/
theorem Alike.goTo (h : e.Alike e') (hrun : e.mSequence.isRunning = true) (seq : Sequence) :
    ({ e with mSequence := seq } : Engine).Alike { e' with mSequence := seq } :=
  { h with
    mSequence := rfl
    turn := fun _ => h.turn hrun }

theorem Alike.startDeal_fst (h : e.Alike e') : e'.startDeal.1 = e.startDeal.1 := by
  simp only [startDeal, h.slam, h.taker, h.mDealer, h.mNbPlayers]

theorem Alike.startDeal (h : e.Alike e') :
    e.startDeal.2.Alike e'.startDeal.2 ∧ e.startDeal.2.SameLead e'.startDeal.2 := by
  have hfirst := h.startDeal_fst
  refine ⟨?_, fun _ => hfirst⟩
  exact
    { h with
      mPosition := rfl
      mTrickCounter := rfl
      mHandleAsked := by simp only [Engine.startDeal, h.mHandleAsked]
      turn := fun _ => hfirst }

/-- A step that is not yet the play, unless the deal starts with it. -/
theorem Alike.startIfReady (h : e.Alike e') (hseq : e.mSequence ∈ PlayingTable.afterAuction) :
    e.startIfReady.Alike e'.startIfReady ∧ e.startIfReady.SameLead e'.startIfReady := by
  unfold Engine.startIfReady
  rw [h.mSequence]
  split_ifs with hready
  · exact h.startDeal
  · refine ⟨h, fun htrick => ?_⟩
    simp only [PlayingTable.afterAuction, List.mem_cons, List.not_mem_nil, or_false] at hseq
    rcases hseq with hs | hs | hs | hs | hs
    · rw [hs] at htrick
      exact absurd htrick Bool.false_ne_true
    · rw [hs] at htrick
      exact absurd htrick Bool.false_ne_true
    · rw [hs] at htrick
      exact absurd htrick Bool.false_ne_true
    · rw [hs] at htrick
      exact absurd htrick Bool.false_ne_true
    · exact absurd hs hready

theorem Alike.isEndOfTrick (h : e.Alike e') :
    e'.isEndOfTrick.1 = e.isEndOfTrick.1 ∧ e.isEndOfTrick.2.Alike e'.isEndOfTrick.2 := by
  unfold Engine.isEndOfTrick
  rw [h.mPosition, h.mNbPlayers, h.mTrickCounter]
  split_ifs
  · exact ⟨rfl, { h with mPosition := rfl, mTrickCounter := rfl }⟩
  · exact ⟨rfl, h⟩

theorem Alike.manageAfterBid (h : e.Alike e') (hrun : e.mSequence.isRunning = true) :
    e.manageAfterBidSequence.Alike e'.manageAfterBidSequence := by
  simp only [manageAfterBidSequence, TarotContext.manageDogAfterBid, h.contract]
  by_cases hwithout : e.mCtx.mBid.contract = .guardWithout
  · simp only [if_pos hwithout]
    exact { h with mSequence := rfl, turn := fun _ => h.turn hrun }
  · by_cases hagainst : e.mCtx.mBid.contract = .guardAgainst
    · simp only [if_neg hwithout, if_pos hagainst]
      exact { h with mSequence := rfl, turn := fun _ => h.turn hrun }
    · simp only [if_neg hwithout, if_neg hagainst]
      exact h.goTo hrun _

theorem Alike.bidSequence (h : e.Alike e') (hrun : e.mSequence.isRunning = true) :
    e.bidSequence.Alike e'.bidSequence := by
  obtain ⟨hclosed, hend⟩ := h.isEndOfTrick
  have hseq : e.isEndOfTrick.2.mSequence = e.mSequence := by
    unfold Engine.isEndOfTrick
    split_ifs
    · rfl
    · rfl
  have hover : (e'.isEndOfTrick.1 || e'.isEndOfTrick.2.mCtx.mBid.slam) =
      (e.isEndOfTrick.1 || e.isEndOfTrick.2.mCtx.mBid.slam) := by
    rw [hclosed, hend.slam]
  have hpass : (e'.isEndOfTrick.2.mCtx.mBid.contract = .pass) =
      (e.isEndOfTrick.2.mCtx.mBid.contract = .pass) := by
    rw [hend.contract]
  have hfive : (e'.isEndOfTrick.2.mCtx.mNbPlayers = 5 ∧
        e'.isEndOfTrick.2.mSequence = .waitForShowBid) =
      (e.isEndOfTrick.2.mCtx.mNbPlayers = 5 ∧ e.isEndOfTrick.2.mSequence = .waitForShowBid) := by
    rw [hend.mNbPlayers, hend.mSequence]
  simp only [Engine.bidSequence, hover, hpass, hfive]
  have hrun' : e.isEndOfTrick.2.mSequence.isRunning = true := hseq ▸ hrun
  split_ifs
  · exact hend.goTo hrun' _
  · exact
      { hend with
        mSequence := rfl
        turn := fun _ => hend.turn hrun' }
  · exact hend.manageAfterBid hrun'
  · exact hend.goTo hrun' _

theorem gameSequence_mTrickCounter (e : Engine) :
    e.gameSequence.mTrickCounter = e.isEndOfTrick.2.mTrickCounter := by
  unfold gameSequence
  dsimp only
  split_ifs
  · rfl
  · rfl
  · rfl

theorem Alike.isLastTrick (h : e.Alike e') :
    e'.gameSequence.isLastTrick = e.gameSequence.isLastTrick := by
  simp only [Engine.isLastTrick, gameSequence_mTrickCounter, gameSequence_mNbPlayers,
    h.isEndOfTrick.2.mTrickCounter, h.mNbPlayers]

theorem endOfDeal_mBid (e : Engine) : e.endOfDeal.2.mCtx.mBid = e.mCtx.mBid := rfl

theorem endOfDeal_mNbPlayers (e : Engine) :
    e.endOfDeal.2.mCtx.mNbPlayers = e.mCtx.mNbPlayers := rfl

/-- What is common to the two engines behind a trick. -/
theorem Alike.storeTrick_ended (h : e.Alike e') :
    e.storeTrick.endOfDeal.2.Alike e'.storeTrick.endOfDeal.2 := by
  have hbid : ∀ e : Engine, e.storeTrick.endOfDeal.2.mCtx.mBid = e.mCtx.mBid := by
    intro e
    rw [endOfDeal_mBid]
    exact setTrick_mBid e.mCtx e.currentTrick (e.mTrickCounter + 1)
  have hnb : ∀ e : Engine, e.storeTrick.endOfDeal.2.mCtx.mNbPlayers = e.mCtx.mNbPlayers := by
    intro e
    rw [endOfDeal_mNbPlayers]
    exact setTrick_mNbPlayers e.mCtx e.currentTrick (e.mTrickCounter + 1)
  exact
    { mSequence := rfl
      mPosition := rfl
      mTrickCounter := congrArg (· + 1) h.mTrickCounter
      mDealer := h.mDealer
      mHandleAsked := h.mHandleAsked
      mNbPlayers := by rw [hnb, hnb, h.mNbPlayers]
      currentTrick := congrArg Deck.clear h.currentTrick
      taker := by rw [hbid, hbid, h.taker]
      contract := by rw [hbid, hbid, h.contract]
      slam := by rw [hbid, hbid, h.slam]
      turn := fun hrun => absurd hrun Bool.false_ne_true }

/-- A trick that is not the last one has the same winner, who leads the next one. -/
theorem Alike.storeTrick (h : e.Alike e') (hp : e.Playing n plays) (hn : n = 3 ∨ n = 4 ∨ n = 5)
    (hpos : n ≤ e.mPosition) (hk : e.mTrickCounter + 1 < numberOfCardsInHand n)
    (hlead : e'.mCtx.leadOf e.mTrickCounter = e.mCtx.leadOf e.mTrickCounter) :
    e.storeTrick.Alike e'.storeTrick ∧ e.storeTrick.SameLead e'.storeTrick := by
  have hk24 : e.mTrickCounter < 24 := by
    have := (sizes hn).2.1
    omega
  have hsize : e.currentTrick.size % 256 = n := by
    have hfull := hp.current.trans (le_antisymm hp.position hpos)
    omega
  have hlast : isDealFinished (e.mTrickCounter + 1) (e.currentTrick.size % 256) = false := by
    rw [hsize, isDealFinished, decide_eq_false_iff_not]
    omega
  have hwinner : e'.storeTrick.mCurrentPlayer = e.storeTrick.mCurrentPlayer := by
    change (e'.mCtx.setTrick e'.currentTrick (e'.mTrickCounter + 1)).1 =
      (e.mCtx.setTrick e.currentTrick (e.mTrickCounter + 1)).1
    rw [h.currentTrick, h.mTrickCounter, TarotContext.setTrick_fst hk24 e.mCtx hlast,
      TarotContext.setTrick_fst hk24 e'.mCtx hlast, hlead]
  have hended := h.storeTrick_ended
  refine ⟨?_, fun _ => ?_⟩
  · exact
      { hended with
        mSequence := rfl
        mNbPlayers := by simpa only [endOfDeal_mNbPlayers] using hended.mNbPlayers
        taker := by simpa only [endOfDeal_mBid] using hended.taker
        contract := by simpa only [endOfDeal_mBid] using hended.contract
        slam := by simpa only [endOfDeal_mBid] using hended.slam
        turn := fun _ => hwinner }
  · have hnext := storeTrick_leadOf_succ (e := e) hk24
    have hnext' := storeTrick_leadOf_succ (e := e') (h.mTrickCounter ▸ hk24)
    rw [h.mTrickCounter] at hnext'
    exact hnext'.trans (hwinner.trans hnext.symm)

/-- While a trick is open, a player is asked for a handle or for a card. -/
theorem gameSequence_of_open (hpos : ¬ e.mCtx.mNbPlayers ≤ e.mPosition) :
    e.gameSequence = if e.mTrickCounter = 0 ∧ !e.mHandleAsked e.mCurrentPlayer.value then
        { e with
          mHandleAsked := Function.update e.mHandleAsked e.mCurrentPlayer.value true
          mSequence := .waitForHandle }
      else { e with mSequence := .waitForPlayedCard } := by
  rw [gameSequence, Engine.isEndOfTrick, if_neg hpos]
  rfl

theorem Alike.playOn (h : e.Alike e') (hp : e.Playing n plays) (hp' : e'.Playing n plays')
    (hn : n = 3 ∨ n = 4 ∨ n = 5) (hk : e.mTrickCounter < numberOfCardsInHand n)
    (htrick : e.mSequence.hasTrick = true) (hlead : e.SameLead e') :
    e.playOn.Alike e'.playOn ∧ e.playOn.SameLead e'.playOn := by
  have hrun : e.mSequence.isRunning = true := by
    revert htrick
    cases e.mSequence <;> decide
  have hk24 : e.mTrickCounter < 24 := lt_of_lt_of_le hk (sizes hn).2.1
  by_cases hpos : n ≤ e.mPosition
  · rcases playOn_cases hp.players (sizes hn).2.1 hk with ⟨-, hon⟩ | ⟨hlt, -⟩
    swap
    · omega
    rcases playOn_cases hp'.players (sizes hn).2.1 (h.mTrickCounter ▸ hk) with ⟨-, hon'⟩ | ⟨hlt, -⟩
    swap
    · rw [h.mPosition] at hlt
      omega
    rw [h.mTrickCounter] at hon'
    rw [hon, hon']
    split_ifs with hlast
    · exact ⟨h.storeTrick_ended, fun ht => absurd ht Bool.false_ne_true⟩
    · exact h.storeTrick hp hn hpos (by omega) (hlead htrick)
  · have hopen : ¬ e.mCtx.mNbPlayers ≤ e.mPosition := by
      rw [hp.players]
      exact hpos
    have hopen' : ¬ e'.mCtx.mNbPlayers ≤ e'.mPosition := by
      rw [h.mNbPlayers, h.mPosition]
      exact hopen
    have hnot : ¬ e.gameSequence.isLastTrick = true := by
      rw [Engine.isLastTrick, gameSequence_mTrickCounter, gameSequence_mNbPlayers,
        Engine.isEndOfTrick, if_neg hopen, isDealFinished, hp.players, decide_eq_true_eq]
      exact not_le.mpr hk
    have hnot' : ¬ e'.gameSequence.isLastTrick = true := by
      rw [h.isLastTrick]
      exact hnot
    have hasked : (e'.mTrickCounter = 0 ∧ (!e'.mHandleAsked e'.mCurrentPlayer.value) = true) =
        (e.mTrickCounter = 0 ∧ (!e.mHandleAsked e.mCurrentPlayer.value) = true) := by
      rw [h.mTrickCounter, h.mHandleAsked, h.turn hrun]
    have hlead' : e'.mCtx.leadOf e.mTrickCounter = e.mCtx.leadOf e.mTrickCounter := hlead htrick
    rw [Engine.playOn, Engine.playOn, if_neg hnot, if_neg hnot', gameSequence_of_open hopen,
      gameSequence_of_open hopen']
    simp only [hasked]
    split_ifs
    · refine ⟨?_, fun _ => hlead'⟩
      exact
        { h with
          mSequence := rfl
          mHandleAsked := by simp only [h.mHandleAsked, h.turn hrun]
          turn := fun _ => h.turn hrun }
    · exact ⟨h.goTo hrun _, fun _ => hlead'⟩

theorem Alike.newDeal (h : e.Alike e') {deal deal' : Deal}
    (hfirst : deal'.mFirstPlayer = deal.mFirstPlayer) :
    (e.newDeal deal).Alike (e'.newDeal deal') := by
  unfold Engine.newDeal createDeal
  rw [hfirst, h.mNbPlayers, h.mDealer, h.currentTrick]
  cases deal.mFirstPlayer with
  | none =>
    exact
      { h with
        mSequence := rfl
        mPosition := rfl
        mDealer := rfl
        currentTrick := rfl
        taker := rfl
        contract := rfl
        slam := rfl
        turn := fun _ => rfl }
  | some p =>
    exact
      { h with
        mSequence := rfl
        mPosition := rfl
        mDealer := congrArg p.previous h.mNbPlayers
        currentTrick := rfl
        taker := rfl
        contract := rfl
        slam := rfl
        turn := fun _ => rfl }

theorem Alike.setBid (h : e.Alike e') (hrun : e.mSequence.isRunning = true) (c : Contract)
    (slam : Bool) (p : Place) :
    (e'.setBid c slam p).1 = (e.setBid c slam p).1 ∧
      (e.setBid c slam p).2.Alike (e'.setBid c slam p).2 := by
  have hover : (c > e'.mCtx.mBid.contract) = (c > e.mCtx.mBid.contract) := by rw [h.contract]
  have hnext : e'.mCurrentPlayer.next e'.mCtx.mNbPlayers =
      e.mCurrentPlayer.next e.mCtx.mNbPlayers := by
    rw [h.turn hrun, h.mNbPlayers]
  simp only [Engine.setBid, TarotContext.setBid, hover]
  split_ifs
  · refine ⟨rfl, ?_⟩
    exact
      { h with
        mSequence := rfl
        mPosition := congrArg (fun k => u8 (k + 1)) h.mPosition
        taker := rfl
        contract := rfl
        slam := rfl
        turn := fun _ => hnext }
  · refine ⟨rfl, ?_⟩
    exact
      { h with
        mSequence := rfl
        mPosition := congrArg (fun k => u8 (k + 1)) h.mPosition
        turn := fun _ => hnext }

/-- The discards may be different cards. -/
theorem Alike.setDiscard (h : e.Alike e') {cards cards' : Deck} (ha : e.Enabled (.discard cards))
    (ha' : e'.Enabled (.discard cards')) :
    (e.setDiscard cards).2.Alike (e'.setDiscard cards').2 := by
  have hrun : e.mSequence.isRunning = true := by
    rw [ha.1]
    rfl
  rw [Engine.setDiscard, Engine.setDiscard, if_pos ha.2, if_pos ha'.2]
  exact
    { h with
      mSequence := rfl
      turn := fun _ => h.turn hrun }

theorem Alike.setHandle (h : e.Alike e') {cards : Deck} {p : Place}
    (ha : e.Enabled (.handle cards p)) (ha' : e'.Enabled (.handle cards p)) (hlead : e.SameLead e') :
    (e.setHandle cards p).2.Alike (e'.setHandle cards p).2 ∧
      (e.setHandle cards p).2.SameLead (e'.setHandle cards p).2 := by
  have hrun : e.mSequence.isRunning = true := by
    rw [ha.1]
    rfl
  have hctx : ∀ ctx : TarotContext, (ctx.setHandle cards p).mBid = ctx.mBid ∧
      (ctx.setHandle cards p).mNbPlayers = ctx.mNbPlayers ∧
      (ctx.setHandle cards p).leadOf = ctx.leadOf := by
    intro ctx
    unfold TarotContext.setHandle
    split_ifs
    · exact ⟨rfl, rfl, rfl⟩
    · exact ⟨rfl, rfl, rfl⟩
  obtain ⟨hbid, hnb, hleads⟩ := hctx e.mCtx
  obtain ⟨hbid', hnb', hleads'⟩ := hctx e'.mCtx
  rw [Engine.setHandle, Engine.setHandle, if_pos ha.2.2, if_pos ha'.2.2]
  refine ⟨?_, fun _ => ?_⟩
  · exact
      { h with
        mSequence := rfl
        mNbPlayers := by rw [hnb, hnb', h.mNbPlayers]
        taker := by rw [hbid, hbid', h.taker]
        contract := by rw [hbid, hbid', h.contract]
        slam := by rw [hbid, hbid', h.slam]
        turn := fun _ => h.turn hrun }
  · change (e'.mCtx.setHandle cards p).leadOf _ = (e.mCtx.setHandle cards p).leadOf _
    rw [hleads, hleads']
    refine hlead ?_
    rw [ha.1]
    rfl

theorem Alike.setCard (h : e.Alike e') {c : Card} {p : Place} (ha : e.Enabled (.card c p))
    (ha' : e'.Enabled (.card c p)) (hlead : e.SameLead e') :
    (e.setCard c p).2.Alike (e'.setCard c p).2 ∧
      (e.setCard c p).2.SameLead (e'.setCard c p).2 := by
  have hrun : e.mSequence.isRunning = true := by
    rw [ha.1]
    rfl
  have hnext : e'.mCurrentPlayer.next e'.mCtx.mNbPlayers =
      e.mCurrentPlayer.next e.mCtx.mNbPlayers := by
    rw [h.turn hrun, h.mNbPlayers]
  rw [Engine.setCard, Engine.setCard, if_pos ha.2.2.2, if_pos ha'.2.2.2]
  refine ⟨?_, fun _ => hlead ?_⟩
  · exact
      { h with
        mSequence := rfl
        mPosition := congrArg (fun k => u8 (k + 1)) h.mPosition
        currentTrick := congrArg (Deck.appendCard · c) h.currentTrick
        turn := fun _ => hnext }
  · rw [ha.1]
    rfl

/-- Whoever becomes the partner, the bid is the same else. -/
theorem setKingCalled_mBid {c : Card} (ha : e.Enabled (.kingCall c)) :
    (e.setKingCalled c).2.mCtx.mBid.taker = e.mCtx.mBid.taker ∧
      (e.setKingCalled c).2.mCtx.mBid.contract = e.mCtx.mBid.contract ∧
      (e.setKingCalled c).2.mCtx.mBid.slam = e.mCtx.mBid.slam := by
  rw [Engine.setKingCalled, if_pos ha.2]
  dsimp only
  split
  · exact ⟨rfl, rfl, rfl⟩
  · exact ⟨rfl, rfl, rfl⟩

theorem Alike.setKingCalled (h : e.Alike e') {c : Card} (ha : e.Enabled (.kingCall c))
    (ha' : e'.Enabled (.kingCall c)) :
    (e.setKingCalled c).2.Alike (e'.setKingCalled c).2 := by
  have hrun : e.mSequence.isRunning = true := by
    rw [ha.1]
    rfl
  obtain ⟨htaker, hcontract, hslam⟩ := setKingCalled_mBid ha
  obtain ⟨htaker', hcontract', hslam'⟩ := setKingCalled_mBid ha'
  rw [Engine.setKingCalled, if_pos ha.2] at htaker hcontract hslam ⊢
  rw [Engine.setKingCalled, if_pos ha'.2] at htaker' hcontract' hslam' ⊢
  exact
    { h with
      mSequence := rfl
      taker := htaker'.trans (h.taker.trans htaker.symm)
      contract := hcontract'.trans (h.contract.trans hcontract.symm)
      slam := hslam'.trans (h.slam.trans hslam.symm)
      turn := fun _ => h.turn hrun }

/-- Actions that match keep the engines alike. -/
theorem Alike.act (h : e.Alike e') (hlead : e.SameLead e') (hp : e.Phase n plays)
    (hp' : e'.Phase n plays') (hn : n = 3 ∨ n = 4 ∨ n = 5) {a a' : Action} (ha : e.Enabled a)
    (ha' : e'.Enabled a') (hm : a.Matches mine a') :
    (e.act a).Alike (e'.act a') ∧ (e.act a).SameLead (e'.act a') := by
  have hno : ∀ {e e' : Engine}, e.mSequence.hasTrick = false → e.SameLead e' := by
    intro e e' hs htrick
    rw [hs] at htrick
    exact absurd htrick Bool.false_ne_true
  cases hm.twins with
  | newDeal hfirst hmine => exact ⟨h.newDeal hfirst, hno rfl⟩
  | discard cards cards' => exact (h.setDiscard ha ha').startDeal
  | same =>
    cases a with
    | stay => exact ⟨h, hlead⟩
    | newGame =>
      refine ⟨?_, hno rfl⟩
      exact
        { h with
          mSequence := rfl
          turn := fun hrun => absurd hrun Bool.false_ne_true }
    | newDeal deal => exact ⟨h.newDeal rfl, hno rfl⟩
    | bid c slam p =>
      have hrun : e.mSequence.isRunning = true := by
        rw [ha.1]
        rfl
      refine ⟨(h.setBid hrun c slam p).2, hno ?_⟩
      rw [Engine.act, setBid_mSequence]
      rfl
    | bidSequence =>
      have hrun : e.mSequence.isRunning = true := by
        rcases ha with hs | hs
        · rw [hs]
          rfl
        · rw [hs]
          rfl
      exact (h.bidSequence hrun).startIfReady (PlayingTable.bidSequence_mSequence e)
    | manageAfterBid =>
      have hrun : e.mSequence.isRunning = true := by
        rw [show e.mSequence = .waitForShowKingCall from ha]
        rfl
      exact (h.manageAfterBid hrun).startIfReady (PlayingTable.manageAfterBidSequence_mem e)
    | discardSequence =>
      have hrun : e.mSequence.isRunning = true := by
        rw [show e.mSequence = .waitForShowDog from ha]
        rfl
      exact ⟨h.goTo hrun _, hno rfl⟩
    | discard cards => exact (h.setDiscard ha ha').startDeal
    | kingCall c =>
      refine ⟨h.setKingCalled ha ha', hno ?_⟩
      rw [Engine.act, Engine.setKingCalled, if_pos ha.2]
      rfl
    | handle cards p => exact h.setHandle ha ha' hlead
    | card c p => exact h.setCard ha ha' hlead
    | gameSequence =>
      have hplaying : e.Playing n plays ∧ e'.Playing n plays' ∧
          e.mTrickCounter < numberOfCardsInHand n ∧ e.mSequence.hasTrick = true := by
        have hseq := h.mSequence
        rcases ha with hs | hs | hs | hs | hs <;> rw [hs] at hseq <;>
          simp only [Phase, hs, hseq] at hp hp'
        all_goals
          refine ⟨hp.1, hp'.1, by tauto, ?_⟩
          rw [hs]
          rfl
      exact h.playOn hplaying.1 hplaying.2.1 hn hplaying.2.2.1 hplaying.2.2.2 hlead

/-- Whether a card can be called does not depend on who holds it. -/
theorem BeforeDiscard.setKingCalled_fst (h : e.BeforeDiscard 5)
    (htaker : e.mCtx.mBid.taker.value < 5) {c : Card} (ha : e.Enabled (.kingCall c)) :
    (e.setKingCalled c).1 = c.isValid := by
  have hfair : e.dealt.Fair 5 := ⟨h.hands, h.dog, h.cards_eq.symm.trans h.cards⟩
  have hheld := isHeld_iff (c := c) hfair
  rw [Bool.eq_iff_iff, Engine.setKingCalled_fst htaker, hheld]
  exact and_iff_right ha.2

theorem act_kingAtFive (h : e.KingAtFive) {a : Action} (ha : e.Enabled a) :
    (e.act a).KingAtFive := by
  by_cases hstay : a = .stay
  · rw [hstay]
    exact h
  · intro hking
    have hmem := act_mem_leadsTo ha hstay
    rw [hking] at hmem
    rw [act_mNbPlayers]
    cases a with
    | bidSequence =>
      rw [Engine.act, startIfReady_mSequence, Engine.bidSequence] at hking
      dsimp only at hking
      split_ifs at hking with _ _ hfive
      · rw [← hfive.1]
        exact (isEndOfTrick_mNbPlayers e).symm
      · rcases manageAfterBidSequence_mSequence e.isEndOfTrick.2 with hs | hs
        · rw [hs] at hking
          exact Sequence.noConfusion hking
        · rw [hs] at hking
          exact Sequence.noConfusion hking
    | manageAfterBid =>
      rw [Engine.act, startIfReady_mSequence] at hking
      rcases manageAfterBidSequence_mSequence e with hs | hs
      · rw [hs] at hking
        exact Sequence.noConfusion hking
      · rw [hs] at hking
        exact Sequence.noConfusion hking
    | _ => exact absurd hmem (by simp [Action.leadsTo])

end Engine

end TarotClub
