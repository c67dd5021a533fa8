import TarotClub.Engine
import TarotClub.Machine

/-! The engine as a machine. Whatever a table makes its engine do in the execution of one
request is one of the actions below, and it happens in the steps that allow it. -/
namespace TarotClub

/-- The auction is over and the deal goes on. -/
def Sequence.isPastAuction : Sequence → Bool
  | .waitForKingCall | .waitForShowKingCall | .waitForShowDog | .waitForDiscard
  | .waitForStartDeal | .waitForHandle | .waitForShowHandle | .waitForPlayedCard
  | .waitForShowCard | .waitForEndOfTrick | .waitForEndOfDeal => true
  | _ => false

namespace Engine

/-- What a request makes the engine do; bids, handles and cards come with the seat they are
accepted from. -/
inductive Action where
  | stay
  | newGame
  | newDeal (deal : Deal)
  | bid (c : Contract) (slam : Bool) (p : Place)
  | bidSequence
  | manageAfterBid
  | discardSequence
  | discard (cards : Deck)
  | kingCall (c : Card)
  | handle (cards : Deck) (p : Place)
  | gameSequence
  | card (c : Card) (p : Place)

/-- The action gives out new cards. -/
def Action.isNewDeal : Action → Bool
  | .newDeal _ => true
  | _ => false

theorem Action.eq_newDeal {a : Action} (h : a.isNewDeal = true) : ∃ deal, a = .newDeal deal := by
  cases a with
  | newDeal deal => exact ⟨deal, rfl⟩
  | _ => contradiction

/-- The action leaves the current deal. -/
def Action.isRestart : Action → Bool
  | .newGame | .newDeal _ => true
  | _ => false

/-- What the table does when the engine waits for the start of the deal. -/
def startIfReady (e : Engine) : Engine :=
  if e.mSequence = .waitForStartDeal then e.startDeal.2 else e

/-- The step of the game, and the end of the deal behind the last trick. -/
def playOn (e : Engine) : Engine :=
  if e.gameSequence.isLastTrick then e.gameSequence.endOfDeal.2 else e.gameSequence

def act (e : Engine) : Action → Engine
  | .stay => e
  | .newGame => e.newGame
  | .newDeal deal => e.newDeal deal
  | .bid c slam p => (e.setBid c slam p).2
  | .bidSequence => e.bidSequence.startIfReady
  | .manageAfterBid => e.manageAfterBidSequence.startIfReady
  | .discardSequence => e.discardSequence
  | .discard cards => (e.setDiscard cards).2.startDeal.2
  | .kingCall c => (e.setKingCalled c).2
  | .handle cards p => (e.setHandle cards p).2
  | .gameSequence => e.playOn
  | .card c p => (e.setCard c p).2

/-- When a table lets its engine take the action. -/
def Enabled (e : Engine) : Action → Prop
  | .stay | .newGame => True
  | .newDeal _ => e.mSequence = .waitForReady ∨ e.mSequence = .waitForAllPassed ∨
      e.mSequence = .waitForEndOfDeal
  | .bid _ _ p => e.mSequence = .waitForBid ∧ p = e.mCurrentPlayer ∧ p.value < e.mCtx.mNbPlayers
  | .bidSequence => e.mSequence = .waitForCards ∨ e.mSequence = .waitForShowBid
  | .manageAfterBid => e.mSequence = .waitForShowKingCall
  | .discardSequence => e.mSequence = .waitForShowDog
  | .discard cards => e.mSequence = .waitForDiscard ∧
      e.takerDeck.testDiscard cards e.mCtx.mDog e.mCtx.mNbPlayers = true
  | .kingCall c => e.mSequence = .waitForKingCall ∧
      TarotContext.checkKingCall c (e.takerDeck.analyzeSuits {}) = true
  | .handle cards p => e.mSequence = .waitForHandle ∧ p = e.mCurrentPlayer ∧
      (e.mPlayers p.value).testHandle cards = true
  | .gameSequence => e.mSequence = .waitForStartDeal ∨ e.mSequence = .waitForHandle ∨
      e.mSequence = .waitForShowHandle ∨ e.mSequence = .waitForShowCard ∨
      e.mSequence = .waitForEndOfTrick
  | .card c p => e.mSequence = .waitForPlayedCard ∧ p = e.mCurrentPlayer ∧ c.isValid = true ∧
      (e.mPlayers p.value).canPlayCard c e.currentTrick = true

/-! The number of players never changes. -/

@[simp] theorem startDeal_mNbPlayers (e : Engine) :
    e.startDeal.2.mCtx.mNbPlayers = e.mCtx.mNbPlayers := rfl

@[simp] theorem startIfReady_mNbPlayers (e : Engine) :
    e.startIfReady.mCtx.mNbPlayers = e.mCtx.mNbPlayers := by
  unfold startIfReady
  split_ifs <;> rfl

@[simp] theorem newDeal_mNbPlayers (e : Engine) (deal : Deal) :
    (e.newDeal deal).mCtx.mNbPlayers = e.mCtx.mNbPlayers := by
  unfold newDeal createDeal
  cases deal.mFirstPlayer <;> rfl

@[simp] theorem setBid_mNbPlayers (e : Engine) (c : Contract) (slam : Bool) (p : Place) :
    (e.setBid c slam p).2.mCtx.mNbPlayers = e.mCtx.mNbPlayers := by
  simp only [setBid, TarotContext.setBid]
  split_ifs <;> rfl

@[simp] theorem manageAfterBidSequence_mNbPlayers (e : Engine) :
    e.manageAfterBidSequence.mCtx.mNbPlayers = e.mCtx.mNbPlayers := by
  simp only [manageAfterBidSequence, TarotContext.manageDogAfterBid]
  split_ifs <;> rfl

@[simp] theorem isEndOfTrick_mNbPlayers (e : Engine) :
    e.isEndOfTrick.2.mCtx.mNbPlayers = e.mCtx.mNbPlayers := by
  unfold isEndOfTrick
  split_ifs <;> rfl

@[simp] theorem bidSequence_mNbPlayers (e : Engine) :
    e.bidSequence.mCtx.mNbPlayers = e.mCtx.mNbPlayers := by
  simp only [bidSequence]
  split_ifs <;> simp

@[simp] theorem setTrick_mNbPlayers (ctx : TarotContext) (trick : Deck) (trickCounter : ℕ) :
    (ctx.setTrick trick trickCounter).2.mNbPlayers = ctx.mNbPlayers := by
  simp only [TarotContext.setTrick, TarotContext.creditTrick]
  split_ifs <;> rfl

@[simp] theorem gameSequence_mNbPlayers (e : Engine) :
    e.gameSequence.mCtx.mNbPlayers = e.mCtx.mNbPlayers := by
  simp only [gameSequence]
  split_ifs <;> simp

theorem act_mNbPlayers (e : Engine) (a : Action) :
    (e.act a).mCtx.mNbPlayers = e.mCtx.mNbPlayers := by
  cases a <;> simp only [act, newGame, newDeal_mNbPlayers, setBid_mNbPlayers,
    startIfReady_mNbPlayers, bidSequence_mNbPlayers, manageAfterBidSequence_mNbPlayers,
    discardSequence, startDeal_mNbPlayers]
  case discard cards => unfold setDiscard; split_ifs <;> rfl
  case kingCall c => unfold setKingCalled; split_ifs <;> rfl
  case handle cards p =>
    simp only [setHandle, TarotContext.setHandle]
    split_ifs <;> rfl
  case gameSequence =>
    unfold playOn
    split_ifs
    · exact gameSequence_mNbPlayers e
    · exact gameSequence_mNbPlayers e
  case card c p => unfold setCard; split_ifs <;> rfl

/-! The course of a deal behind the auction. -/

/-- The actions of a deal whose auction is over. -/
def Action.isLate : Action → Bool
  | .manageAfterBid | .discardSequence | .discard _ | .kingCall _ | .handle _ _ | .gameSequence
  | .card _ _ => true
  | _ => false

theorem startIfReady_mSequence (e : Engine) : e.startIfReady.mSequence = e.mSequence := by
  unfold startIfReady
  split_ifs <;> rfl

theorem startIfReady_mBid (e : Engine) : e.startIfReady.mCtx.mBid = e.mCtx.mBid := by
  unfold startIfReady
  split_ifs <;> rfl

theorem manageAfterBidSequence_mBid (e : Engine) :
    e.manageAfterBidSequence.mCtx.mBid = e.mCtx.mBid := by
  simp only [manageAfterBidSequence, TarotContext.manageDogAfterBid]
  split_ifs <;> rfl

theorem manageAfterBidSequence_mSequence (e : Engine) :
    e.manageAfterBidSequence.mSequence = .waitForShowDog ∨
      e.manageAfterBidSequence.mSequence = .waitForStartDeal := by
  simp only [manageAfterBidSequence]
  split_ifs <;> simp

theorem setTrick_mBid (ctx : TarotContext) (trick : Deck) (trickCounter : ℕ) :
    (ctx.setTrick trick trickCounter).2.mBid = ctx.mBid := by
  simp only [TarotContext.setTrick, TarotContext.creditTrick]
  split_ifs <;> rfl

theorem gameSequence_mBid (e : Engine) : e.gameSequence.mCtx.mBid = e.mCtx.mBid := by
  simp only [gameSequence, isEndOfTrick]
  split_ifs <;> simp [setTrick_mBid]

theorem gameSequence_mSequence (e : Engine) :
    e.gameSequence.mSequence = .waitForEndOfTrick ∨
      e.gameSequence.mSequence = .waitForHandle ∨
      e.gameSequence.mSequence = .waitForPlayedCard := by
  simp only [gameSequence]
  split_ifs <;> simp

theorem playOn_mBid (e : Engine) : e.playOn.mCtx.mBid = e.mCtx.mBid := by
  unfold playOn
  split_ifs <;> exact gameSequence_mBid e

theorem enabled_isLate {e : Engine} {a : Action} (ha : e.Enabled a) (hl : a.isLate = true) :
    e.mSequence.isPastAuction = true := by
  cases a <;> simp only [Action.isLate, Bool.false_eq_true] at hl
  case gameSequence =>
    rcases ha with h | h | h | h | h <;> rw [h] <;> rfl
  case manageAfterBid | discardSequence => rw [ha]; rfl
  all_goals rw [ha.1]; rfl

theorem act_isLate_mSequence {e : Engine} {a : Action} (ha : e.Enabled a)
    (hl : a.isLate = true) : (e.act a).mSequence.isPastAuction = true := by
  cases a <;> simp only [Action.isLate, Bool.false_eq_true] at hl
  case manageAfterBid =>
    rw [act, startIfReady_mSequence]
    rcases manageAfterBidSequence_mSequence e with h | h <;> rw [h] <;> rfl
  case discardSequence => rfl
  case discard cards => simp [act, setDiscard, ha.2, startDeal, Sequence.isPastAuction]
  case kingCall c => simp [act, setKingCalled, ha.2, Sequence.isPastAuction]
  case handle cards p => simp [act, setHandle, ha.2.2, Sequence.isPastAuction]
  case gameSequence =>
    simp only [act, playOn]
    split_ifs
    · rfl
    · rcases gameSequence_mSequence e with h | h | h <;> rw [h] <;> rfl
  case card c p => simp [act, setCard, ha.2.2.2, Sequence.isPastAuction]

/-- Behind the auction contract, taker and slam stay. -/
theorem act_isLate_mBid (e : Engine) {a : Action} (hl : a.isLate = true) :
    (e.act a).mCtx.mBid.contract = e.mCtx.mBid.contract ∧
      (e.act a).mCtx.mBid.taker = e.mCtx.mBid.taker ∧
      (e.act a).mCtx.mBid.slam = e.mCtx.mBid.slam := by
  cases a <;> simp only [Action.isLate, Bool.false_eq_true] at hl
  case manageAfterBid => simp [act, startIfReady_mBid, manageAfterBidSequence_mBid]
  case discardSequence => exact ⟨rfl, rfl, rfl⟩
  case discard cards =>
    simp only [act, setDiscard, startDeal]
    split_ifs <;> exact ⟨rfl, rfl, rfl⟩
  case kingCall c =>
    simp only [act, setKingCalled]
    split_ifs
    · split <;> exact ⟨rfl, rfl, rfl⟩
    · split <;> exact ⟨rfl, rfl, rfl⟩
    · exact ⟨rfl, rfl, rfl⟩
  case handle cards p =>
    simp only [act, setHandle, TarotContext.setHandle]
    split_ifs <;> exact ⟨rfl, rfl, rfl⟩
  case gameSequence => simp [act, playOn_mBid]
  case card c p =>
    simp only [act, setCard]
    split_ifs <;> exact ⟨rfl, rfl, rfl⟩

end Engine

end TarotClub
