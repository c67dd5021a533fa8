import TarotClub.TarotContext

/-! The state machine of one table: which message is awaited, whose turn it is, and where
the cards are. The cards of a new deal come from a dealer, the part of the program that
draws lots and reads files. -/
namespace TarotClub

/-- `Engine::Sequence`. -/
inductive Sequence where
  | badStep
  | stopped
  | waitForPlayers
  | waitForReady
  | waitForCards
  | waitForBid
  | waitForShowBid
  | waitForAllPassed
  | waitForKingCall
  | waitForShowKingCall
  | waitForShowDog
  | waitForDiscard
  | waitForStartDeal
  | waitForHandle
  | waitForShowHandle
  | waitForPlayedCard
  | waitForShowCard
  | waitForEndOfTrick
  | waitForEndOfDeal
  deriving DecidableEq, Repr

/-- What `CreateDeal` settles on: the hands, the dog and, for a custom deal, the player who
begins. -/
structure Deal where
  mPlayers : ℕ → Deck
  mDogDeck : Deck
  mFirstPlayer : Option Place := none

/-- `CreateDeal`, for a number of players and the distribution asked for. -/
abbrev Dealer := ℕ → Distribution → Deal

structure Engine where
  mPlayers : ℕ → Deck := fun _ => {}
  currentTrick : Deck := {}
  mCurrentPoints : Points := {}
  mSequence : Sequence := .stopped
  mPosition : ℕ := 0
  mDealer : Place := .nowhere
  mTrickCounter : ℕ := 0
  mCurrentPlayer : Place := .nowhere
  mHandleAsked : ℕ → Bool := fun _ => false
  mCtx : TarotContext := TarotContext.initializeContext {}

namespace Engine

/-- The dealer's seat is drawn by lot. -/
def createTable (e : Engine) (nbPlayers : ℕ) (randomPlace : Place) : Engine :=
  { e with
    mCtx := { e.mCtx with mNbPlayers := nbPlayers }.initializeContext
    mDealer := randomPlace
    mSequence := .waitForPlayers }

def newGame (e : Engine) : Engine := { e with mSequence := .waitForReady }

/-- `CreateDeal` on the engine: a custom deal also chooses who begins. -/
def createDeal (e : Engine) (deal : Deal) : Engine :=
  let n := e.mCtx.mNbPlayers
  let e := match deal.mFirstPlayer with
    | some p => { e with mCurrentPlayer := p, mDealer := p.previous n }
    | none => e
  { e with
    mPlayers := fun i =>
      if i < n then (e.mPlayers i).clear.append (deal.mPlayers i) else e.mPlayers i
    mCtx := { e.mCtx with mDog := deal.mDogDeck } }

def newDeal (e : Engine) (deal : Deal) : Engine :=
  let n := e.mCtx.mNbPlayers
  let dealer := e.mDealer.next n
  { ({ e with
        mCtx := e.mCtx.initializeContext
        mPosition := 0
        currentTrick := e.currentTrick.clear
        mDealer := dealer
        mCurrentPlayer := dealer.next n } : Engine).createDeal deal with
    mSequence := .waitForCards }

def startDeal (e : Engine) : Place × Engine :=
  let first := if e.mCtx.mBid.slam then e.mCtx.mBid.taker else e.mDealer.next e.mCtx.mNbPlayers
  (first,
    { e with
      mTrickCounter := 0
      mPosition := 0
      mHandleAsked := fun i => if i < 5 then false else e.mHandleAsked i
      mCurrentPlayer := first
      mCtx := { e.mCtx with mFirstPlayer := first } })

/-- The taker's hand. -/
def takerDeck (e : Engine) : Deck := e.mPlayers e.mCtx.mBid.taker.value

def setDiscard (e : Engine) (discard : Deck) : Bool × Engine :=
  if e.takerDeck.testDiscard discard e.mCtx.mDog e.mCtx.mNbPlayers then
    let hand := ((e.takerDeck.append e.mCtx.mDog).removeDuplicates discard).2
    (true,
      { e with
        mPlayers := Function.update e.mPlayers e.mCtx.mBid.taker.value hand
        mCtx := { e.mCtx with mDiscard := discard.setOwner .attack }
        mSequence := .waitForStartDeal })
  else (false, e)

def setHandle (e : Engine) (handle : Deck) (p : Place) : Bool × Engine :=
  if (e.mPlayers p.value).testHandle handle then
    (true, { e with mCtx := e.mCtx.setHandle handle p, mSequence := .waitForShowHandle })
  else (false, e)

def setCard (e : Engine) (c : Card) (p : Place) : Bool × Engine :=
  if (e.mPlayers p.value).canPlayCard c e.currentTrick then
    (true,
      { e with
        currentTrick := e.currentTrick.appendCard c
        mPlayers := Function.update e.mPlayers p.value ((e.mPlayers p.value).remove c)
        mPosition := u8 (e.mPosition + 1)
        mCurrentPlayer := e.mCurrentPlayer.next e.mCtx.mNbPlayers
        mSequence := .waitForShowCard })
  else (false, e)

def setBid (e : Engine) (c : Contract) (slam : Bool) (p : Place) : Contract × Engine :=
  let (c, ctx) := e.mCtx.setBid c slam p
  (c,
    { e with
      mCtx := ctx
      mPosition := u8 (e.mPosition + 1)
      mCurrentPlayer := e.mCurrentPlayer.next e.mCtx.mNbPlayers
      mSequence := .waitForShowBid })

/-- The first of the four seats on the right of the taker whose hand holds the card. -/
def findPartner (e : Engine) (c : Card) : ℕ → Place → Option Place
  | 0, _ => none
  | k + 1, partner =>
    if (e.mPlayers partner.value).hasCard c then some partner
    else e.findPartner c k (partner.next 5)

/-- The step advances even when nobody holds the card that is called. -/
def setKingCalled (e : Engine) (c : Card) : Bool × Engine :=
  if TarotContext.checkKingCall c (e.takerDeck.analyzeSuits {}) then
    let partner :=
      if e.mCtx.mDog.hasCard c || e.takerDeck.hasCard c then some e.mCtx.mBid.taker
      else e.findPartner c 4 (e.mCtx.mBid.taker.next 5)
    let bid := match partner with
      | some p => { e.mCtx.mBid with partner := p }
      | none => e.mCtx.mBid
    (partner.isSome,
      { e with
        mCtx := { e.mCtx with mBid := bid, mKingCalled := c }
        mSequence := .waitForShowKingCall })
  else (false, e)

def getDeck (e : Engine) (p : Place) : Deck :=
  if p.value < Place.nowhere.value then e.mPlayers p.value else {}

def getCurrentGamePoints (e : Engine) : Points := e.mCurrentPoints

/-- Counts a trick, or an auction, in which every seat has had its turn. -/
def isEndOfTrick (e : Engine) : Bool × Engine :=
  if e.mPosition ≥ e.mCtx.mNbPlayers then
    (true, { e with mPosition := 0, mTrickCounter := u8 (e.mTrickCounter + 1) })
  else (false, e)

def isLastTrick (e : Engine) : Bool := isDealFinished e.mTrickCounter e.mCtx.mNbPlayers

def gameSequence (e : Engine) : Engine :=
  let (endOfTrick, e) := e.isEndOfTrick
  if endOfTrick then
    let (winner, ctx) := e.mCtx.setTrick e.currentTrick e.mTrickCounter
    { e with
      mCurrentPlayer := winner
      mCtx := ctx
      currentTrick := e.currentTrick.clear
      mSequence := .waitForEndOfTrick }
  else if e.mTrickCounter = 0 ∧ !e.mHandleAsked e.mCurrentPlayer.value then
    { e with
      mHandleAsked := Function.update e.mHandleAsked e.mCurrentPlayer.value true
      mSequence := .waitForHandle }
  else { e with mSequence := .waitForPlayedCard }

/-- Scores the deal; also returns the object that describes it. -/
def endOfDeal (e : Engine) : JsonObject × Engine :=
  let (points, ctx) := e.mCtx.analyzeGame e.mCurrentPoints.clear
  (ctx.saveToJson,
    { e with mCurrentPoints := points, mCtx := ctx, mSequence := .waitForEndOfDeal })

def manageAfterBidSequence (e : Engine) : Engine :=
  let (showDog, ctx) := e.mCtx.manageDogAfterBid
  { e with
    mCtx := ctx
    mSequence := if showDog then .waitForShowDog else .waitForStartDeal }

def bidSequence (e : Engine) : Engine :=
  let (endOfTrick, e) := e.isEndOfTrick
  if endOfTrick || e.mCtx.mBid.slam then
    if e.mCtx.mBid.contract = .pass then { e with mSequence := .waitForAllPassed }
    else if e.mCtx.mNbPlayers = 5 ∧ e.mSequence = .waitForShowBid then
      { e with
        mCtx := { e.mCtx with mBid := { e.mCtx.mBid with partner := e.mCtx.mBid.taker } }
        mSequence := .waitForKingCall }
    else e.manageAfterBidSequence
  else { e with mSequence := .waitForBid }

def discardSequence (e : Engine) : Engine := { e with mSequence := .waitForDiscard }

end Engine

end TarotClub
