import Mathlib.Logic.Function.Basic
import TarotClub.Deck
import TarotClub.JsonValue
import TarotClub.Score

namespace TarotClub

structure TarotContext where
  mNbPlayers : ℕ := 4
  mBid : Bid := {}
  mDiscard : Deck := {}
  mDog : Deck := {}
  mAttackHandle : Deck := {}
  mDefenseHandle : Deck := {}
  mFirstPlayer : Place := .nowhere
  mTricks : ℕ → Deck := fun _ => {}
  mWinner : ℕ → Place := fun _ => .nowhere
  mTricksWon : ℤ := 0
  mStatsAttack : Statistics := {}
  mKingCalled : Card := {}

namespace TarotContext

def initializeContext (ctx : TarotContext) : TarotContext :=
  { ctx with
    mBid := {}
    mDiscard := ctx.mDiscard.clear
    mAttackHandle := ctx.mAttackHandle.clear
    mDefenseHandle := ctx.mDefenseHandle.clear
    mTricks := fun i => if i < 24 then (ctx.mTricks i).clear else ctx.mTricks i
    mTricksWon := 0
    mStatsAttack := {} }

def setHandle (ctx : TarotContext) (handle : Deck) (p : Place) : TarotContext :=
  if p = ctx.mBid.taker ∨ p = ctx.mBid.partner then { ctx with mAttackHandle := handle }
  else { ctx with mDefenseHandle := handle }

/-- The dog of a guard without or against is put aside unseen; otherwise it is to be
shown. -/
def manageDogAfterBid (ctx : TarotContext) : Bool × TarotContext :=
  if ctx.mBid.contract = .guardWithout then
    (false, { ctx with mDiscard := ctx.mDog.setOwner .attack })
  else if ctx.mBid.contract = .guardAgainst then
    (false, { ctx with mDiscard := ctx.mDog.setOwner .defense })
  else (true, ctx)

def setBid (ctx : TarotContext) (c : Contract) (slam : Bool) (p : Place) :
    Contract × TarotContext :=
  if c > ctx.mBid.contract then
    (c, { ctx with mBid := { ctx.mBid with contract := c, taker := p, slam := slam } })
  else (.pass, ctx)

/-- The taker may call a queue when it holds the four kings, and so on down to the
jacks. -/
def checkKingCall (c : Card) (stats : Statistics) : Bool :=
  if c.mValue = Card.king then true
  else if stats.kings ≠ 4 then false
  else if c.mValue = Card.queen then true
  else if stats.queens ≠ 4 then false
  else if c.mValue = Card.knight then true
  else if stats.knights ≠ 4 then false
  else if c.mValue = Card.jack then true
  else stats.jacks = 4

/-- The seat `index` turns after `firstPlayer`. -/
def seatAfter (firstPlayer : Place) (numberOfPlayers : ℕ) : ℕ → Place
  | 0 => firstPlayer
  | index + 1 => seatAfter (firstPlayer.next numberOfPlayers) numberOfPlayers index

/-- The loop of `GetOwner` over the cards of a trick. -/
def walkTo (card : Card) (numberOfPlayers : ℕ) : Place → List Card → Place
  | p, [] => p
  | p, c :: cards =>
    if card = c then p else walkTo card numberOfPlayers (p.next numberOfPlayers) cards

/-- Who played a card of a stored trick. -/
def getOwner (ctx : TarotContext) (firstPlayer : Place) (card : Card) (turn : ℕ) : Place :=
  walkTo card ((ctx.mTricks turn).size % 256) firstPlayer (ctx.mTricks turn).mDeck

/-- The winning card: the highest trump, else the highest card of the suit led. -/
def trickLeader (trick : Deck) : Card :=
  if trick.highestTrump.isValid then trick.highestTrump else trick.highestSuit

/-- The team of a seat as `SetTrick` decides it for the winner of a trick. -/
def winnerTeam (ctx : TarotContext) (winner : Place) : Team :=
  if winner = ctx.mBid.taker ∨ winner = ctx.mBid.partner then .attack else .defense

/-- The team of a seat as `SetTrick` decides it for the player of the Fool. -/
def foolTeam (ctx : TarotContext) (foolPlace : Place) : Team :=
  if foolPlace = ctx.mBid.taker then .attack else .defense

/-- Who wins a trick that holds the Fool, and whether points are exchanged for it. -/
def foolRule (ctx : TarotContext) (winner foolPlace : Place)
    (trickCounter numberOfPlayers : ℕ) : Place × Bool :=
  if isDealFinished trickCounter numberOfPlayers then
    if ctx.mTricksWon = numberOfCardsInHand numberOfPlayers - 1 ∧ foolPlace = ctx.mBid.taker then
      (ctx.mBid.taker, false)
    else (winner, ctx.winnerTeam winner = ctx.foolTeam foolPlace)
  else (winner, ctx.winnerTeam winner ≠ ctx.foolTeam foolPlace)

/-- The winner of the trick stored at `turn`, and whether points are exchanged for the
Fool. Without a leader the winner stays the default place. -/
def decideTrick (ctx : TarotContext) (firstPlayer : Place) (turn trickCounter : ℕ) :
    Place × Bool :=
  let trick := ctx.mTricks turn
  let cLeader := trickLeader trick
  if cLeader.isValid then
    let winner := ctx.getOwner firstPlayer cLeader turn
    if trick.hasFool then
      let cFool := trick.getCard (str "00-T")
      if cFool.isValid then
        foolRule ctx winner (ctx.getOwner firstPlayer cFool turn) trickCounter (trick.size % 256)
      else (winner, false)
    else (winner, false)
  else (.nowhere, false)

/-- Gives the trick at `turn` to its winner. -/
def creditTrick (ctx : TarotContext) (turn : ℕ) (winner : Place) (foolSwap : Bool) :
    TarotContext :=
  if winner = ctx.mBid.taker ∨ winner = ctx.mBid.partner then
    let stats := (ctx.mTricks turn).analyzeTrumps ctx.mStatsAttack
    { ctx with
      mTricks := Function.update ctx.mTricks turn ((ctx.mTricks turn).setOwner .attack)
      mTricksWon := ctx.mTricksWon + 1
      mStatsAttack :=
        if foolSwap then
          { stats with points := stats.points - 8, oudlers := u8 (stats.oudlers + 255) }
        else stats
      mWinner := Function.update ctx.mWinner turn winner }
  else
    let stats := ctx.mStatsAttack
    { ctx with
      mTricks := Function.update ctx.mTricks turn ((ctx.mTricks turn).setOwner .defense)
      mStatsAttack :=
        if foolSwap then
          { stats with points := stats.points + 8, oudlers := u8 (stats.oudlers + 1) }
        else stats
      mWinner := Function.update ctx.mWinner turn winner }

/-- Who leads the trick of this index. -/
def leadOf (ctx : TarotContext) (turn : ℕ) : Place :=
  if turn = 0 then ctx.mFirstPlayer else ctx.mWinner (turn - 1)

/-- Stores a trick and returns its winner; `trickCounter` begins at 1. -/
def setTrick (ctx : TarotContext) (trick : Deck) (trickCounter : ℕ) : Place × TarotContext :=
  let turn := u8 (trickCounter + 255)
  let firstPlayer := ctx.leadOf turn
  if turn < 24 then
    let ctx := { ctx with mTricks := Function.update ctx.mTricks turn trick }
    let (winner, foolSwap) := ctx.decideTrick firstPlayer turn trickCounter
    (winner, ctx.creditTrick turn winner foolSwap)
  else (.nowhere, ctx)

/-- Whether half points are odd. -/
def hasDecimal (halfPoints : ℤ) : Bool := halfPoints % 2 ≠ 0

/-- At three or five players the half point goes to the winner. -/
def adjustHalfPoint (halfPoints : ℤ) (oudlers : ℕ) : ℤ :=
  if hasDecimal halfPoints then
    if halfPoints ≥ 2 * pointsToDo oudlers then halfPoints + 1 else halfPoints - 1
  else halfPoints

/-- Scores the deal. -/
def analyzeGame (ctx : TarotContext) (points : Points) : Points × TarotContext :=
  let numberOfTricks := numberOfCardsInHand ctx.mNbPlayers
  let slamDone : Bool := ctx.mTricksWon = numberOfTricks ∨ ctx.mTricksWon = 0
  let stats :=
    if ctx.mDiscard.mOwner = .attack then ctx.mDiscard.analyzeTrumps ctx.mStatsAttack
    else ctx.mStatsAttack
  let lastTrick :=
    if slamDone && (ctx.mTricks (numberOfTricks - 1)).hasFool then numberOfTricks - 2
    else numberOfTricks - 1
  let adjusted := adjustHalfPoint stats.points stats.oudlers
  ({ slamDone := slamDone
     littleEndianOwner :=
       if (ctx.mTricks lastTrick).hasOneOfTrump then (ctx.mTricks lastTrick).mOwner else .noTeam
     oudlers := stats.oudlers
     cardsPointsAttack := stats.points
     pointsAttack := adjusted.tdiv 2
     handlePoints := points.handlePoints +
       getHandlePoints ctx.mNbPlayers (getHandleType ctx.mAttackHandle.size) +
       getHandlePoints ctx.mNbPlayers (getHandleType ctx.mDefenseHandle.size) },
    { ctx with mStatsAttack := { stats with points := adjusted } })

/-- The object written for a played deal. -/
def saveToJson (ctx : TarotContext) : JsonObject :=
  JsonObject.ofList
    [(str "version", .string (str "3")),
     (str "deal_info", .object (JsonObject.ofList
       [(str "number_of_players", .integer ctx.mNbPlayers),
        (str "taker", .string ctx.mBid.taker.toString),
        (str "contract", .string ctx.mBid.contract.toString),
        (str "slam", .boolean ctx.mBid.slam),
        (str "first_trick_lead", .string ctx.mFirstPlayer.toString),
        (str "dog", .string ctx.mDog.toString),
        (str "attack_handle", .string ctx.mAttackHandle.toString),
        (str "defense_handle", .string ctx.mDefenseHandle.toString)])),
     (str "tricks", .array ((List.range (numberOfCardsInHand ctx.mNbPlayers)).map
       fun i => .string (ctx.mTricks i).toString))]

/-- One entry of the list of tricks of a file: the result so far, the trick counter and the
context. -/
def loadTrick (numberOfPlayers : ℕ) (acc : Bool × ℕ × TarotContext) (text : Str) :
    Bool × ℕ × TarotContext :=
  let (ret, trickCounter, ctx) := acc
  let trick := Deck.ofString text
  if trick.size > 0 then
    let ctx := (ctx.setTrick trick trickCounter).2
    let (removed, discard) := ctx.mDiscard.removeDuplicates trick
    (ret && removed = numberOfPlayers, u8 (trickCounter + 1), { ctx with mDiscard := discard })
  else acc

/-- The tricks of a file replayed on a context that holds the bid and the lead; what they
leave of the 78 cards is the discard. -/
def loadTricks (ctx : TarotContext) (numberOfPlayers : ℕ) (tricks : List Str) :
    Bool × TarotContext :=
  if tricks.length = numberOfCardsInHand numberOfPlayers then
    let start := { ctx with mDiscard := ctx.mDiscard.createTarotDeck }
    let (ret, _, ctx) := tricks.foldl (loadTrick numberOfPlayers) (true, 1, start)
    if ctx.mDiscard.size = numberOfDogCards numberOfPlayers then
      let owner := if ctx.mBid.contract = .guardAgainst then Team.defense else Team.attack
      (ret, { ctx with mDiscard := ctx.mDiscard.setOwner owner })
    else (false, ctx)
  else (false, ctx)

/-- Loads a deal; the number of players is read into a local variable. -/
def loadFromJson (ctx : TarotContext) (json : JsonValue) : Bool × TarotContext :=
  let ctx := ctx.initializeContext
  let numberOfPlayers := ((json.findValue (str "deal_info:number_of_players")).getInteger %
    2 ^ 32).toNat
  if numberOfPlayers = 3 ∨ numberOfPlayers = 4 ∨ numberOfPlayers = 5 then
    let taker := json.getStringValue (str "deal_info:taker")
    let contract := json.getStringValue (str "deal_info:contract")
    let slam := json.getBoolValue (str "deal_info:slam")
    let dog := json.getStringValue (str "deal_info:dog")
    let attackHandle := json.getStringValue (str "deal_info:attack_handle")
    let defenseHandle := json.getStringValue (str "deal_info:defense_handle")
    let lead := json.getStringValue (str "deal_info:first_trick_lead")
    let setCards (d : Deck) (s : Option Str) : Deck := (s.map fun s => (d.setCards s).2).getD d
    let ctx := { ctx with
      mDog := setCards ctx.mDog dog
      mAttackHandle := setCards ctx.mAttackHandle attackHandle
      mDefenseHandle := setCards ctx.mDefenseHandle defenseHandle }
    match taker, contract, slam, dog, attackHandle, defenseHandle, lead with
    | some taker, some contract, some slam, some _, some _, some _, some lead =>
      let ctx := { ctx with
        mFirstPlayer := Place.ofString lead
        mBid := { taker := Place.ofString taker, contract := Contract.ofString contract, slam } }
      ctx.loadTricks numberOfPlayers
        ((json.findValue (str "tricks")).getArray.map JsonValue.getString)
    | _, _, _, _, _, _, _ => (false, ctx)
  else (false, ctx)

end TarotContext

end TarotClub
