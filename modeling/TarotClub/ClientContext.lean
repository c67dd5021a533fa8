import TarotClub.LobbyRequests

namespace TarotClub

/-- What a seat has announced. -/
structure Sit where
  contract : Contract := .noAny
  slam : Bool := false
  deriving DecidableEq

inductive TableMode where
  | blocked
  | bid
  | play
  | waitTimerEndOfTrick
  | waitClickEndOfTrick
  | showResults
  deriving DecidableEq

structure Message where
  src : ℕ := invalidUid
  dst : ℕ := invalidUid
  msg : Str := []
  deriving DecidableEq

structure PlayerContext where
  mDealResult : JsonObject := []
  mGame : GameMode := .quickDeal
  mBid : Bid := {}
  mCurrentBid : Bid := {}
  mMyBid : Bid := {}
  mPoints : Points := {}
  mDog : Deck := {}
  mHandle : Deck := {}
  mDeck : Deck := {}
  mMyself : Player := {}
  mSits : ℕ → Sit := fun _ => {}
  identity : Identity := {}
  autoPlay : Bool := false
  mCurrentTrick : Deck := {}
  mCurrentPlayer : Place := .nowhere
  mFirstPlayer : Place := .nowhere
  mGameState : TarotContext := {}
  mMode : TableMode := .blocked
  mTables : ℕ → Option Str := fun _ => none
  mMessages : List Message := []
  mUsers : Users := []

/-- Assignment of a byte; a client gets none but these three. -/
def Team.ofValue : ℕ → Team
  | 0 => attack
  | 1 => defense
  | _ => noTeam

/-- `IsConnected`: the identifiers of users begin at 10. -/
def Player.isConnected (p : Player) : Bool := p.uuid ≥ 10

def Users.updateLocation (users : Users) (uuid tableId : ℕ) (p : Place) : Users :=
  users.update uuid (Entry.moveTo tableId p)

/-- A reply on its way to the host: one request for each destination. -/
def Reply.requests (reply : Reply) (srcUuid : ℕ) : List Request :=
  reply.dest.map fun destUuid =>
    { srcUuid := srcUuid, destUuid := destUuid, arg := (JsonValue.object reply.data).toString (-1) }

namespace PlayerContext

/-- What is sent to the table goes to the one that the client is at. -/
def replyToTable (ctx : PlayerContext) (json : JsonValue) : Reply :=
  ⟨[ctx.mMyself.tableId], json.getObj⟩

/-- `BuildQuitTable`, destination included. -/
def replyQuitTable (ctx : PlayerContext) (tableId : ℕ) : Reply :=
  ⟨[ctx.mMyself.tableId], buildQuitTable tableId⟩

/-- `BuildJoinTable`, destination included. -/
def replyJoinTable (tableId : ℕ) : Reply := ⟨[lobbyUid], buildJoinTable tableId⟩

def replyLogin (ctx : PlayerContext) : Reply := ⟨[lobbyUid], buildReplyLogin ctx.identity⟩

/-- `CalculateBid`: the strength of the hand. -/
def calculateBid (ctx : PlayerContext) : Contract :=
  let s := ctx.mDeck.analyzeSuits (ctx.mDeck.analyzeTrumps {})
  let little :=
    if s.littleTrump then
      if s.trumps = 5 then 5 else if s.trumps = 6 ∨ s.trumps = 7 then 7
      else if s.trumps > 7 then 8 else 0
    else 0
  let total := (if s.bigTrump then 9 else 0) + (if s.fool then 7 else 0) + little +
    s.trumps * 2 + s.majorTrumps * 2 + s.kings * 6 + s.queens * 3 + s.knights * 2 + s.jacks +
    s.weddings + s.longSuits * 5 + s.cuts * 5 + s.singletons * 3 + s.sequences * 4
  if total ≤ 35 then .pass
  else if total ≤ 50 then .take
  else if total ≤ 65 then .guard
  else if total ≤ 75 then .guardWithout
  else .guardAgainst

def isValid (ctx : PlayerContext) (c : Card) : Bool := ctx.mDeck.canPlayCard c ctx.mCurrentTrick

/-- The first card of the hand that may be played. -/
def chooseRandomCard (ctx : PlayerContext) : Card := (ctx.mDeck.mDeck.find? ctx.isValid).getD {}

def isMyTurn (ctx : PlayerContext) : Bool := ctx.mCurrentPlayer = ctx.mMyself.place

def testDiscard (ctx : PlayerContext) (discard : Deck) : Bool :=
  ctx.mDeck.testDiscard discard ctx.mDog ctx.mGameState.mNbPlayers

/-- The loop of `Deck::AutoDiscard`, which ends when there are enough cards. -/
def gatherDiscard (enough : ℕ) : Deck → List Card → Deck
  | discard, [] => discard
  | discard, c :: cards =>
    if c.mSuit ≠ Card.trumps ∧ c.mValue ≠ 14 then
      let discard := discard.appendCard c
      if discard.size = enough then discard else gatherDiscard enough discard cards
    else gatherDiscard enough discard cards

/-- The dog is added to the hand before the discard is taken out of it. -/
def autoDiscard (ctx : PlayerContext) : Deck × PlayerContext :=
  let hand := ctx.mDeck.append ctx.mDog
  let discard := gatherDiscard (numberOfDogCards ctx.mGameState.mNbPlayers) {} hand.mDeck
  (discard, { ctx with mDeck := (hand.removeDuplicates discard).2 })

/-! The decoders. -/

def userFromJson (player : JsonObject) : Entry where
  player :=
    { uuid := (player.getKey (str "uuid")).getUInt32
      tableId := (player.getKey (str "table")).getUInt32
      place := Place.ofString (player.getKey (str "place")).getString }
  identity := Identity.fromJson player

def decodeRequestLogin (ctx : PlayerContext) (json : JsonValue) : PlayerContext :=
  { ctx with mMyself := { ctx.mMyself with uuid := (json.findValue (str "uuid")).getUInt32 } }

def decodeAccessGranted (ctx : PlayerContext) (json : JsonValue) : PlayerContext :=
  { ctx with
    mTables := (json.findValue (str "tables")).getArray.foldl
      (fun tables v => Function.update tables (v.getObj.getKey (str "uuid")).getUInt32
        (some (v.getObj.getKey (str "name")).getString)) fun _ => none
    mUsers := (json.findValue (str "players")).getArray.foldl
      (fun users v => (users.addEntry (userFromJson v.getObj)).2) [] }

def decodeChatMessage (ctx : PlayerContext) (json : JsonValue) : PlayerContext :=
  { ctx with
    mMessages := ctx.mMessages ++
      [{ src := (json.findValue (str "source")).getUInt32
         dst := (json.findValue (str "target")).getUInt32
         msg := (json.findValue (str "message")).getString }] }

/-- One kind of event is looked at. -/
def decodeLobbyEvent (ctx : PlayerContext) (json : JsonValue) : PlayerContext :=
  let member := userFromJson (json.findValue (str "player")).getObj
  if (json.findValue (str "type")).getString = str "JoinTable" then
    { ctx with
      mUsers := ctx.mUsers.updateLocation member.player.uuid member.player.tableId
        member.player.place }
  else ctx

/-- What is loaded from the context of the table leaves the number of players alone. -/
def decodeReplyJoinTable (ctx : PlayerContext) (json : JsonValue) : PlayerContext :=
  { ctx with
    mMyself := { ctx.mMyself with
      place := Place.ofString (json.findValue (str "place")).getString
      tableId := (json.findValue (str "table_id")).getUInt32 }
    mDeck := (ctx.mDeck.setCards (json.findValue (str "deck")).getString).2
    mGameState :=
      (ctx.mGameState.loadFromJson (.object (json.findValue (str "context")).getObj)).2 }

def decodeNewGame (ctx : PlayerContext) (json : JsonValue) : PlayerContext :=
  { ctx with mGame := GameMode.ofString (json.findValue (str "mode")).getString }

/-- The client's own bid begins anew, and the bid of the table is kept. -/
def decodeNewDeal (ctx : PlayerContext) (json : JsonValue) : PlayerContext :=
  { ctx with
    mDeck := (ctx.mDeck.setCards (json.findValue (str "cards")).getString).2
    mMode := .bid
    mMyBid := {} }

def decodeRequestBid (ctx : PlayerContext) (json : JsonValue) : PlayerContext :=
  { ctx with
    mCurrentPlayer := Place.ofString (json.findValue (str "place")).getString
    mCurrentBid := { ctx.mCurrentBid with
      contract := Contract.ofString (json.findValue (str "contract")).getString } }

def decodeShowBid (ctx : PlayerContext) (json : JsonValue) : PlayerContext :=
  { ctx with
    mSits := Function.update ctx.mSits
      (Place.ofString (json.findValue (str "place")).getString).value
      { contract := Contract.ofString (json.findValue (str "contract")).getString
        slam := (json.findValue (str "slam")).getBool }
    mBid := { ctx.mBid with
      taker := Place.ofString (json.findValue (str "taker_place")).getString
      contract := Contract.ofString (json.findValue (str "taker_contract")).getString
      slam := (json.findValue (str "taker_slam")).getBool } }

def decodeShowDog (ctx : PlayerContext) (json : JsonValue) : PlayerContext :=
  { ctx with mDog := (ctx.mDog.setCards (json.findValue (str "dog")).getString).2 }

def decodeStartDeal (ctx : PlayerContext) (json : JsonValue) : PlayerContext :=
  { ctx with
    mBid := { ctx.mBid with
      taker := Place.ofString (json.findValue (str "taker")).getString
      contract := Contract.ofString (json.findValue (str "contract")).getString
      slam := (json.findValue (str "slam")).getBool }
    mMode := .play
    mCurrentTrick := ctx.mCurrentTrick.clear }

def decodeShowHandle (ctx : PlayerContext) (json : JsonValue) : PlayerContext :=
  let place := Place.ofString (json.findValue (str "place")).getString
  { ctx with
    mHandle := ((ctx.mHandle.setCards (json.findValue (str "handle")).getString).2).setOwner
      (if place = ctx.mBid.taker then .attack else .defense) }

def decodeShowCard (ctx : PlayerContext) (json : JsonValue) : PlayerContext :=
  { ctx with
    mCurrentPlayer := Place.ofString (json.findValue (str "place")).getString
    mCurrentTrick := ctx.mCurrentTrick.appendCard
      (Card.ofString (json.findValue (str "card")).getString) }

def decodePlayCard (ctx : PlayerContext) (json : JsonValue) : PlayerContext :=
  let ctx := { ctx with
    mCurrentPlayer := Place.ofString (json.findValue (str "place")).getString }
  if ctx.mCurrentTrick.size = 0 then
    { ctx with
      mMode := if ctx.autoPlay then .blocked else .play
      mFirstPlayer := ctx.mCurrentPlayer }
  else ctx

def decodeEndOfTrick (ctx : PlayerContext) (json : JsonValue) : PlayerContext :=
  { ctx with mCurrentPlayer := Place.ofString (json.findValue (str "place")).getString }

def decodeEndOfDeal (ctx : PlayerContext) (json : JsonValue) : PlayerContext :=
  { ctx with
    mPoints := { ctx.mPoints with
      pointsAttack := i32 (json.findValue (str "points")).getInteger
      oudlers := i32 (json.findValue (str "oudlers")).getInteger
      littleEndianOwner := Team.ofValue
        ((json.findValue (str "little_bonus")).getInteger % 256).toNat
      handlePoints := i32 (json.findValue (str "handle_bonus")).getInteger
      slamDone := (json.findValue (str "slam_bonus")).getBool }
    mDealResult := (json.findValue (str "deal")).getObj }

def decodeEndOfGame (ctx : PlayerContext) (json : JsonValue) : PlayerContext :=
  { ctx with
    mCurrentPlayer := Place.ofString (json.findValue (str "winner")).getString
    mMode := .showResults }

end PlayerContext

end TarotClub
