import TarotClub.Network

namespace TarotClub

/-- Who sits on a seat, and whether the awaited acknowledgement has come. -/
structure Challenger where
  uuid : ℕ := invalidUid
  ack : Bool := false
  deriving DecidableEq

def Challenger.isFree (c : Challenger) : Bool := c.uuid = invalidUid

structure PlayingTable where
  mEngine : Engine := {}
  mPlayers : ℕ → Challenger := fun _ => {}
  mAdmin : ℕ := invalidUid
  mName : Str := str "Default"
  mId : ℕ := 1
  mScore : Score := {}
  mGame : Game := {}
  mAdminMode : Bool := false

/-- What the execution of a request gives back. -/
structure Response where
  table : PlayingTable
  out : List Reply := []
  isEndOfDeal : Bool := false

namespace PlayingTable

/-- The number of seats in use. -/
def nbPlayers (t : PlayingTable) : ℕ := t.mEngine.mCtx.mNbPlayers

def resetAck (t : PlayingTable) : PlayingTable :=
  { t with
    mPlayers := fun i =>
      if i < t.nbPlayers then { t.mPlayers i with ack := false } else t.mPlayers i }

def ackFromAllPlayers (t : PlayingTable) : Bool × PlayingTable :=
  if (List.range t.nbPlayers).countP (fun i => (t.mPlayers i).ack) = t.nbPlayers then
    (true, t.resetAck)
  else (false, t)

/-- The last seat held by this player. -/
def getPlayerPlace (t : PlayingTable) (uuid : ℕ) : Place :=
  (List.range t.nbPlayers).foldl
    (fun p i => if (t.mPlayers i).uuid = uuid then Place.assign i else p) .nowhere

def getPlayerUuid (t : PlayingTable) (p : Place) : ℕ := (t.mPlayers p.value).uuid

def sendToAllPlayers (t : PlayingTable) (obj : JsonObject) : List Reply :=
  [⟨((List.range t.nbPlayers).filter fun i => !(t.mPlayers i).isFree).map
    fun i => (t.mPlayers i).uuid, obj⟩]

/-- The loop of `Sync`: the flag of this player goes up when the step is the current one. -/
def noteAck (t : PlayingTable) (sequence : Sequence) (uuid : ℕ) : PlayingTable :=
  { t with
    mPlayers := fun i =>
      if i < t.nbPlayers ∧ (t.mPlayers i).uuid = uuid ∧ t.mEngine.mSequence = sequence then
        { t.mPlayers i with ack := true }
      else t.mPlayers i }

/-- Notes an acknowledgement and reports whether it was the last one missing. -/
def sync (t : PlayingTable) (sequence : Sequence) (uuid : ℕ) : Bool × PlayingTable :=
  ackFromAllPlayers (t.noteAck sequence uuid)

def setupGame (t : PlayingTable) (game : Game) : PlayingTable := { t with mGame := game }

def setAdminMode (t : PlayingTable) (enable : Bool) : PlayingTable :=
  { t with mAdminMode := enable }

/-- The dealer's seat is drawn by lot. -/
def createTable (t : PlayingTable) (nbPlayers : ℕ) (randomPlace : Place) : PlayingTable :=
  { t with
    mEngine := t.mEngine.createTable nbPlayers randomPlace
    mPlayers := fun i => if i < 5 then {} else t.mPlayers i
    mAdmin := invalidUid }

/-- The first free seat. -/
def freePlace (t : PlayingTable) : Place :=
  match (List.range t.nbPlayers).find? fun i => (t.mPlayers i).isFree with
  | some i => .assign i
  | none => .nowhere

/-- Seats the player on the first free seat; the place tells where. -/
def addPlayer (t : PlayingTable) (uuid : ℕ) : Place × PlayingTable :=
  if t.getPlayerPlace uuid = .nowhere then
    let assigned := t.freePlace
    if assigned.value < Place.nowhere.value then
      (assigned,
        { t with
          mPlayers := Function.update t.mPlayers assigned.value
            { t.mPlayers assigned.value with uuid := uuid }
          mAdmin := if t.mAdmin = invalidUid then uuid else t.mAdmin })
    else (assigned, t)
  else (.nowhere, t)

def removePlayer (t : PlayingTable) (kickedPlayer : ℕ) : PlayingTable :=
  if t.getPlayerPlace kickedPlayer ≠ .nowhere then
    let newAdmin := match (List.range t.nbPlayers).find? fun i =>
        (t.mPlayers i).uuid ≠ kickedPlayer with
      | some i => (t.mPlayers i).uuid
      | none => invalidUid
    { t with
      mAdmin := if kickedPlayer = t.mAdmin then newAdmin else t.mAdmin
      mPlayers := fun i =>
        if i < t.nbPlayers ∧ (t.mPlayers i).uuid = kickedPlayer then {} else t.mPlayers i }
  else t

def newGame (t : PlayingTable) : Response :=
  let t := { t with
    mScore := Score.newGame t.mGame.deals.length
    mEngine := t.mEngine.newGame }.resetAck
  { table := t
    out := t.sendToAllPlayers (JsonObject.ofList
      [(str "cmd", .string (str "NewGame")), (str "mode", .string t.mGame.mode.toString)]) }

/-- The distribution of the current deal; the source reads the vector unchecked. -/
def currentDeal (t : PlayingTable) : Distribution :=
  t.mGame.deals.getD t.mScore.getCurrentCounter {}

/-- Consider a rollover, start a new game. -/
def rollover (t : PlayingTable) : PlayingTable :=
  if t.mScore.getCurrentCounter ≥ t.mGame.deals.length then
    { t with mScore := Score.newGame t.mGame.deals.length }
  else t

/-- The deal that comes next. -/
def nextDeal (dealer : Dealer) (t : PlayingTable) : Deal :=
  dealer t.nbPlayers t.rollover.currentDeal

def newDeal (dealer : Dealer) (t : PlayingTable) : Response :=
  let t := { t.rollover with mEngine := t.mEngine.newDeal (t.nextDeal dealer) }
  { table := t
    out := (List.range t.nbPlayers).map fun i =>
      ⟨[t.getPlayerUuid (.assign i)], JsonObject.ofList
        [(str "cmd", .string (str "NewDeal")),
         (str "cards", .string (t.mEngine.getDeck (.assign i)).toString)]⟩ }

def startDeal (t : PlayingTable) : Response :=
  let (first, engine) := t.mEngine.startDeal
  let bid := engine.mCtx.mBid
  let t := { t with mEngine := engine }
  { table := t
    out := t.sendToAllPlayers (t.currentDeal.toJson (JsonObject.ofList
      [(str "cmd", .string (str "StartDeal")),
       (str "first_player", .string first.toString),
       (str "taker", .string bid.taker.toString),
       (str "contract", .string bid.contract.toString),
       (str "slam", .boolean bid.slam)])) }

def sendNextBidSequence (t : PlayingTable) : Response :=
  match t.mEngine.mSequence with
  | .waitForBid =>
    { table := t
      out := t.sendToAllPlayers (JsonObject.ofList
        [(str "cmd", .string (str "RequestBid")),
         (str "place", .string t.mEngine.mCurrentPlayer.toString),
         (str "contract", .string t.mEngine.mCtx.mBid.contract.toString)]) }
  | .waitForKingCall =>
    { table := t
      out := t.sendToAllPlayers (JsonObject.ofList
        [(str "cmd", .string (str "RequestKingCall"))]) }
  | .waitForAllPassed =>
    { table := t
      out := t.sendToAllPlayers (JsonObject.ofList [(str "cmd", .string (str "AllPassed"))]) }
  | .waitForStartDeal => t.startDeal
  | .waitForShowDog =>
    { table := t
      out := t.sendToAllPlayers (JsonObject.ofList
        [(str "cmd", .string (str "ShowDog")),
         (str "dog", .string t.mEngine.mCtx.mDog.toString)]) }
  | _ => { table := t }

/-- The message that ends a deal. -/
def endOfDealMessage (points : Points) (deal : JsonObject) : JsonObject :=
  JsonObject.ofList
    [(str "cmd", .string (str "EndOfDeal")),
     (str "deal", .object deal),
     (str "points", .integer points.pointsAttack),
     (str "oudlers", .integer points.oudlers),
     (str "little_bonus", .integer points.littleEndianOwner.value),
     (str "handle_bonus", .integer points.handlePoints),
     (str "slam_bonus", .boolean points.slamDone)]

def gameSequence (t : PlayingTable) : Response :=
  let t := { t with mEngine := t.mEngine.gameSequence }
  if t.mEngine.isLastTrick then
    -- the points are read before the engine scores the deal
    let points := t.mEngine.getCurrentGamePoints
    let (deal, engine) := t.mEngine.endOfDeal
    let t := { t with mEngine := engine }
    { table := t, out := t.sendToAllPlayers (endOfDealMessage points deal) }
  else
    let p := t.mEngine.mCurrentPlayer
    match t.mEngine.mSequence with
    | .waitForEndOfTrick =>
      { table := t
        out := t.sendToAllPlayers (JsonObject.ofList
          [(str "cmd", .string (str "EndOfTrick")), (str "place", .string p.toString)]) }
    | .waitForPlayedCard =>
      { table := t
        out := t.sendToAllPlayers (JsonObject.ofList
          [(str "cmd", .string (str "PlayCard")), (str "place", .string p.toString)]) }
    | .waitForHandle =>
      { table := t
        out := [⟨[t.getPlayerUuid p],
          JsonObject.ofList [(str "cmd", .string (str "AskForHandle"))]⟩] }
    | _ => { table := t }

def endOfDeal (dealer : Dealer) (t : PlayingTable) : Response :=
  let (continueGame, score) :=
    t.mScore.addPoints t.mEngine.getCurrentGamePoints t.mEngine.mCtx.mBid t.nbPlayers
  let t := { t with mScore := score }
  if continueGame then t.newDeal dealer
  else
    let t := { t with mEngine := t.mEngine.newGame }
    { table := t
      out := t.sendToAllPlayers (JsonObject.ofList
        [(str "cmd", .string (str "EndOfGame")),
         (str "winner", .string t.mScore.getWinner.toString)]) }

def showKingCall (t : PlayingTable) (c : Card) : Response :=
  let t := t.resetAck
  { table := t
    out := t.sendToAllPlayers (JsonObject.ofList
      [(str "cmd", .string (str "ShowKingCall")), (str "card", .string c.toString)]) }

/-- What follows when every player has acknowledged the step. -/
def allSynced (dealer : Dealer) (t : PlayingTable) (seq : Sequence) : Response :=
  match seq with
  | .waitForPlayers => if t.mAdminMode then { table := t } else t.newGame
  | .waitForReady | .waitForAllPassed => t.newDeal dealer
  | .waitForCards | .waitForShowBid =>
    { t with mEngine := t.mEngine.bidSequence }.sendNextBidSequence
  | .waitForShowKingCall =>
    { t with mEngine := t.mEngine.manageAfterBidSequence }.sendNextBidSequence
  | .waitForShowDog =>
    let t := { t with mEngine := t.mEngine.discardSequence }
    { table := t
      out := [⟨[t.getPlayerUuid t.mEngine.mCtx.mBid.taker],
        JsonObject.ofList [(str "cmd", .string (str "BuildDiscard"))]⟩] }
  | .waitForStartDeal | .waitForShowHandle | .waitForShowCard | .waitForEndOfTrick =>
    t.gameSequence
  | .waitForEndOfDeal => { t.endOfDeal dealer with isEndOfDeal := true }
  | _ => { table := t }

def executeAck (dealer : Dealer) (t : PlayingTable) (srcUuid : ℕ) (json : JsonValue) :
    Response :=
  if t.getPlayerPlace srcUuid ≠ .nowhere then
    let seq := ackFromString (json.findValue (str "step")).getString
    if seq = .badStep then { table := t }
    else
      let (synced, t) := t.sync seq srcUuid
      if synced then t.allSynced dealer seq else { table := t }
  else { table := t }

def executeNewGame (t : PlayingTable) (srcUuid : ℕ) (json : JsonValue) : Response :=
  if srcUuid = t.mAdmin then
    { t with
      mGame :=
        { mode := GameMode.ofString (json.findValue (str "mode")).getString
          deals := (json.findValue (str "deals")).getArray.map fun v : JsonValue =>
            Distribution.fromJson v.getObj } }.newGame
  else { table := t }

def executeReplyBid (t : PlayingTable) (srcUuid : ℕ) (json : JsonValue) : Response :=
  let c := Contract.ofString (json.findValue (str "contract")).getString
  let slam := (json.findValue (str "slam")).getBool
  let p := t.getPlayerPlace srcUuid
  if p ≠ .nowhere ∧ p = t.mEngine.mCurrentPlayer ∧ t.mEngine.mSequence = .waitForBid then
    let (cont, engine) := t.mEngine.setBid c slam p
    let takerBid := engine.mCtx.mBid
    let t := { t with mEngine := engine }
    { table := t
      out := t.sendToAllPlayers (JsonObject.ofList
        [(str "cmd", .string (str "ShowBid")),
         (str "place", .string p.toString),
         (str "contract", .string cont.toString),
         (str "slam", .boolean slam),
         (str "taker_place", .string takerBid.taker.toString),
         (str "taker_contract", .string takerBid.contract.toString),
         (str "taker_slam", .boolean takerBid.slam)]) }
  else { table := t }

def executeDiscard (t : PlayingTable) (srcUuid : ℕ) (json : JsonValue) : Response :=
  let discard := Deck.ofString (json.findValue (str "discard")).getString
  if t.mEngine.mSequence = .waitForDiscard ∧
      t.mEngine.mCtx.mBid.taker = t.getPlayerPlace srcUuid then
    let (valid, engine) := t.mEngine.setDiscard discard
    let t := { t with mEngine := engine }
    if valid then t.startDeal else { table := t }
  else { table := t }

def executeReplyKingCall (t : PlayingTable) (srcUuid : ℕ) (json : JsonValue) : Response :=
  let c := Card.ofString (json.findValue (str "card")).getString
  if t.mEngine.mSequence = .waitForKingCall ∧
      t.mEngine.mCtx.mBid.taker = t.getPlayerPlace srcUuid then
    let (success, engine) := t.mEngine.setKingCalled c
    let t := { t with mEngine := engine }
    if success then t.showKingCall c else { table := t }
  else { table := t }

def executeHandle (t : PlayingTable) (srcUuid : ℕ) (json : JsonValue) : Response :=
  let handle := Deck.ofString (json.findValue (str "handle")).getString
  let p := t.getPlayerPlace srcUuid
  if t.mEngine.mSequence = .waitForHandle ∧ t.mEngine.mCurrentPlayer = p then
    let (valid, engine) := t.mEngine.setHandle handle p
    let t := { t with mEngine := engine }
    if valid then
      { table := t
        out := t.sendToAllPlayers (JsonObject.ofList
          [(str "cmd", .string (str "ShowHandle")),
           (str "place", .string p.toString),
           (str "handle", .string handle.toString)]) }
    else t.gameSequence
  else { table := t }

def executeCard (t : PlayingTable) (srcUuid : ℕ) (json : JsonValue) : Response :=
  let c := Card.ofString (json.findValue (str "card")).getString
  let p := t.getPlayerPlace srcUuid
  if c.isValid ∧ t.mEngine.mSequence = .waitForPlayedCard ∧ t.mEngine.mCurrentPlayer = p then
    let (played, engine) := t.mEngine.setCard c p
    let t := { t with mEngine := engine }
    if played then
      { table := t
        out := t.sendToAllPlayers (JsonObject.ofList
          [(str "cmd", .string (str "ShowCard")),
           (str "place", .string p.toString),
           (str "card", .string c.toString)]) }
    else { table := t }
  else { table := t }

def executeRequest (dealer : Dealer) (t : PlayingTable) (srcUuid : ℕ) (json : JsonValue) :
    Response :=
  let cmd := (json.findValue (str "cmd")).getString
  if cmd = str "Error" then { table := t }
  else if cmd = str "Ack" then t.executeAck dealer srcUuid json
  else if cmd = str "RequestNewGame" then t.executeNewGame srcUuid json
  else if cmd = str "ReplyBid" then t.executeReplyBid srcUuid json
  else if cmd = str "Discard" then t.executeDiscard srcUuid json
  else if cmd = str "ReplyKingCall" then t.executeReplyKingCall srcUuid json
  else if cmd = str "Handle" then t.executeHandle srcUuid json
  else if cmd = str "Card" then t.executeCard srcUuid json
  else { table := t }

end PlayingTable

end TarotClub
