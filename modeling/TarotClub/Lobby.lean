import TarotClub.JsonReader
import TarotClub.PlayingTable
import TarotClub.Users

namespace TarotClub

structure Request where
  srcUuid : ℕ := invalidUid
  destUuid : ℕ := invalidUid
  arg : Str
  deriving DecidableEq

/-- What a client must know to be let in. -/
structure Security where
  webId : Str := []
  gek : Str := []
  passPhrase : Str := []
  deriving DecidableEq

/-- A peer is a number that stands for its session. -/
structure Lobby where
  mTables : List PlayingTable := []
  mTableIds : UniqueId := .create 1000 (1000 + 50)
  mUserIds : UniqueId := .create 10 200
  mUsers : Users := []
  mAdminMode : Bool := false
  mEvCounter : ℕ := 0
  mPeers : List (ℕ × ℕ) := []
  mAllowedClients : Str → Option Security := fun _ => none

/-- What the delivery of a request gives back. -/
structure Delivered where
  lobby : Lobby
  ret : Bool := true
  out : List Reply := []

/-- An integer of a request, read as `std::uint32_t`. -/
def JsonValue.getUInt32 (json : JsonValue) : ℕ := (json.getInteger % 2 ^ 32).toNat

namespace Lobby

def cErrorFull : ℕ := 0
def cErrorNickNameUsed : ℕ := 1
def cErrorTableIdUnknown : ℕ := 2

def errors : List Str :=
  [str "Table is full", str "Nickname already used", str "Unknown table ID"]

/-- `Error`: nothing is sent for an unknown code. -/
def error (code destUuid : ℕ) : List Reply :=
  match errors[code]? with
  | some reason => [⟨[destUuid], JsonObject.ofList
      [(str "cmd", .string (str "Error")), (str "code", .integer code),
       (str "reason", .string reason)]⟩]
  | none => []

/-- `mPeers[uuid] = peer`. -/
def insertPeer (uuid peer : ℕ) : List (ℕ × ℕ) → List (ℕ × ℕ)
  | [] => [(uuid, peer)]
  | (k, p) :: peers =>
    if uuid = k then (uuid, peer) :: peers
    else if uuid < k then (uuid, peer) :: (k, p) :: peers
    else (k, p) :: insertPeer uuid peer peers

/-- The peer that `mPeers` has under an identifier. -/
def getPeer (l : Lobby) (uuid : ℕ) : Option ℕ := (l.mPeers.find? fun p => p.1 = uuid).map (·.2)

/-- The texts that `Send` hands to the peers, in order. -/
def send (l : Lobby) (out : List Reply) : List (ℕ × Str) :=
  out.flatMap fun reply =>
    let data := (JsonValue.object reply.data).toString (-1)
    reply.dest.flatMap fun uuid =>
      match l.mPeers.find? fun p => p.1 = uuid with
      | some p => [(p.2, data)]
      | none => if uuid = lobbyUid then l.mPeers.map fun p => (p.2, data) else []

def playerStatus (l : Lobby) (uuid : ℕ) : JsonObject :=
  match l.mUsers.getEntry uuid with
  | some entry => entry.identity.toJson (JsonObject.ofList
      [(str "uuid", .integer uuid), (str "table", .integer entry.player.tableId),
       (str "place", .string entry.player.place.toString)])
  | none => []

def sendPlayerEvent (l : Lobby) (uuid : ℕ) (event : Str) : Lobby × List Reply :=
  match l.mUsers.getEntry uuid with
  | some _ =>
    let l := { l with mEvCounter := (l.mEvCounter + 1) % 2 ^ 32 }
    (l, [⟨l.mUsers.getAll, JsonObject.ofList
      [(str "cmd", .string (str "LobbyEvent")), (str "type", .string event),
       (str "counter", .integer l.mEvCounter), (str "player", .object (l.playerStatus uuid))]⟩])
  | none => (l, [])

/-- Every table with this identifier is changed. -/
def updateTables (id : ℕ) (change : PlayingTable → PlayingTable) (tables : List PlayingTable) :
    List PlayingTable :=
  tables.map fun t => if t.mId = id then change t else t

def removePlayerFromTable (l : Lobby) (uuid tableId : ℕ) : Lobby × List Reply :=
  let l := { l with mTables := updateTables tableId (·.removePlayer uuid) l.mTables }
  let l :=
    if l.mUsers.isHere uuid then { l with mUsers := l.mUsers.setPlayingTable uuid 0 .nowhere }
    else l
  l.sendPlayerEvent uuid (str "LeaveTable")

def accessGranted (l : Lobby) : JsonObject :=
  JsonObject.ofList
    [(str "cmd", .string (str "AccessGranted")),
     (str "tables", .array (l.mTables.map fun t => .object (JsonObject.ofList
       [(str "name", .string t.mName), (str "uuid", .integer t.mId)]))),
     (str "players", .array ((l.mUsers.get lobbyUid).map fun e =>
       .object (l.playerStatus e.player.uuid)))]

/-- The entry of a user who logs in: he belongs to the lobby. -/
def loginEntry (srcUuid : ℕ) (json : JsonValue) : Entry where
  player := { uuid := srcUuid, tableId := lobbyUid }
  identity := Identity.fromJson json.getObj

def replyLogin (l : Lobby) (srcUuid : ℕ) (json : JsonValue) : Delivered :=
  if l.mUserIds.isTaken srcUuid then
    let (added, users) := l.mUsers.addEntry (loginEntry srcUuid json)
    let l := { l with mUsers := users }
    if added then
      let reply := l.accessGranted
      let (l, event) := l.sendPlayerEvent srcUuid (str "New")
      { lobby := l, out := ⟨[srcUuid], reply⟩ :: event }
    else { lobby := l, out := error cErrorNickNameUsed srcUuid }
  else { lobby := l }

/-- The table that a user asks for: the first one with that identifier. -/
def findTable (l : Lobby) (id : ℕ) : Option PlayingTable := l.mTables.find? fun t => t.mId = id

/-- The change of the table that `findTable` gives. -/
def updateFirstTable (id : ℕ) (change : PlayingTable → PlayingTable) :
    List PlayingTable → List PlayingTable
  | [] => []
  | t :: tables =>
    if t.mId = id then change t :: tables else t :: updateFirstTable id change tables

def replyJoinTable (tableId : ℕ) (assignedPlace : Place) (t : PlayingTable) : JsonObject :=
  JsonObject.ofList
    [(str "cmd", .string (str "ReplyJoinTable")), (str "table_id", .integer tableId),
     (str "place", .string assignedPlace.toString),
     (str "deck", .string (t.mEngine.getDeck assignedPlace).toString),
     (str "context", .object t.mEngine.mCtx.saveToJson)]

def requestJoinTable (l : Lobby) (srcUuid : ℕ) (json : JsonValue) : Delivered :=
  let tableId := (json.findValue (str "table_id")).getUInt32
  if l.mUsers.getPlayerTable srcUuid = lobbyUid then
    match l.findTable tableId with
    | some t =>
      let (assignedPlace, t) := t.addPlayer srcUuid
      let l := { l with
        mTables := updateFirstTable tableId (fun t => (t.addPlayer srcUuid).2) l.mTables }
      if assignedPlace.isValid then
        let l := { l with mUsers := l.mUsers.setPlayingTable srcUuid tableId assignedPlace }
        let (l, event) := l.sendPlayerEvent srcUuid (str "JoinTable")
        { lobby := l, out := ⟨[srcUuid], replyJoinTable tableId assignedPlace t⟩ :: event }
      else { lobby := l, out := error cErrorFull srcUuid }
    | none => { lobby := l, out := error cErrorTableIdUnknown srcUuid }
  else { lobby := l }

def requestQuitTable (l : Lobby) (srcUuid : ℕ) (json : JsonValue) : Delivered :=
  let tableId := (json.findValue (str "table_id")).getUInt32
  if l.mUsers.getPlayerTable srcUuid = tableId then
    let (l, out) := l.removePlayerFromTable srcUuid tableId
    { lobby := l, out := out }
  else { lobby := l }

def requestChangeNickname (l : Lobby) (srcUuid : ℕ) (json : JsonValue) : Delivered :=
  let nickname := (json.findValue (str "nickname")).getString
  let (changed, users) := l.mUsers.changeNickName srcUuid nickname
  let l := { l with mUsers := users }
  if changed then
    let (l, event) := l.sendPlayerEvent srcUuid (str "Nick")
    { lobby := l, out := event }
  else { lobby := l, out := error cErrorNickNameUsed srcUuid }

/-- The requests that are addressed to the lobby. -/
def deliverToLobby (l : Lobby) (srcUuid : ℕ) (json : JsonValue) : Delivered :=
  let cmd := (json.findValue (str "cmd")).getString
  if cmd = str "ChatMessage" then
    { lobby := l, out := [⟨[(json.findValue (str "target")).getUInt32], json.getObj⟩] }
  else if cmd = str "ReplyLogin" then l.replyLogin srcUuid json
  else if cmd = str "RequestJoinTable" then l.requestJoinTable srcUuid json
  else if cmd = str "RequestQuitTable" then l.requestQuitTable srcUuid json
  else if cmd = str "RequestChangeNickname" then l.requestChangeNickname srcUuid json
  else { lobby := l, ret := false }

/-- The requests that are addressed to a table: they reach it only from its players. -/
def deliverToTable (dealer : Dealer) (l : Lobby) (srcUuid destUuid : ℕ) (json : JsonValue) :
    Delivered :=
  if l.mUsers.getPlayerTable srcUuid = destUuid then
    { lobby := { l with
        mTables := updateTables destUuid
          (fun t => (t.executeRequest dealer srcUuid json).table) l.mTables }
      out := (l.mTables.filter fun t => t.mId = destUuid).flatMap
        fun t => (t.executeRequest dealer srcUuid json).out }
  else { lobby := l, ret := false }

/-- `Deliver` up to the sending of the replies. -/
def deliver (dealer : Dealer) (l : Lobby) (req : Request) : Delivered :=
  match JsonReader.parseString req.arg with
  | none => { lobby := l, ret := false }
  | some json =>
    if l.mTableIds.isTaken req.destUuid then
      l.deliverToTable dealer req.srcUuid req.destUuid json
    else if req.destUuid = lobbyUid then l.deliverToLobby req.srcUuid json
    else { lobby := l, ret := false }

def addUser (l : Lobby) (peer : ℕ) : ℕ × Lobby :=
  let (uuid, ids) := l.mUserIds.takeId
  (uuid, { l with mUserIds := ids, mPeers := insertPeer uuid peer l.mPeers })

/-- The events of a user who leaves a table here are never sent. -/
def removeUser (l : Lobby) (uuid : ℕ) : Lobby :=
  let tableId := l.mUsers.getPlayerTable uuid
  let l := if tableId ≠ lobbyUid then (l.removePlayerFromTable uuid tableId).1 else l
  { l with mUsers := l.mUsers.remove uuid, mUserIds := l.mUserIds.releaseId uuid }

/-- The table that `CreateTable` adds. -/
def newTable (l : Lobby) (id : ℕ) (tableName : Str) (game : Game) (randomPlace : Place) :
    PlayingTable :=
  ((({ mId := id, mName := tableName } : PlayingTable).setAdminMode l.mAdminMode).setupGame
    game).createTable 4 randomPlace

def createTable (l : Lobby) (tableName : Str) (game : Game) (randomPlace : Place) : ℕ × Lobby :=
  let (id, ids) := l.mTableIds.takeId
  if id > 0 then
    (id, { l with
      mTableIds := ids
      mTables := l.mTables ++ [l.newTable id tableName game randomPlace] })
  else (id, { l with mTableIds := ids })

def destroyTable (l : Lobby) (id : ℕ) : Bool × Lobby :=
  ((l.findTable id).isSome,
    { l with
      mTables := l.mTables.eraseP fun t => t.mId = id
      mTableIds := l.mTableIds.releaseId id })

def addAllowedClient (l : Lobby) (webId gek passPhrase : Str) : Lobby :=
  { l with
    mAllowedClients := Function.update l.mAllowedClients webId
      (some { webId := webId, gek := gek, passPhrase := passPhrase }) }

/-- The record of an allowed client; without one, the caller's record stays as it was. -/
def getSecurity (l : Lobby) (playerId : Str) (sec : Security) : Bool × Security :=
  match l.mAllowedClients playerId with
  | some s => (true, s)
  | none => (false, sec)

end Lobby

end TarotClub
