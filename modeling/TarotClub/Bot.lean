import TarotClub.ClientContext
import TarotClub.PlayerContext

/-! The automatic player: how it takes the messages in and what it answers. Its script is a program
of its own, and answers what it likes. -/
namespace TarotClub

/-- What a call of the script gives back. -/
inductive Value where
  | invalid
  | integer (n : ℤ)
  | double (x : ℚ)
  | boolean (b : Bool)
  | string (s : Str)
  | null
  deriving DecidableEq

namespace Value

def isValid (v : Value) : Bool := v ≠ invalid

def getBool : Value → Bool
  | boolean b => b
  | _ => false

def getString : Value → Str
  | string s => s
  | _ => []

end Value

/-- `JSEngine::Call`: the answer to a function with its arguments. -/
abbrev Script := Str → List Str → Value

/-- `Protocol::TABLES_UID`: the table that every bot joins. -/
def tablesUid : ℕ := 1000

namespace Bot

/-- `Sync`, with the destination. -/
def sync (ctx : PlayerContext) (sequence : Sequence) : List Reply :=
  [ctx.replyToTable (PlayerContext.sync sequence)]

/-- Most messages are taken in and acknowledged. -/
def acknowledge (ctx : PlayerContext) (sequence : Sequence) : PlayerContext × List Reply :=
  (ctx, sync ctx sequence)

/-- The bid of the script, or of the fallback when the script names no contract. -/
def ownBid (script : Script) (ctx : PlayerContext) : Bid :=
  let contract := Contract.ofString
    (script (str "AnnounceBid") [ctx.mBid.contract.toString]).getString
  -- security test
  if .pass ≤ contract ∧ contract ≤ .guardAgainst then
    let slam := script (str "AnnounceSlam") []
    { ctx.mMyBid with
      contract := contract
      slam := if slam.isValid then slam.getBool else ctx.mMyBid.slam }
  else { ctx.mMyBid with contract := ctx.calculateBid }

/-- Only a bid over the previous one is allowed. -/
def requestBid (script : Script) (ctx : PlayerContext) : PlayerContext × List Reply :=
  let highestBid := ctx.mBid.contract
  let bid := ownBid script ctx
  let bid := if bid.contract ≤ highestBid then { bid with contract := .pass } else bid
  let ctx := { ctx with mMyBid := bid }
  (ctx, [ctx.replyToTable (PlayerContext.buildReplyBid bid.contract bid.slam)])

/-- The discard that the script asks for, if it is one. -/
def scriptDiscard (script : Script) (ctx : PlayerContext) : Option Deck :=
  match script (str "BuildDiscard") [ctx.mDog.toString] with
  | .string s =>
    let (count, discard) := ({} : Deck).setCards s
    if count = numberOfDogCards ctx.mGameState.mNbPlayers ∧ ctx.testDiscard discard then
      some discard
    else none
  | _ => none

def buildDiscard (script : Script) (ctx : PlayerContext) : PlayerContext × List Reply :=
  let (discard, ctx) := match scriptDiscard script ctx with
    | some discard =>
      (discard, { ctx with mDeck := ((ctx.mDeck.append ctx.mDog).removeDuplicates discard).2 })
    | none => ctx.autoDiscard
  (ctx, [ctx.replyToTable (PlayerContext.buildDiscard discard)])

/-- The card is taken out of the hand twice. -/
def sendCard (ctx : PlayerContext) (c : Card) : PlayerContext × List Reply :=
  let ctx := { ctx with mDeck := (ctx.mDeck.remove c).remove c, mMode := .blocked }
  (ctx, [ctx.replyToTable (PlayerContext.buildSendCard c)])

/-- The bot of the source computes a bid here that the one of `requestBid` replaces. -/
def handleRequestBid (script : Script) (ctx : PlayerContext) : PlayerContext × List Reply :=
  if ctx.mCurrentPlayer = ctx.mMyself.place then
    let contract := if ctx.calculateBid ≤ ctx.mBid.contract then .pass else ctx.calculateBid
    requestBid script { ctx with mMyBid := { ctx.mMyBid with contract := contract } }
  else (ctx, [])

def handlePlayCard (ctx : PlayerContext) : PlayerContext × List Reply :=
  if ctx.isMyTurn then sendCard ctx ctx.chooseRandomCard else (ctx, [])

def handleBuildDiscard (script : Script) (ctx : PlayerContext) : PlayerContext × List Reply :=
  let (ctx, replies) := buildDiscard script ctx
  (ctx, replies ++ sync ctx .waitForDiscard)

def login (ctx : PlayerContext) : PlayerContext × List Reply := (ctx, [ctx.replyLogin])

def clearTrick (ctx : PlayerContext) : PlayerContext :=
  { ctx with mCurrentTrick := ctx.mCurrentTrick.clear }

/-- `HandleRequest`, for a message that has been read. -/
def handleRequest (script : Script) (ctx : PlayerContext) (json : JsonObject) :
    PlayerContext × List Reply :=
  let ev := (json.getKey (str "cmd")).getString
  let msg := JsonValue.object json
  if !ctx.mMyself.isConnected then
    if ev = str "RequestLogin" then login (ctx.decodeRequestLogin msg) else (ctx, [])
  else if ev = str "AccessGranted" then
    (ctx.decodeAccessGranted msg, [PlayerContext.replyJoinTable tablesUid])
  else if ev = str "ReplyJoinTable" then
    acknowledge (ctx.decodeReplyJoinTable msg) .waitForPlayers
  else if ev = str "NewDeal" then acknowledge (ctx.decodeNewDeal msg) .waitForCards
  else if ev = str "RequestBid" then handleRequestBid script (ctx.decodeRequestBid msg)
  else if ev = str "RequestKingCall" then acknowledge ctx .waitForKingCall
  else if ev = str "ShowKingCall" then acknowledge ctx .waitForShowKingCall
  else if ev = str "ShowBid" then acknowledge (ctx.decodeShowBid msg) .waitForShowBid
  else if ev = str "BuildDiscard" then handleBuildDiscard script ctx
  else if ev = str "ShowDog" then acknowledge (ctx.decodeShowDog msg) .waitForShowDog
  else if ev = str "StartDeal" then acknowledge (ctx.decodeStartDeal msg) .waitForStartDeal
  else if ev = str "ShowHandle" then acknowledge (ctx.decodeShowHandle msg) .waitForShowHandle
  else if ev = str "NewGame" then acknowledge (ctx.decodeNewGame msg) .waitForReady
  else if ev = str "ShowCard" then acknowledge (ctx.decodeShowCard msg) .waitForShowCard
  else if ev = str "PlayCard" then handlePlayCard (ctx.decodePlayCard msg)
  else if ev = str "AskForHandle" then
    (ctx, [ctx.replyToTable (PlayerContext.buildHandle {})])
  else if ev = str "EndOfTrick" then
    acknowledge (clearTrick (ctx.decodeEndOfTrick msg)) .waitForEndOfTrick
  else if ev = str "EndOfGame" then acknowledge (ctx.decodeEndOfGame msg) .waitForReady
  else if ev = str "AllPassed" then acknowledge ctx .waitForAllPassed
  else if ev = str "EndOfDeal" then acknowledge (ctx.decodeEndOfDeal msg) .waitForEndOfDeal
  else if ev = str "ChatMessage" then (ctx.decodeChatMessage msg, [])
  else (ctx, [])

/-- The messages that are only taken in and acknowledged: how, and with which step. -/
inductive Acknowledges (ctx : PlayerContext) (json : JsonObject) :
    Str → PlayerContext → Sequence → Prop
  | replyJoinTable : Acknowledges ctx json (str "ReplyJoinTable")
      (ctx.decodeReplyJoinTable (.object json)) .waitForPlayers
  | newDeal :
    Acknowledges ctx json (str "NewDeal") (ctx.decodeNewDeal (.object json)) .waitForCards
  | requestKingCall : Acknowledges ctx json (str "RequestKingCall") ctx .waitForKingCall
  | showKingCall : Acknowledges ctx json (str "ShowKingCall") ctx .waitForShowKingCall
  | showBid :
    Acknowledges ctx json (str "ShowBid") (ctx.decodeShowBid (.object json)) .waitForShowBid
  | showDog :
    Acknowledges ctx json (str "ShowDog") (ctx.decodeShowDog (.object json)) .waitForShowDog
  | startDeal : Acknowledges ctx json (str "StartDeal") (ctx.decodeStartDeal (.object json))
      .waitForStartDeal
  | showHandle : Acknowledges ctx json (str "ShowHandle") (ctx.decodeShowHandle (.object json))
      .waitForShowHandle
  | newGame :
    Acknowledges ctx json (str "NewGame") (ctx.decodeNewGame (.object json)) .waitForReady
  | showCard :
    Acknowledges ctx json (str "ShowCard") (ctx.decodeShowCard (.object json)) .waitForShowCard
  | endOfTrick : Acknowledges ctx json (str "EndOfTrick")
      (clearTrick (ctx.decodeEndOfTrick (.object json))) .waitForEndOfTrick
  | endOfGame :
    Acknowledges ctx json (str "EndOfGame") (ctx.decodeEndOfGame (.object json)) .waitForReady
  | allPassed : Acknowledges ctx json (str "AllPassed") ctx .waitForAllPassed
  | endOfDeal : Acknowledges ctx json (str "EndOfDeal") (ctx.decodeEndOfDeal (.object json))
      .waitForEndOfDeal

/-- What a bot that is logged in does with a message, by its command. -/
inductive Handles (script : Script) (ctx : PlayerContext) (json : JsonObject) :
    Str → PlayerContext × List Reply → Prop
  | acknowledge {cmd : Str} {ctx' : PlayerContext} {step : Sequence} :
    Acknowledges ctx json cmd ctx' step → Handles script ctx json cmd (acknowledge ctx' step)
  | requestBid : Handles script ctx json (str "RequestBid")
      (handleRequestBid script (ctx.decodeRequestBid (.object json)))
  | buildDiscard : Handles script ctx json (str "BuildDiscard") (handleBuildDiscard script ctx)
  | playCard :
    Handles script ctx json (str "PlayCard") (handlePlayCard (ctx.decodePlayCard (.object json)))
  | askForHandle : Handles script ctx json (str "AskForHandle")
      (ctx, [ctx.replyToTable (PlayerContext.buildHandle {})])
  | accessGranted : Handles script ctx json (str "AccessGranted")
      (ctx.decodeAccessGranted (.object json), [PlayerContext.replyJoinTable tablesUid])
  | chatMessage :
    Handles script ctx json (str "ChatMessage") (ctx.decodeChatMessage (.object json), [])
  | other {cmd : Str} : cmd ∉ [str "ReplyJoinTable", str "NewDeal", str "RequestBid",
        str "RequestKingCall", str "ShowKingCall", str "ShowBid", str "BuildDiscard",
        str "ShowDog", str "StartDeal", str "ShowHandle", str "NewGame", str "ShowCard",
        str "PlayCard", str "AskForHandle", str "EndOfTrick", str "EndOfGame", str "AllPassed",
        str "EndOfDeal"] → Handles script ctx json cmd (ctx, [])

theorem handleRequest_handles (script : Script) {ctx : PlayerContext}
    (hctx : ctx.mMyself.isConnected = true) (json : JsonObject) :
    Handles script ctx json (json.getKey (str "cmd")).getString
      (handleRequest script ctx json) := by
  have hnot : ¬ (!ctx.mMyself.isConnected) = true := by
    rw [hctx]
    decide
  unfold handleRequest
  dsimp only
  rw [if_neg hnot]
  generalize (json.getKey (str "cmd")).getString = ev
  by_cases h0 : ev = str "AccessGranted"
  · rw [if_pos h0, h0]
    exact .accessGranted
  rw [if_neg h0]
  by_cases h1 : ev = str "ReplyJoinTable"
  · rw [if_pos h1, h1]
    exact .acknowledge .replyJoinTable
  rw [if_neg h1]
  by_cases h2 : ev = str "NewDeal"
  · rw [if_pos h2, h2]
    exact .acknowledge .newDeal
  rw [if_neg h2]
  by_cases h3 : ev = str "RequestBid"
  · rw [if_pos h3, h3]
    exact .requestBid
  rw [if_neg h3]
  by_cases h4 : ev = str "RequestKingCall"
  · rw [if_pos h4, h4]
    exact .acknowledge .requestKingCall
  rw [if_neg h4]
  by_cases h5 : ev = str "ShowKingCall"
  · rw [if_pos h5, h5]
    exact .acknowledge .showKingCall
  rw [if_neg h5]
  by_cases h6 : ev = str "ShowBid"
  · rw [if_pos h6, h6]
    exact .acknowledge .showBid
  rw [if_neg h6]
  by_cases h7 : ev = str "BuildDiscard"
  · rw [if_pos h7, h7]
    exact .buildDiscard
  rw [if_neg h7]
  by_cases h8 : ev = str "ShowDog"
  · rw [if_pos h8, h8]
    exact .acknowledge .showDog
  rw [if_neg h8]
  by_cases h9 : ev = str "StartDeal"
  · rw [if_pos h9, h9]
    exact .acknowledge .startDeal
  rw [if_neg h9]
  by_cases h10 : ev = str "ShowHandle"
  · rw [if_pos h10, h10]
    exact .acknowledge .showHandle
  rw [if_neg h10]
  by_cases h11 : ev = str "NewGame"
  · rw [if_pos h11, h11]
    exact .acknowledge .newGame
  rw [if_neg h11]
  by_cases h12 : ev = str "ShowCard"
  · rw [if_pos h12, h12]
    exact .acknowledge .showCard
  rw [if_neg h12]
  by_cases h13 : ev = str "PlayCard"
  · rw [if_pos h13, h13]
    exact .playCard
  rw [if_neg h13]
  by_cases h14 : ev = str "AskForHandle"
  · rw [if_pos h14, h14]
    exact .askForHandle
  rw [if_neg h14]
  by_cases h15 : ev = str "EndOfTrick"
  · rw [if_pos h15, h15]
    exact .acknowledge .endOfTrick
  rw [if_neg h15]
  by_cases h16 : ev = str "EndOfGame"
  · rw [if_pos h16, h16]
    exact .acknowledge .endOfGame
  rw [if_neg h16]
  by_cases h17 : ev = str "AllPassed"
  · rw [if_pos h17, h17]
    exact .acknowledge .allPassed
  rw [if_neg h17]
  by_cases h18 : ev = str "EndOfDeal"
  · rw [if_pos h18, h18]
    exact .acknowledge .endOfDeal
  rw [if_neg h18]
  by_cases h19 : ev = str "ChatMessage"
  · rw [if_pos h19, h19]
    exact .chatMessage
  rw [if_neg h19]
  refine .other ?_
  simp only [List.mem_cons, List.not_mem_nil, or_false, not_or]
  exact ⟨h1, h2, h3, h4, h5, h6, h7, h8, h9, h10, h11, h12, h13, h14, h15, h16, h17, h18⟩

end Bot

end TarotClub
