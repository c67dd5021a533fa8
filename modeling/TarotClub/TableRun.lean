import TarotClub.EngineRun
import TarotClub.FairDeal
import TarotClub.PlayingTable

/-! Runs of a table: players come and go and send requests, in any order. Seen from the
engine such a run is a run of the engine's own actions. -/
namespace TarotClub

open Machine

/-- A call that a table receives; with a request comes the dealer that answers when the
table asks for new cards. -/
inductive Call where
  | addPlayer (uuid : ℕ)
  | removePlayer (kickedPlayer : ℕ)
  | executeRequest (dealer : Dealer) (srcUuid : ℕ) (json : JsonValue)

namespace PlayingTable

def apply (t : PlayingTable) : Call → PlayingTable
  | .addPlayer uuid => (t.addPlayer uuid).2
  | .removePlayer kickedPlayer => t.removePlayer kickedPlayer
  | .executeRequest dealer srcUuid json => (t.executeRequest dealer srcUuid json).table

/-- The tables that calls lead to from a table that has been created. -/
inductive Reachable : PlayingTable → Prop
  | create (t : PlayingTable) (nbPlayers : ℕ) (randomPlace : Place)
      (hn : nbPlayers ≤ 5) :
      Reachable (t.createTable nbPlayers randomPlace)
  | call (t : PlayingTable) (c : Call) : Reachable t → Reachable (t.apply c)

theorem Reachable.run {t : PlayingTable} (ht : t.Reachable) (cs : List Call) :
    (run apply t cs).Reachable :=
  run_invariant Reachable (fun t c => Reachable.call t c) ht cs

/-- The engine's part in what follows when every player has acknowledged the step. -/
def syncedAction (dealer : Dealer) (t : PlayingTable) : Sequence → Engine.Action
  | .waitForPlayers => if t.mAdminMode then .stay else .newGame
  | .waitForReady | .waitForAllPassed => .newDeal (t.nextDeal dealer)
  | .waitForCards | .waitForShowBid => .bidSequence
  | .waitForShowKingCall => .manageAfterBid
  | .waitForShowDog => .discardSequence
  | .waitForStartDeal | .waitForShowHandle | .waitForShowCard | .waitForEndOfTrick =>
    .gameSequence
  | .waitForEndOfDeal =>
    let (continueGame, score) :=
      t.mScore.addPoints t.mEngine.getCurrentGamePoints t.mEngine.mCtx.mBid t.nbPlayers
    if continueGame then .newDeal (({ t with mScore := score } : PlayingTable).nextDeal dealer)
    else .newGame
  | _ => .stay

def ackAction (dealer : Dealer) (t : PlayingTable) (srcUuid : ℕ) (json : JsonValue) :
    Engine.Action :=
  let seq := ackFromString (json.findValue (str "step")).getString
  if t.getPlayerPlace srcUuid ≠ .nowhere ∧ seq ≠ .badStep ∧ (t.sync seq srcUuid).1 = true then
    (t.sync seq srcUuid).2.syncedAction dealer seq
  else .stay

def bidAction (t : PlayingTable) (srcUuid : ℕ) (json : JsonValue) : Engine.Action :=
  let p := t.getPlayerPlace srcUuid
  if p ≠ .nowhere ∧ p = t.mEngine.mCurrentPlayer ∧ t.mEngine.mSequence = .waitForBid then
    .bid (Contract.ofString (json.findValue (str "contract")).getString)
      (json.findValue (str "slam")).getBool p
  else .stay

def discardAction (t : PlayingTable) (srcUuid : ℕ) (json : JsonValue) : Engine.Action :=
  let discard := Deck.ofString (json.findValue (str "discard")).getString
  if t.mEngine.mSequence = .waitForDiscard ∧
      t.mEngine.mCtx.mBid.taker = t.getPlayerPlace srcUuid ∧
      t.mEngine.takerDeck.testDiscard discard t.mEngine.mCtx.mDog t.nbPlayers = true then
    .discard discard
  else .stay

def kingCallAction (t : PlayingTable) (srcUuid : ℕ) (json : JsonValue) : Engine.Action :=
  let c := Card.ofString (json.findValue (str "card")).getString
  if t.mEngine.mSequence = .waitForKingCall ∧
      t.mEngine.mCtx.mBid.taker = t.getPlayerPlace srcUuid ∧
      TarotContext.checkKingCall c (t.mEngine.takerDeck.analyzeSuits {}) = true then
    .kingCall c
  else .stay

def handleAction (t : PlayingTable) (srcUuid : ℕ) (json : JsonValue) : Engine.Action :=
  let handle := Deck.ofString (json.findValue (str "handle")).getString
  let p := t.getPlayerPlace srcUuid
  if t.mEngine.mSequence = .waitForHandle ∧ t.mEngine.mCurrentPlayer = p then
    if (t.mEngine.mPlayers p.value).testHandle handle then .handle handle p else .gameSequence
  else .stay

def cardAction (t : PlayingTable) (srcUuid : ℕ) (json : JsonValue) : Engine.Action :=
  let c := Card.ofString (json.findValue (str "card")).getString
  let p := t.getPlayerPlace srcUuid
  if c.isValid = true ∧ t.mEngine.mSequence = .waitForPlayedCard ∧
      t.mEngine.mCurrentPlayer = p ∧
      (t.mEngine.mPlayers p.value).canPlayCard c t.mEngine.currentTrick = true then
    .card c p
  else .stay

/-- The engine's part in the execution of a request. -/
def requestAction (dealer : Dealer) (t : PlayingTable) (srcUuid : ℕ) (json : JsonValue) :
    Engine.Action :=
  let cmd := (json.findValue (str "cmd")).getString
  if cmd = str "Error" then .stay
  else if cmd = str "Ack" then t.ackAction dealer srcUuid json
  else if cmd = str "RequestNewGame" then if srcUuid = t.mAdmin then .newGame else .stay
  else if cmd = str "ReplyBid" then t.bidAction srcUuid json
  else if cmd = str "Discard" then t.discardAction srcUuid json
  else if cmd = str "ReplyKingCall" then t.kingCallAction srcUuid json
  else if cmd = str "Handle" then t.handleAction srcUuid json
  else if cmd = str "Card" then t.cardAction srcUuid json
  else .stay

/-- The step that a request of a player answers. -/
inductive Answers : Str → Sequence → Prop
  | replyBid : Answers (str "ReplyBid") .waitForBid
  | discard : Answers (str "Discard") .waitForDiscard
  | replyKingCall : Answers (str "ReplyKingCall") .waitForKingCall
  | handle : Answers (str "Handle") .waitForHandle
  | card : Answers (str "Card") .waitForPlayedCard

/-- The engine's part in the answer of a step. -/
def answerAction (t : PlayingTable) (step : Sequence) (srcUuid : ℕ) (json : JsonValue) :
    Engine.Action :=
  match step with
  | .waitForBid => t.bidAction srcUuid json
  | .waitForDiscard => t.discardAction srcUuid json
  | .waitForKingCall => t.kingCallAction srcUuid json
  | .waitForHandle => t.handleAction srcUuid json
  | .waitForPlayedCard => t.cardAction srcUuid json
  | _ => .stay

/-- What executes the answer of a step. -/
def executeAnswer (t : PlayingTable) (step : Sequence) (srcUuid : ℕ) (json : JsonValue) :
    Response :=
  match step with
  | .waitForBid => t.executeReplyBid srcUuid json
  | .waitForDiscard => t.executeDiscard srcUuid json
  | .waitForKingCall => t.executeReplyKingCall srcUuid json
  | .waitForHandle => t.executeHandle srcUuid json
  | .waitForPlayedCard => t.executeCard srcUuid json
  | _ => { table := t }

theorem executeRequest_of_answers (dealer : Dealer) (t : PlayingTable) (srcUuid : ℕ)
    (json : JsonValue) {step : Sequence}
    (h : Answers (json.findValue (str "cmd")).getString step) :
    t.executeRequest dealer srcUuid json = t.executeAnswer step srcUuid json := by
  unfold executeRequest
  generalize (json.findValue (str "cmd")).getString = cmd at h
  cases h <;> rfl

theorem requestAction_of_answers (dealer : Dealer) (t : PlayingTable) (srcUuid : ℕ)
    (json : JsonValue) {step : Sequence}
    (h : Answers (json.findValue (str "cmd")).getString step) :
    t.requestAction dealer srcUuid json = t.answerAction step srcUuid json := by
  unfold requestAction
  generalize (json.findValue (str "cmd")).getString = cmd at h
  cases h <;> rfl

theorem request_of_ack (dealer : Dealer) (t : PlayingTable) (srcUuid : ℕ) (json : JsonValue)
    (h : (json.findValue (str "cmd")).getString = str "Ack") :
    t.executeRequest dealer srcUuid json = t.executeAck dealer srcUuid json ∧
      t.requestAction dealer srcUuid json = t.ackAction dealer srcUuid json := by
  unfold executeRequest requestAction
  rw [h]
  exact ⟨rfl, rfl⟩

theorem request_of_newGame (dealer : Dealer) (t : PlayingTable) (srcUuid : ℕ) (json : JsonValue)
    (h : (json.findValue (str "cmd")).getString = str "RequestNewGame") :
    t.executeRequest dealer srcUuid json = t.executeNewGame srcUuid json ∧
      t.requestAction dealer srcUuid json = if srcUuid = t.mAdmin then .newGame else .stay := by
  unfold executeRequest requestAction
  rw [h]
  exact ⟨rfl, rfl⟩

/-- A request acknowledges a step, begins a game or answers the engine, or every table passes it
over. -/
theorem exists_command (json : JsonValue) :
    (json.findValue (str "cmd")).getString = str "Ack" ∨
      (json.findValue (str "cmd")).getString = str "RequestNewGame" ∨
      (∃ step, Answers (json.findValue (str "cmd")).getString step) ∨
      ∀ dealer t srcUuid, executeRequest dealer t srcUuid json = { table := t } ∧
        requestAction dealer t srcUuid json = .stay := by
  unfold executeRequest requestAction
  generalize (json.findValue (str "cmd")).getString = cmd
  by_cases hack : cmd = str "Ack"
  · exact .inl hack
  by_cases hnew : cmd = str "RequestNewGame"
  · exact .inr (.inl hnew)
  by_cases hbid : cmd = str "ReplyBid"
  · exact .inr (.inr (.inl ⟨.waitForBid, hbid ▸ Answers.replyBid⟩))
  by_cases hdiscard : cmd = str "Discard"
  · exact .inr (.inr (.inl ⟨.waitForDiscard, hdiscard ▸ Answers.discard⟩))
  by_cases hking : cmd = str "ReplyKingCall"
  · exact .inr (.inr (.inl ⟨.waitForKingCall, hking ▸ Answers.replyKingCall⟩))
  by_cases hhandle : cmd = str "Handle"
  · exact .inr (.inr (.inl ⟨.waitForHandle, hhandle ▸ Answers.handle⟩))
  by_cases hcard : cmd = str "Card"
  · exact .inr (.inr (.inl ⟨.waitForPlayedCard, hcard ▸ Answers.card⟩))
  refine .inr (.inr (.inr fun dealer t srcUuid => ?_))
  simp only [hack, hnew, hbid, hdiscard, hking, hhandle, hcard, if_false, ite_self, and_self]

def action (t : PlayingTable) : Call → Engine.Action
  | .executeRequest dealer srcUuid json => t.requestAction dealer srcUuid json
  | _ => .stay

/-- The actions of the engine in a run of the table. -/
def actions (t : PlayingTable) (cs : List Call) : List Engine.Action := labels apply action t cs

/-- The last seat that satisfies a test, as a loop over the seats finds it. -/
theorem foldl_place (P : ℕ → Prop) [DecidablePred P] (n : ℕ) :
    let p := (List.range n).foldl (fun p i => if P i then Place.assign i else p) Place.nowhere
    (p = .nowhere ∧ ∀ i < n, ¬ P i) ∨ ∃ i < n, P i ∧ p = .assign i := by
  induction n with
  | zero => exact .inl ⟨rfl, by simp⟩
  | succ n ih =>
    simp only [List.range_succ, List.foldl_append, List.foldl_cons, List.foldl_nil]
    by_cases h : P n
    · exact .inr ⟨n, by omega, h, by rw [if_pos h]⟩
    · rw [if_neg h]
      rcases ih with ⟨hp, hn⟩ | ⟨i, hi, hP, hp⟩
      · refine .inl ⟨hp, fun i hi => ?_⟩
        rcases Nat.lt_succ_iff_lt_or_eq.mp hi with hlt | rfl
        exacts [hn i hlt, h]
      · exact .inr ⟨i, by omega, hP, hp⟩

/-- A place that is found is a seat of the table, and the player sits there. -/
theorem getPlayerPlace_of_ne {t : PlayingTable} (hn : t.nbPlayers ≤ 5) {uuid : ℕ}
    (h : t.getPlayerPlace uuid ≠ .nowhere) :
    (t.getPlayerPlace uuid).value < t.nbPlayers ∧
      (t.mPlayers (t.getPlayerPlace uuid).value).uuid = uuid := by
  rcases foldl_place (fun i => (t.mPlayers i).uuid = uuid) t.nbPlayers with
    ⟨hp, -⟩ | ⟨i, hi, hu, hp⟩
  · exact absurd hp h
  · have hv : (t.getPlayerPlace uuid).value = i := by
      rw [getPlayerPlace, hp, Place.value_assign (by omega)]
    exact ⟨hv ▸ hi, hv ▸ hu⟩

theorem getPlayerPlace_eq_nowhere {t : PlayingTable} (hn : t.nbPlayers ≤ 5) {uuid : ℕ} :
    t.getPlayerPlace uuid = .nowhere ↔ ∀ i < t.nbPlayers, (t.mPlayers i).uuid ≠ uuid := by
  rcases foldl_place (fun i => (t.mPlayers i).uuid = uuid) t.nbPlayers with
    ⟨hp, hall⟩ | ⟨i, hi, hu, hp⟩
  · exact ⟨fun _ => hall, fun _ => hp⟩
  · refine ⟨fun h => ?_, fun h => absurd hu (h i hi)⟩
    have hv : (Place.assign i).value = Place.nowhere.value := congrArg Place.value (hp ▸ h)
    rw [Place.value_assign (by omega), show Place.nowhere.value = 5 from rfl] at hv
    omega

/-! The effect of a request on the engine. -/

@[simp] theorem resetAck_mEngine (t : PlayingTable) : t.resetAck.mEngine = t.mEngine := rfl

@[simp] theorem ackFromAllPlayers_mEngine (t : PlayingTable) :
    t.ackFromAllPlayers.2.mEngine = t.mEngine := by
  unfold ackFromAllPlayers
  split_ifs <;> rfl

@[simp] theorem sync_mEngine (t : PlayingTable) (seq : Sequence) (uuid : ℕ) :
    (t.sync seq uuid).2.mEngine = t.mEngine := by
  rw [sync, ackFromAllPlayers_mEngine, noteAck]

@[simp] theorem rollover_mEngine (t : PlayingTable) : t.rollover.mEngine = t.mEngine := by
  unfold rollover
  split_ifs <;> rfl

@[simp] theorem newGame_mEngine (t : PlayingTable) :
    t.newGame.table.mEngine = t.mEngine.newGame := rfl

@[simp] theorem newDeal_mEngine (dealer : Dealer) (t : PlayingTable) :
    (t.newDeal dealer).table.mEngine = t.mEngine.newDeal (t.nextDeal dealer) := rfl

@[simp] theorem startDeal_mEngine (t : PlayingTable) :
    t.startDeal.table.mEngine = t.mEngine.startDeal.2 := rfl

theorem sendNextBidSequence_mEngine (t : PlayingTable) :
    t.sendNextBidSequence.table.mEngine = t.mEngine.startIfReady := by
  unfold sendNextBidSequence Engine.startIfReady
  split
  case h_6 h _ => rw [if_neg h]
  all_goals simp [*]

theorem gameSequence_mEngine (t : PlayingTable) :
    t.gameSequence.table.mEngine = t.mEngine.playOn := by
  cases h : t.mEngine.gameSequence.isLastTrick
  · simp only [gameSequence, Engine.playOn, h, Bool.false_eq_true, if_false]
    split <;> rfl
  · simp only [gameSequence, Engine.playOn, h, if_true]

theorem allSynced_mEngine (dealer : Dealer) (t : PlayingTable) (seq : Sequence) :
    (t.allSynced dealer seq).table.mEngine = t.mEngine.act (t.syncedAction dealer seq) := by
  cases seq <;> try rfl
  case waitForPlayers =>
    simp only [allSynced, syncedAction]
    split_ifs <;> rfl
  case waitForCards | waitForShowBid | waitForShowKingCall =>
    exact sendNextBidSequence_mEngine _
  case waitForStartDeal | waitForShowHandle | waitForShowCard | waitForEndOfTrick =>
    exact gameSequence_mEngine t
  case waitForEndOfDeal =>
    simp only [allSynced, syncedAction, endOfDeal]
    split_ifs <;> rfl

theorem executeAck_mEngine (dealer : Dealer) (t : PlayingTable) (srcUuid : ℕ)
    (json : JsonValue) :
    (t.executeAck dealer srcUuid json).table.mEngine =
      t.mEngine.act (t.ackAction dealer srcUuid json) := by
  unfold executeAck ackAction
  by_cases hp : t.getPlayerPlace srcUuid ≠ .nowhere
  · by_cases hs : ackFromString (json.findValue (str "step")).getString = .badStep
    · simp [hs, Engine.act]
    · cases hf : (t.sync (ackFromString (json.findValue (str "step")).getString) srcUuid).1
      · simp [hp, hs, hf, Engine.act]
      · simp [hp, hs, hf, allSynced_mEngine]
  · simp [hp, Engine.act]

theorem executeReplyBid_mEngine (t : PlayingTable) (srcUuid : ℕ) (json : JsonValue) :
    (t.executeReplyBid srcUuid json).table.mEngine =
      t.mEngine.act (t.bidAction srcUuid json) := by
  simp only [executeReplyBid, bidAction]
  split_ifs <;> rfl

theorem executeDiscard_mEngine (t : PlayingTable) (srcUuid : ℕ) (json : JsonValue) :
    (t.executeDiscard srcUuid json).table.mEngine =
      t.mEngine.act (t.discardAction srcUuid json) := by
  unfold executeDiscard discardAction
  by_cases hturn : t.mEngine.mSequence = .waitForDiscard ∧
      t.mEngine.mCtx.mBid.taker = t.getPlayerPlace srcUuid
  · cases htest : t.mEngine.takerDeck.testDiscard
        (Deck.ofString (json.findValue (str "discard")).getString) t.mEngine.mCtx.mDog
        t.mEngine.mCtx.mNbPlayers
    · simp only [if_pos hturn, nbPlayers, htest, Bool.false_eq_true, and_false, if_false,
        Engine.setDiscard, Engine.act]
    · simp only [nbPlayers, htest, hturn.1, hturn.2, and_self, if_true,
        Engine.setDiscard, Engine.act, startDeal_mEngine]
  · rw [if_neg hturn, if_neg fun h => hturn ⟨h.1, h.2.1⟩]
    rfl

theorem executeReplyKingCall_mEngine (t : PlayingTable) (srcUuid : ℕ) (json : JsonValue) :
    (t.executeReplyKingCall srcUuid json).table.mEngine =
      t.mEngine.act (t.kingCallAction srcUuid json) := by
  have hmove : (t.executeReplyKingCall srcUuid json).table.mEngine =
      if t.mEngine.mSequence = .waitForKingCall ∧
          t.mEngine.mCtx.mBid.taker = t.getPlayerPlace srcUuid then
        (t.mEngine.setKingCalled (Card.ofString (json.findValue (str "card")).getString)).2
      else t.mEngine := by
    simp only [executeReplyKingCall]
    split_ifs <;> rfl
  rw [hmove, kingCallAction]
  by_cases hturn : t.mEngine.mSequence = .waitForKingCall ∧
      t.mEngine.mCtx.mBid.taker = t.getPlayerPlace srcUuid
  · rw [if_pos hturn]
    cases hcheck : TarotContext.checkKingCall
        (Card.ofString (json.findValue (str "card")).getString)
        (t.mEngine.takerDeck.analyzeSuits {})
    · simp only [hcheck, Bool.false_eq_true, and_false, if_false, Engine.setKingCalled,
        Engine.act]
    · simp only [hturn.1, hturn.2, and_self, if_true, Engine.act]
  · rw [if_neg hturn, if_neg fun h => hturn ⟨h.1, h.2.1⟩]
    rfl

theorem executeHandle_mEngine (t : PlayingTable) (srcUuid : ℕ) (json : JsonValue) :
    (t.executeHandle srcUuid json).table.mEngine =
      t.mEngine.act (t.handleAction srcUuid json) := by
  unfold executeHandle handleAction
  by_cases hturn : t.mEngine.mSequence = .waitForHandle ∧
      t.mEngine.mCurrentPlayer = t.getPlayerPlace srcUuid
  · cases htest : (t.mEngine.mPlayers (t.getPlayerPlace srcUuid).value).testHandle
        (Deck.ofString (json.findValue (str "handle")).getString)
    · simp only [if_pos hturn, htest, Bool.false_eq_true, if_false, Engine.setHandle, Engine.act]
      exact gameSequence_mEngine t
    · simp only [if_pos hturn, htest, if_true, Engine.setHandle, Engine.act]
  · rw [if_neg hturn, if_neg hturn]
    rfl

theorem executeCard_mEngine (t : PlayingTable) (srcUuid : ℕ) (json : JsonValue) :
    (t.executeCard srcUuid json).table.mEngine =
      t.mEngine.act (t.cardAction srcUuid json) := by
  unfold executeCard cardAction
  by_cases hturn : (Card.ofString (json.findValue (str "card")).getString).isValid = true ∧
      t.mEngine.mSequence = .waitForPlayedCard ∧
      t.mEngine.mCurrentPlayer = t.getPlayerPlace srcUuid
  · cases hplay : (t.mEngine.mPlayers (t.getPlayerPlace srcUuid).value).canPlayCard
        (Card.ofString (json.findValue (str "card")).getString) t.mEngine.currentTrick
    · simp only [if_pos hturn, hplay, Bool.false_eq_true, and_false, if_false, Engine.setCard,
        Engine.act]
    · simp only [hturn.1, hturn.2.1, hturn.2.2, hplay, and_self, if_true,
        Engine.setCard, Engine.act]
  · rw [if_neg hturn, if_neg fun h => hturn ⟨h.1, h.2.1, h.2.2.1⟩]
    rfl

theorem executeNewGame_mEngine (t : PlayingTable) (srcUuid : ℕ) (json : JsonValue) :
    (t.executeNewGame srcUuid json).table.mEngine =
      t.mEngine.act (if srcUuid = t.mAdmin then .newGame else .stay) := by
  unfold executeNewGame
  split_ifs <;> rfl

theorem removePlayer_mEngine (t : PlayingTable) (kickedPlayer : ℕ) :
    (t.removePlayer kickedPlayer).mEngine = t.mEngine := by
  unfold removePlayer
  split_ifs <;> rfl

theorem addPlayer_mEngine (t : PlayingTable) (uuid : ℕ) :
    (t.addPlayer uuid).2.mEngine = t.mEngine := by
  simp only [addPlayer]
  split_ifs <;> rfl

/-- What relates each function that executes a request to its action relates the execution
of every request to its action. -/
theorem request_cases {R : Response → Engine.Action → Prop} (dealer : Dealer) (t : PlayingTable)
    (srcUuid : ℕ) (json : JsonValue) (hstay : R { table := t } .stay)
    (hack : (json.findValue (str "cmd")).getString = str "Ack" →
      R (t.executeAck dealer srcUuid json) (t.ackAction dealer srcUuid json))
    (hnew : (json.findValue (str "cmd")).getString = str "RequestNewGame" →
      R (t.executeNewGame srcUuid json) (if srcUuid = t.mAdmin then .newGame else .stay))
    (hbid : (json.findValue (str "cmd")).getString = str "ReplyBid" →
      R (t.executeReplyBid srcUuid json) (t.bidAction srcUuid json))
    (hdiscard : (json.findValue (str "cmd")).getString = str "Discard" →
      R (t.executeDiscard srcUuid json) (t.discardAction srcUuid json))
    (hking : (json.findValue (str "cmd")).getString = str "ReplyKingCall" →
      R (t.executeReplyKingCall srcUuid json) (t.kingCallAction srcUuid json))
    (hhandle : (json.findValue (str "cmd")).getString = str "Handle" →
      R (t.executeHandle srcUuid json) (t.handleAction srcUuid json))
    (hcard : (json.findValue (str "cmd")).getString = str "Card" →
      R (t.executeCard srcUuid json) (t.cardAction srcUuid json)) :
    R (t.executeRequest dealer srcUuid json) (t.requestAction dealer srcUuid json) := by
  rcases exists_command json with h | h | ⟨step, h⟩ | h
  · obtain ⟨hexecute, haction⟩ := request_of_ack dealer t srcUuid json h
    rw [hexecute, haction]
    exact hack h
  · obtain ⟨hexecute, haction⟩ := request_of_newGame dealer t srcUuid json h
    rw [hexecute, haction]
    exact hnew h
  · rw [executeRequest_of_answers dealer t srcUuid json h,
      requestAction_of_answers dealer t srcUuid json h]
    generalize (json.findValue (str "cmd")).getString = cmd at *
    cases h
    exacts [hbid rfl, hdiscard rfl, hking rfl, hhandle rfl, hcard rfl]
  · obtain ⟨hexecute, haction⟩ := h dealer t srcUuid
    rw [hexecute, haction]
    exact hstay

/-- A call changes the engine by the action it amounts to. -/
theorem apply_mEngine (t : PlayingTable) (c : Call) :
    (t.apply c).mEngine = t.mEngine.act (t.action c) := by
  cases c with
  | addPlayer uuid => exact addPlayer_mEngine t uuid
  | removePlayer kickedPlayer => exact removePlayer_mEngine t kickedPlayer
  | executeRequest dealer srcUuid json =>
    exact request_cases (R := fun r a => r.table.mEngine = t.mEngine.act a) dealer t srcUuid json
      rfl (fun _ => executeAck_mEngine dealer t srcUuid json)
      (fun _ => executeNewGame_mEngine t srcUuid json)
      (fun _ => executeReplyBid_mEngine t srcUuid json)
      (fun _ => executeDiscard_mEngine t srcUuid json)
      (fun _ => executeReplyKingCall_mEngine t srcUuid json)
      (fun _ => executeHandle_mEngine t srcUuid json)
      (fun _ => executeCard_mEngine t srcUuid json)

/-! Where bids and deals come from. -/

theorem syncedAction_newDeal {dealer : Dealer} {t : PlayingTable} {seq : Sequence} {deal : Deal}
    (h : t.syncedAction dealer seq = .newDeal deal) :
    ∃ distribution, deal = dealer t.nbPlayers distribution := by
  cases seq <;> simp only [syncedAction, reduceCtorEq] at h
  case waitForPlayers => split_ifs at h
  case waitForReady | waitForAllPassed =>
    cases h
    exact ⟨_, rfl⟩
  case waitForEndOfDeal =>
    split_ifs at h
    cases h
    exact ⟨_, rfl⟩

theorem syncedAction_ne_bid (dealer : Dealer) (t : PlayingTable) (seq : Sequence) (c : Contract)
    (slam : Bool) (p : Place) : t.syncedAction dealer seq ≠ .bid c slam p := by
  cases seq <;> simp only [syncedAction] <;> first | (split_ifs <;> simp) | simp

/-- New cards come from the dealer of the request. -/
theorem requestAction_newDeal (dealer : Dealer) (t : PlayingTable) (srcUuid : ℕ)
    (json : JsonValue) {deal : Deal} :
    t.requestAction dealer srcUuid json = .newDeal deal →
      ∃ distribution, deal = dealer t.nbPlayers distribution := by
  refine request_cases (R := fun _ a => a = .newDeal deal → ∃ distribution,
    deal = dealer t.nbPlayers distribution) dealer t srcUuid json ?_ ?_ ?_ ?_ ?_ ?_ ?_ ?_
  · rintro ⟨⟩
  · intro _ h
    unfold ackAction at h
    dsimp only at h
    split_ifs at h
    obtain ⟨distribution, hd⟩ := syncedAction_newDeal h
    exact ⟨distribution, hd.trans (by rw [nbPlayers, sync_mEngine]; rfl)⟩
  · intro _ h
    split_ifs at h
  all_goals
    intro _
    simp only [bidAction, discardAction, kingCallAction, handleAction, cardAction]
    split_ifs <;> simp

theorem action_newDeal {t : PlayingTable} {c : Call} {deal : Deal}
    (h : t.action c = .newDeal deal) :
    ∃ dealer srcUuid json distribution, c = .executeRequest dealer srcUuid json ∧
      deal = dealer t.nbPlayers distribution := by
  cases c with
  | addPlayer _ | removePlayer _ => cases h
  | executeRequest dealer srcUuid json =>
    obtain ⟨distribution, hd⟩ := requestAction_newDeal dealer t srcUuid json h
    exact ⟨dealer, srcUuid, json, distribution, rfl, hd⟩

/-- A bid comes from a `ReplyBid`. -/
theorem requestAction_bid (dealer : Dealer) (t : PlayingTable) (srcUuid : ℕ) (json : JsonValue)
    {c : Contract} {slam : Bool} {p : Place} :
    t.requestAction dealer srcUuid json = .bid c slam p →
      (json.findValue (str "cmd")).getString = str "ReplyBid" ∧
        c = Contract.ofString (json.findValue (str "contract")).getString := by
  refine request_cases (R := fun _ a => a = .bid c slam p →
    (json.findValue (str "cmd")).getString = str "ReplyBid" ∧
      c = Contract.ofString (json.findValue (str "contract")).getString)
    dealer t srcUuid json ?_ ?_ ?_ ?_ ?_ ?_ ?_ ?_
  · rintro ⟨⟩
  · intro _ h
    unfold ackAction at h
    dsimp only at h
    split_ifs at h
    exact absurd h (syncedAction_ne_bid _ _ _ _ _ _)
  · intro _ h
    split_ifs at h
  · intro hcmd h
    simp only [bidAction] at h
    split_ifs at h
    cases h
    exact ⟨hcmd, rfl⟩
  all_goals
    intro _
    simp only [discardAction, kingCallAction, handleAction, cardAction]
    split_ifs <;> simp

theorem action_bid {t : PlayingTable} {call : Call} {c : Contract} {slam : Bool} {p : Place}
    (h : t.action call = .bid c slam p) :
    ∃ dealer srcUuid json, call = .executeRequest dealer srcUuid json ∧
      (json.findValue (str "cmd")).getString = str "ReplyBid" ∧
      c = Contract.ofString (json.findValue (str "contract")).getString := by
  cases call with
  | addPlayer _ | removePlayer _ => cases h
  | executeRequest dealer srcUuid json =>
    exact ⟨dealer, srcUuid, json, rfl, requestAction_bid dealer t srcUuid json h⟩

end PlayingTable

/-- A bid names a contract. -/
def Call.NamesContract : Call → Prop
  | .executeRequest _ _ json => (json.findValue (str "cmd")).getString = str "ReplyBid" →
      Contract.ofString (json.findValue (str "contract")).getString ≠ .noAny
  | _ => True

instance : DecidablePred Call.NamesContract
  | .executeRequest _ _ _ => inferInstanceAs (Decidable (_ → _))
  | .addPlayer _ | .removePlayer _ => isTrue trivial

/-- New cards are a fair deal. -/
def Call.DealsFairly (n : ℕ) : Call → Prop
  | .executeRequest dealer _ _ => ∀ distribution, (dealer n distribution).Fair n
  | _ => True

theorem Call.NamesContract.ne_noAny {t : PlayingTable} {call : Call} (hc : call.NamesContract)
    {c : Contract} {slam : Bool} {p : Place} (h : t.action call = .bid c slam p) : c ≠ .noAny := by
  obtain ⟨dealer, srcUuid, json, rfl, hcmd, rfl⟩ := PlayingTable.action_bid h
  exact hc hcmd

theorem Call.DealsFairly.fair {t : PlayingTable} {call : Call}
    (hc : call.DealsFairly t.nbPlayers) {deal : Deal} (h : t.action call = .newDeal deal) :
    deal.Fair t.nbPlayers := by
  obtain ⟨dealer, srcUuid, json, distribution, rfl, rfl⟩ := PlayingTable.action_newDeal h
  exact hc distribution

end TarotClub
