import TarotClub.Autoplay

namespace TarotClub

open Machine

/-- The five values of the message that ends a deal. -/
structure PublishedResult where
  points : JsonValue
  oudlers : JsonValue
  littleBonus : JsonValue
  handleBonus : JsonValue
  slamBonus : JsonValue

def PublishedResult.ofMessage (message : JsonObject) : PublishedResult where
  points := message.getKey (str "points")
  oudlers := message.getKey (str "oudlers")
  littleBonus := message.getKey (str "little_bonus")
  handleBonus := message.getKey (str "handle_bonus")
  slamBonus := message.getKey (str "slam_bonus")

/-- The five fields of the points as the message has them. -/
def Points.toResult (p : Points) : PublishedResult where
  points := .integer p.pointsAttack
  oudlers := .integer p.oudlers
  littleBonus := .integer p.littleEndianOwner.value
  handleBonus := .integer p.handlePoints
  slamBonus := .boolean p.slamDone

namespace Engine

/-- What `AnalyzeGame` makes of the tricks when the game goes on. -/
def finalPoints (e : Engine) : Points := (e.gameSequence.mCtx.analyzeGame {}).1

/-- The action ends the deal. -/
def closesDeal (e : Engine) : Action → Bool
  | .gameSequence => e.gameSequence.isLastTrick
  | _ => false

theorem gameSequence_mCurrentPoints (e : Engine) :
    e.gameSequence.mCurrentPoints = e.mCurrentPoints := by
  simp only [gameSequence, isEndOfTrick]
  split_ifs <;> rfl

theorem bidSequence_mCurrentPoints (e : Engine) :
    e.bidSequence.mCurrentPoints = e.mCurrentPoints := by
  simp only [bidSequence, isEndOfTrick, manageAfterBidSequence]
  split_ifs <;> rfl

theorem startIfReady_mCurrentPoints (e : Engine) :
    e.startIfReady.mCurrentPoints = e.mCurrentPoints := by
  unfold startIfReady
  split_ifs <;> rfl

theorem newDeal_mCurrentPoints (e : Engine) (deal : Deal) :
    (e.newDeal deal).mCurrentPoints = e.mCurrentPoints := by
  unfold newDeal createDeal
  cases deal.mFirstPlayer <;> rfl

/-- The points change at the end of a deal, and nowhere else. -/
theorem act_mCurrentPoints (e : Engine) (a : Action) :
    (e.act a).mCurrentPoints = if e.closesDeal a then e.finalPoints else e.mCurrentPoints := by
  cases a
  case gameSequence =>
    rw [act, playOn, closesDeal]
    split_ifs
    · rfl
    · exact gameSequence_mCurrentPoints e
  all_goals simp only [closesDeal, Bool.false_eq_true, if_false]
  case newDeal deal => exact newDeal_mCurrentPoints e deal
  case bidSequence =>
    rw [act, startIfReady_mCurrentPoints, bidSequence_mCurrentPoints]
  case manageAfterBid => rw [act, startIfReady_mCurrentPoints]; rfl
  case discard cards => rw [act, setDiscard]; split_ifs <;> rfl
  case kingCall c => rw [act, setKingCalled]; split_ifs <;> rfl
  case handle cards p => rw [act, setHandle]; split_ifs <;> rfl
  case card c p => rw [act, setCard]; split_ifs <;> rfl
  all_goals rfl

end Engine

/-- The result that the messages of a response publish. -/
def Response.published (r : Response) : Option PublishedResult :=
  (r.out.find? fun m => (m.data.getKey (str "cmd")).getString = str "EndOfDeal").map
    fun m => .ofMessage m.data

namespace PlayingTable

theorem published_of_ne {r : Response}
    (h : ∀ m ∈ r.out, (m.data.getKey (str "cmd")).getString ≠ str "EndOfDeal") :
    r.published = none := by
  rw [Response.published, List.find?_eq_none.mpr fun m hm => by simpa using h m hm]
  rfl

/-- The step of the game publishes the points as they were before the deal is scored. -/
theorem gameSequence_published (t : PlayingTable) : t.gameSequence.published =
    if t.mEngine.closesDeal .gameSequence then some t.mEngine.mCurrentPoints.toResult
    else none := by
  rw [Engine.closesDeal]
  cases h : t.mEngine.gameSequence.isLastTrick
  · simp only [gameSequence, h, Bool.false_eq_true, if_false]
    split <;> rfl
  · simp only [gameSequence, h, if_true, Engine.getCurrentGamePoints,
      Engine.gameSequence_mCurrentPoints]
    rfl

theorem newDeal_published (dealer : Dealer) (t : PlayingTable) :
    (t.newDeal dealer).published = none := by
  refine published_of_ne fun m hm => ?_
  obtain ⟨i, -, rfl⟩ := List.mem_map.mp hm
  exact (by decide : str "NewDeal" ≠ str "EndOfDeal")

theorem sendNextBidSequence_published (t : PlayingTable) :
    t.sendNextBidSequence.published = none := by
  unfold sendNextBidSequence
  split <;> rfl

/-- What a response says about the end of a deal, for the action of the engine behind it. -/
structure TellsEnd (e : Engine) (r : Response) (a : Engine.Action) : Prop where
  published : r.published =
    if e.closesDeal a then some e.mCurrentPoints.toResult else none
  scored : r.isEndOfDeal = true → a.isRestart = true

/-- A response without any news of the end of a deal. -/
theorem TellsEnd.silent {e : Engine} {r : Response} {a : Engine.Action}
    (hp : r.published = none) (hs : r.isEndOfDeal = false) (ha : a ≠ .gameSequence) :
    TellsEnd e r a where
  published := by
    rw [hp]
    cases a <;> first | rfl | exact absurd rfl ha
  scored := fun h => absurd (hs.symm.trans h) Bool.false_ne_true

theorem gameSequence_tellsEnd (t : PlayingTable) :
    TellsEnd t.mEngine t.gameSequence .gameSequence where
  published := gameSequence_published t
  scored := fun h => by
    simp only [gameSequence] at h
    split_ifs at h
    split at h <;> exact absurd h Bool.false_ne_true

theorem sendNextBidSequence_isEndOfDeal (t : PlayingTable) :
    t.sendNextBidSequence.isEndOfDeal = false := by
  unfold sendNextBidSequence
  split <;> rfl

theorem endOfDeal_published (dealer : Dealer) (t : PlayingTable) :
    (t.endOfDeal dealer).published = none := by
  simp only [endOfDeal]
  split_ifs
  · exact newDeal_published dealer _
  · rfl

theorem allSynced_tellsEnd (dealer : Dealer) (t : PlayingTable) (seq : Sequence) :
    TellsEnd t.mEngine (t.allSynced dealer seq) (t.syncedAction dealer seq) := by
  cases seq
  case waitForPlayers =>
    simp only [allSynced, syncedAction]
    split_ifs
    · exact .silent rfl rfl (by simp)
    · exact .silent rfl rfl (by simp)
  case waitForReady | waitForAllPassed =>
    exact .silent (newDeal_published dealer t) rfl (by simp [syncedAction])
  case waitForCards | waitForShowBid | waitForShowKingCall =>
    exact .silent (sendNextBidSequence_published _) (sendNextBidSequence_isEndOfDeal _)
      (by simp [syncedAction])
  case waitForStartDeal | waitForShowHandle | waitForShowCard | waitForEndOfTrick =>
    exact gameSequence_tellsEnd t
  case waitForEndOfDeal =>
    have hrestart : (t.syncedAction dealer .waitForEndOfDeal).isRestart = true := by
      simp only [syncedAction]
      split_ifs <;> rfl
    refine ⟨?_, fun _ => hrestart⟩
    have hnot : t.mEngine.closesDeal (t.syncedAction dealer .waitForEndOfDeal) = false := by
      simp only [syncedAction]
      split_ifs <;> rfl
    rw [hnot]
    exact endOfDeal_published dealer t
  all_goals exact .silent rfl rfl (by simp [syncedAction])

/-- An answer that is no step of the game is silent. -/
theorem answers_tellsEnd (t : PlayingTable) (srcUuid : ℕ) (json : JsonValue) :
    TellsEnd t.mEngine (t.executeDiscard srcUuid json) (t.discardAction srcUuid json) ∧
      TellsEnd t.mEngine (t.executeReplyKingCall srcUuid json) (t.kingCallAction srcUuid json) ∧
      TellsEnd t.mEngine (t.executeCard srcUuid json) (t.cardAction srcUuid json) := by
  refine ⟨.silent ?_ ?_ ?_, .silent ?_ ?_ ?_, .silent ?_ ?_ ?_⟩ <;>
    simp only [executeDiscard, discardAction, executeReplyKingCall, kingCallAction, executeCard,
      cardAction] <;> split_ifs <;> first | rfl | simp

theorem executeHandle_tellsEnd (t : PlayingTable) (srcUuid : ℕ) (json : JsonValue) :
    TellsEnd t.mEngine (t.executeHandle srcUuid json) (t.handleAction srcUuid json) := by
  unfold executeHandle handleAction
  by_cases hturn : t.mEngine.mSequence = .waitForHandle ∧
      t.mEngine.mCurrentPlayer = t.getPlayerPlace srcUuid
  · cases htest : (t.mEngine.mPlayers (t.getPlayerPlace srcUuid).value).testHandle
        (Deck.ofString (json.findValue (str "handle")).getString)
    · simp only [if_pos hturn, htest, Bool.false_eq_true, if_false, Engine.setHandle]
      exact gameSequence_tellsEnd t
    · simp only [if_pos hturn, htest, if_true, Engine.setHandle]
      exact .silent rfl rfl (by simp)
  · rw [if_neg hturn, if_neg hturn]
    exact .silent rfl rfl (by simp)

/-- Whether a request closes a deal, publishes its result or has it scored. -/
theorem executeRequest_tellsEnd (dealer : Dealer) (t : PlayingTable) (srcUuid : ℕ)
    (json : JsonValue) : TellsEnd t.mEngine (t.executeRequest dealer srcUuid json)
      (t.requestAction dealer srcUuid json) := by
  refine request_cases (R := TellsEnd t.mEngine) dealer t srcUuid json (.silent rfl rfl (by simp))
    (fun _ => ?_) (fun _ => ?_) (fun _ => ?_) (fun _ => ?_) (fun _ => ?_) (fun _ => ?_)
    (fun _ => ?_)
  · simp only [executeAck, ackAction]
    generalize ackFromString (json.findValue (str "step")).getString = seq
    by_cases hp : t.getPlayerPlace srcUuid ≠ .nowhere
    · by_cases hs : seq = .badStep
      · simpa [hp, hs] using TellsEnd.silent rfl rfl (by simp)
      · cases hf : (t.sync seq srcUuid).1
        · simpa [hp, hs, hf] using TellsEnd.silent rfl rfl (by simp)
        · have h := allSynced_tellsEnd dealer (t.sync seq srcUuid).2 seq
          rw [sync_mEngine] at h
          simpa [hp, hs, hf] using h
    · simpa [hp] using TellsEnd.silent rfl rfl (by simp)
  · unfold executeNewGame
    split_ifs
    · exact .silent rfl rfl (by simp)
    · exact .silent rfl rfl (by simp)
  · simp only [executeReplyBid, bidAction]
    split_ifs
    · exact .silent rfl rfl (by simp)
    · exact .silent rfl rfl (by simp)
  · exact (answers_tellsEnd t srcUuid json).1
  · exact (answers_tellsEnd t srcUuid json).2.1
  · exact executeHandle_tellsEnd t srcUuid json
  · exact (answers_tellsEnd t srcUuid json).2.2

/-! Runs of a table with a log of the deals that it closes. -/

/-- The result of a deal as `AnalyzeGame` finds it, as the table publishes it and, when the
players have acknowledged it, as it goes into the score. -/
structure DealRecord where
  result : Points
  published : PublishedResult
  scored : Option Points := none

def response (t : PlayingTable) : Call → Response
  | .executeRequest dealer srcUuid json => t.executeRequest dealer srcUuid json
  | c => { table := t.apply c }

/-- The points handed to `AddPoints`: those the engine holds when `EndOfDeal` is called. -/
def scored (t : PlayingTable) (c : Call) : Option Points :=
  if (t.response c).isEndOfDeal then some t.mEngine.getCurrentGamePoints else none

/-- The log, the last deal first. -/
def noteDeal (t : PlayingTable) (c : Call) (log : List DealRecord) : List DealRecord :=
  match (t.response c).published, t.scored c, log with
  | some published, _, log => { result := t.mEngine.finalPoints, published } :: log
  | none, some p, record :: log => { record with scored := some p } :: log
  | none, _, log => log

/-- The log of a run. -/
def dealLog (t : PlayingTable) (cs : List Call) : List DealRecord :=
  (run (observe apply noteDeal) (t, []) cs).2

/-- The result of the deal before, or what the table had before the first one. -/
def lastResult (first : Points) : List DealRecord → Points
  | [] => first
  | record :: _ => record.result

/-- Every deal is published with the result of the deal before and scored with its own. -/
def Lagging (first : Points) : List DealRecord → Prop
  | [] => True
  | record :: older => record.published = (lastResult first older).toResult ∧
      (∀ p, record.scored = some p → p = record.result) ∧ Lagging first older

theorem response_tellsEnd (t : PlayingTable) (c : Call) :
    TellsEnd t.mEngine (t.response c) (t.action c) := by
  cases c with
  | executeRequest dealer srcUuid json => exact executeRequest_tellsEnd dealer t srcUuid json
  | addPlayer _ | removePlayer _ => exact .silent rfl rfl (by simp [action])

theorem Lagging.noteDeal {first : Points} {t : PlayingTable} {log : List DealRecord}
    (h : Lagging first log) (hlast : t.mEngine.mCurrentPoints = lastResult first log) (c : Call) :
    Lagging first (t.noteDeal c log) ∧
      (t.apply c).mEngine.mCurrentPoints = lastResult first (t.noteDeal c log) := by
  have htells := response_tellsEnd t c
  rw [apply_mEngine, Engine.act_mCurrentPoints]
  unfold PlayingTable.noteDeal
  rw [htells.published, scored]
  cases hcloses : t.mEngine.closesDeal (t.action c) with
  | true =>
    refine ⟨⟨?_, ?_, h⟩, rfl⟩
    · rw [hlast]
    · intro p hp
      exact absurd hp (by simp)
  | false =>
    simp only [Bool.false_eq_true, if_false]
    cases hscored : (t.response c).isEndOfDeal with
    | false => exact ⟨h, hlast⟩
    | true =>
      cases log with
      | nil => exact ⟨h, hlast⟩
      | cons record older =>
        refine ⟨⟨h.1, fun p hp => ?_, h.2.2⟩, hlast⟩
        cases hp
        exact hlast

theorem Lagging.of_suffix {first : Points} {record : DealRecord} {older log : List DealRecord}
    (h : Lagging first log) (hs : record :: older <:+ log) : Lagging first (record :: older) := by
  induction log with
  | nil => exact absurd (List.suffix_nil.mp hs) (by simp)
  | cons newer log ih =>
    rcases List.suffix_cons_iff.mp hs with he | hs
    · rw [he]
      exact h
    · exact ih h.2.2 hs

theorem lagging_dealLog (t : PlayingTable) (cs : List Call) :
    Lagging t.mEngine.mCurrentPoints (t.dealLog cs) := by
  let Inv (q : PlayingTable × List DealRecord) : Prop := Lagging t.mEngine.mCurrentPoints q.2 ∧
    q.1.mEngine.mCurrentPoints = lastResult t.mEngine.mCurrentPoints q.2
  have hrun : Inv (run (observe PlayingTable.apply noteDeal) (t, []) cs) :=
    run_invariant Inv (fun q c h => h.1.noteDeal h.2 c) (s := (t, [])) ⟨trivial, rfl⟩ cs
  exact hrun.1

/-- The first deal of a run is published with the points from before the run. -/
theorem published_of_dealLog_eq {t : PlayingTable} {cs : List Call} {record : DealRecord}
    (h : t.dealLog cs = [record]) : record.published = t.mEngine.mCurrentPoints.toResult :=
  (h ▸ lagging_dealLog t cs : Lagging _ [record]).1

/-- In every run of a table, a deal that is scored has been published with the values that go
into the score if and only if they are the values of the deal that the table closed before it
(for the first deal, of the points the table began with). -/
theorem published_eq_scored_iff (t : PlayingTable) (cs : List Call) {record : DealRecord}
    {older : List DealRecord} (hlog : record :: older <:+ t.dealLog cs) {p : Points}
    (hscored : record.scored = some p) :
    record.published = p.toResult ↔
      record.result.toResult = (lastResult t.mEngine.mCurrentPoints older).toResult := by
  obtain ⟨hpublished, hresult, -⟩ := (lagging_dealLog t cs).of_suffix hlog
  rw [hpublished, hresult p hscored]
  exact eq_comm

/-- Three players who have played a deal to its last card. -/
def lastCardPlayed : PlayingTable :=
  run apply threePlayers
    (answers apply (nextCalls plainDealer .guardWithout [7, 8, 9]) 179 threePlayers)

theorem lastCardPlayed_reachable : lastCardPlayed.Reachable :=
  ((Reachable.create {} 3 .south (by decide)).run _).run _

/-- They look at the last card and at the result. -/
def lastCalls : List Call :=
  everyone plainDealer [7, 8, 9] .waitForShowCard ++
    everyone plainDealer [7, 8, 9] .waitForEndOfDeal

/-- The deal is scored, and the taker has the three oudlers; no deal was played before it. -/
theorem lastCalls_scored : lastCardPlayed.mEngine.mCurrentPoints = {} ∧
    (lastCardPlayed.dealLog lastCalls).map (fun record => record.scored.map (·.oudlers)) =
      [some 3] ∧ (run apply lastCardPlayed lastCalls).mScore.dealCounter = 1 := by
  refine of_decide_eq_true ?_
  rw [lastCardPlayed, ← play_eq apply _ _ _ fun t : PlayingTable =>
    decide (t.mEngine.mCurrentPoints = {} ∧
      (t.dealLog lastCalls).map (fun record => record.scored.map (·.oudlers)) = [some 3] ∧
        (run apply t lastCalls).mScore.dealCounter = 1)]
  decide +kernel

theorem lastCalls_dealLog : ∃ record, ∃ p : Points,
    lastCardPlayed.dealLog lastCalls = [record] ∧ record.scored = some p ∧ p.oudlers = 3 := by
  have h := lastCalls_scored.2.1
  generalize lastCardPlayed.dealLog lastCalls = log at h ⊢
  obtain ⟨record, rfl⟩ : ∃ record, log = [record] := by
    refine List.length_eq_one_iff.mp ?_
    rw [← List.length_map (fun record : DealRecord => record.scored.map (·.oudlers)), h]
    rfl
  obtain ⟨p, hp, h3⟩ := Option.map_eq_some_iff.mp (List.singleton_inj.mp h)
  exact ⟨record, p, rfl, hp, h3⟩

/-- The players are told of the points from before the deal: no oudlers, where three are
scored. -/
theorem published_before_scored : lastCardPlayed.Reachable ∧
    ¬ ∀ record ∈ lastCardPlayed.dealLog lastCalls, ∀ p, record.scored = some p →
      record.published = p.toResult := by
  refine ⟨lastCardPlayed_reachable, fun hall => ?_⟩
  obtain ⟨record, p, hlog, hp, h3⟩ := lastCalls_dealLog
  have heq := hall record (hlog ▸ List.mem_singleton_self record) p hp
  rw [published_of_dealLog_eq hlog, lastCalls_scored.1] at heq
  have houdlers := congrArg PublishedResult.oudlers heq
  simp [Points.toResult, h3] at houdlers

/-- The results of the deal are not those that the table began with. -/
theorem published_eq_scored_iff_three : ∃ record, ∃ p : Points,
    lastCardPlayed.dealLog lastCalls = [record] ∧ record.scored = some p ∧
      record.published ≠ p.toResult := by
  obtain ⟨record, p, hlog, hp, h3⟩ := lastCalls_dealLog
  have hfirst := lastCalls_scored.1
  refine ⟨record, p, hlog, hp, ?_⟩
  generalize lastCardPlayed = t at hlog hfirst
  generalize lastCalls = cs at hlog
  have hs : [record] <:+ t.dealLog cs := hlog ▸ List.suffix_rfl
  have hresult := ((lagging_dealLog t cs).of_suffix hs).2.1 p hp
  rw [Ne, published_eq_scored_iff t cs hs hp, lastResult, hfirst, ← hresult]
  intro heq
  have houdlers := congrArg PublishedResult.oudlers heq
  simp [Points.toResult, h3] at houdlers

end PlayingTable

end TarotClub
