import TarotClub.BotAnswers
import TarotClub.Discards
import TarotClub.TableAsks

namespace TarotClub

/-- The seat and the table of a client, as it was told last. -/
def PlayerContext.seat (ctx : PlayerContext) : Place × ℕ :=
  (ctx.mMyself.place, ctx.mMyself.tableId)

/-- The seat and the table behind one more message. -/
def sit (seat : Place × ℕ) (json : JsonObject) : Place × ℕ :=
  if cmdOf json = str "ReplyJoinTable" then
    (Place.ofString (textAt json "place"), (json.getKey (str "table_id")).getUInt32)
  else seat

theorem sit_of_ne {json : JsonObject} (h : cmdOf json ≠ str "ReplyJoinTable")
    (seat : Place × ℕ) : sit seat json = seat :=
  if_neg h

namespace TarotContext

theorem loadTrick_mNbPlayers (n : ℕ) (acc : Bool × ℕ × TarotContext) (text : Str) :
    (loadTrick n acc text).2.2.mNbPlayers = acc.2.2.mNbPlayers := by
  unfold loadTrick
  dsimp only
  split_ifs
  · exact Engine.setTrick_mNbPlayers acc.2.2 _ _
  · rfl

theorem loadTricks_mNbPlayers (ctx : TarotContext) (n : ℕ) (tricks : List Str) :
    (ctx.loadTricks n tricks).2.mNbPlayers = ctx.mNbPlayers := by
  have hfold : ∀ (tricks : List Str) (acc : Bool × ℕ × TarotContext),
      (tricks.foldl (loadTrick n) acc).2.2.mNbPlayers = acc.2.2.mNbPlayers := by
    intro tricks
    induction tricks with
    | nil => exact fun _ => rfl
    | cons text tricks ih =>
      intro acc
      rw [List.foldl_cons, ih, loadTrick_mNbPlayers]
  unfold loadTricks
  dsimp only
  split_ifs
  · exact hfold tricks _
  · exact hfold tricks _
  · exact hfold tricks _
  · rfl

/-- A client keeps the number of players that it began with. -/
theorem loadFromJson_mNbPlayers (ctx : TarotContext) (json : JsonValue) :
    (ctx.loadFromJson json).2.mNbPlayers = ctx.mNbPlayers := by
  unfold loadFromJson
  dsimp only
  split_ifs
  · split
    · exact loadTricks_mNbPlayers _ _ _
    · rfl
  · rfl

end TarotContext

namespace Bot

variable {script : Script} {ctx : PlayerContext} {json : JsonObject}

/-- What a bot that has handled a message keeps. -/
structure Minds (ctx : PlayerContext) (json : JsonObject)
    (result : PlayerContext × List Reply) : Prop where
  seat : result.1.seat = sit ctx.seat json
  nbPlayers : result.1.mGameState.mNbPlayers = ctx.mGameState.mNbPlayers
  length : result.2.length ≤ 2

theorem Minds.of_ne {result : PlayerContext × List Reply}
    (hcmd : cmdOf json ≠ str "ReplyJoinTable") (hself : result.1.mMyself = ctx.mMyself)
    (hgame : result.1.mGameState = ctx.mGameState) (hlength : result.2.length ≤ 2) :
    Minds ctx json result where
  seat := by
    rw [sit_of_ne hcmd, PlayerContext.seat, hself]
    rfl
  nbPlayers := by rw [hgame]
  length := hlength

theorem handleRequest_minds (script : Script) (hctx : ctx.mMyself.isConnected = true)
    (json : JsonObject) : Minds ctx json (handleRequest script ctx json) := by
  have h := handleRequest_handles script hctx json
  change Handles script ctx json (cmdOf json) _ at h
  generalize hcmd : cmdOf json = cmd at h
  generalize handleRequest script ctx json = result at h
  have hne : cmd ≠ str "ReplyJoinTable" → cmdOf json ≠ str "ReplyJoinTable" := fun hne => by
    rwa [hcmd]
  cases h with
  | acknowledge ha =>
    cases ha with
    | replyJoinTable =>
      refine ⟨?_, TarotContext.loadFromJson_mNbPlayers _ _, Nat.le_succ 1⟩
      rw [sit, if_pos hcmd, textAt, ← findValue_object (by decide), ← findValue_object (by decide)]
      rfl
    | _ => exact .of_ne (hne (by decide)) rfl rfl (Nat.le_succ 1)
  | requestBid =>
    refine .of_ne (hne (by decide)) ?_ ?_ ?_ <;> unfold handleRequestBid <;> split_ifs
    exacts [rfl, rfl, rfl, rfl, rfl, rfl, Nat.le_succ 1, Nat.le_succ 1, Nat.zero_le 2]
  | buildDiscard =>
    refine .of_ne (hne (by decide)) ?_ ?_ ?_ <;> unfold handleBuildDiscard buildDiscard <;>
      cases scriptDiscard script ctx
    exacts [rfl, rfl, rfl, rfl, le_rfl, le_rfl]
  | playCard =>
    obtain ⟨-, -, -, -, hmyself⟩ := decodePlayCard_view ctx (.object json)
    have hgame : (ctx.decodePlayCard (.object json)).mGameState = ctx.mGameState := by
      dsimp only [PlayerContext.decodePlayCard]
      split_ifs
      · rfl
      · rfl
      · rfl
    refine .of_ne (hne (by decide)) ?_ ?_ ?_ <;> unfold handlePlayCard <;> split_ifs
    exacts [hmyself, hmyself, hgame, hgame, Nat.le_succ 1, Nat.zero_le 2]
  | other hnot =>
    refine .of_ne (hne fun he => hnot ?_) rfl rfl (Nat.zero_le 2)
    rw [he]
    decide
  | askForHandle | accessGranted => exact .of_ne (hne (by decide)) rfl rfl (Nat.le_succ 1)
  | chatMessage => exact .of_ne (hne (by decide)) rfl rfl (Nat.zero_le 2)

/-- A message that tells of a step is acknowledged, to the table that the bot has behind it. -/
theorem handleRequest_step (script : Script) (hctx : ctx.mMyself.isConnected = true)
    {step : Sequence} (hstep : stepOf (cmdOf json) = step) (hne : step ≠ .badStep) :
    (handleRequest script ctx json).2 =
      [⟨[(sit ctx.seat json).2], (PlayerContext.sync step).getObj⟩] := by
  have h := handleRequest_handles script hctx json
  have hseat := (handleRequest_minds script hctx json).seat
  change Handles script ctx json (cmdOf json) _ at h
  rw [← hseat]
  generalize cmdOf json = cmd at h hstep
  generalize handleRequest script ctx json = result at h
  rw [← hstep] at hne ⊢
  cases h with
  | acknowledge ha =>
    cases ha with
    | requestKingCall => exact absurd rfl hne
    | _ => rfl
  | other hnot =>
    refine absurd ?_ hne
    have hnone : stepList.find? (fun a => a.1 = cmd) = none := by
      rw [List.find?_eq_none]
      intro a ha hcmd
      have hknown : a.1 ∈ stepList.map Prod.fst := List.mem_map_of_mem ha
      rw [decide_eq_true_eq.mp hcmd] at hknown
      exact hnot ((by decide : stepList.map Prod.fst ⊆ _) hknown)
    rw [stepOf, hnone]
    rfl
  | _ => exact absurd rfl hne

/-- A bot that is asked for its bid sends one. -/
theorem handleRequest_bid (script : Script) (hctx : ctx.mMyself.isConnected = true)
    (hcmd : cmdOf json = str "RequestBid")
    (hplace : Place.ofString (textAt json "place") = ctx.mMyself.place) :
    ∃ contract slam, (handleRequest script ctx json).2 =
      [ctx.replyToTable (PlayerContext.buildReplyBid contract slam)] := by
  rw [(handleRequest_handles script hctx json).requestBid_eq hcmd, handleRequestBid]
  have hturn : (ctx.decodeRequestBid (.object json)).mCurrentPlayer =
      (ctx.decodeRequestBid (.object json)).mMyself.place := by
    change Place.ofString ((JsonValue.object json).findValue (str "place")).getString =
      ctx.mMyself.place
    rw [findValue_object (by decide)]
    exact hplace
  rw [if_pos hturn]
  obtain ⟨slam, hreply⟩ := requestBid_reply script _
  exact ⟨_, slam, hreply⟩

theorem Handles.askForHandle_eq {result : PlayerContext × List Reply} {cmd : Str}
    (h : Handles script ctx json cmd result) (hcmd : cmd = str "AskForHandle") :
    result = (ctx, [ctx.replyToTable (PlayerContext.buildHandle {})]) := by
  cases h with
  | acknowledge ha =>
    cases ha with
    | _ => exact absurd hcmd (by decide)
  | askForHandle => rfl
  | other hnot =>
    rw [hcmd] at hnot
    exact absurd hnot (by decide)
  | _ => exact absurd hcmd (by decide)

/-- Where there are enough cards to put aside, the discard of a bot at a table of three or four is
legal, whatever its script says. -/
theorem buildDiscard_legal (script : Script) {n : ℕ} (hn : n = 3 ∨ n = 4)
    (hfour : ctx.mGameState.mNbPlayers = 4) (hnodup : (ctx.mDeck.cards + ctx.mDog.cards).Nodup)
    (henough : numberOfDogCards n ≤
      (ctx.mDeck.mDeck ++ ctx.mDog.mDeck).countP Deck.isDiscardable) :
    ∃ discard : Deck, ctx.mDeck.testDiscard discard ctx.mDog n = true ∧
      (buildDiscard script ctx).2 = [ctx.replyToTable (PlayerContext.buildDiscard discard)] := by
  have hdog : numberOfDogCards 4 = numberOfDogCards n := by
    rcases hn with rfl | rfl
    · rfl
    · rfl
  have htests : ∀ discard : Deck, ctx.mDeck.testDiscard discard ctx.mDog 4 =
      ctx.mDeck.testDiscard discard ctx.mDog n := by
    intro discard
    rw [Deck.testDiscard, Deck.testDiscard, hdog]
  unfold buildDiscard
  cases hscript : scriptDiscard script ctx with
  | some discard =>
    refine ⟨discard, ?_, rfl⟩
    unfold scriptDiscard at hscript
    split at hscript
    · dsimp only at hscript
      split_ifs at hscript with htest
      obtain rfl := Option.some.inj hscript
      rw [← htests, ← hfour]
      exact htest.2
    · cases hscript
  | none =>
    refine ⟨(ctx.mDeck.autoDiscard ctx.mDog ctx.mGameState.mNbPlayers).1, ?_, rfl⟩
    rw [hfour, ← htests]
    refine (Deck.testDiscard_autoDiscard _ _ (.inr (.inl rfl)) hnodup).mpr ?_
    rw [Deck.autoDiscard_size _ _ (.inr (.inl rfl)), min_eq_left_iff, hdog]
    exact henough

end Bot

end TarotClub
