import TarotClub.Bot
import TarotClub.DealRun
import TarotClub.LegalPlay

namespace TarotClub

/-- The part of a client's context that the play depends on. -/
structure View where
  place : Place
  hand : List Card
  dog : List Card
  trick : List Card

def PlayerContext.view (ctx : PlayerContext) : View where
  place := ctx.mMyself.place
  hand := ctx.mDeck.mDeck
  dog := ctx.mDog.mDeck
  trick := ctx.mCurrentTrick.mDeck

/-- The command of a message. -/
def cmdOf (json : JsonObject) : Str := (json.getKey (str "cmd")).getString

/-- The text under a key of a message. -/
def textAt (json : JsonObject) (key : String) : Str := (json.getKey (str key)).getString

namespace View

/-- The view behind one more message that asks for no answer. -/
def look (v : View) (json : JsonObject) : View :=
  if cmdOf json = str "ReplyJoinTable" then
    { v with
      place := Place.ofString (textAt json "place")
      hand := (Deck.ofString (textAt json "deck")).mDeck }
  else if cmdOf json = str "NewDeal" then
    { v with hand := (Deck.ofString (textAt json "cards")).mDeck }
  else if cmdOf json = str "ShowDog" then
    { v with dog := (Deck.ofString (textAt json "dog")).mDeck }
  else if cmdOf json = str "StartDeal" then { v with trick := [] }
  else if cmdOf json = str "EndOfTrick" then { v with trick := [] }
  else if cmdOf json = str "ShowCard" then
    { v with trick := v.trick ++ [Card.ofString (textAt json "card")] }
  else v

/-- The view behind the messages that wait. -/
def after (v : View) (msgs : List JsonObject) : View := msgs.foldl look v

end View

/-- The player at this seat has to answer with a card or with a discard. -/
def Asks (p : Place) (json : JsonObject) : Prop :=
  cmdOf json = str "BuildDiscard" ∨
    cmdOf json = str "PlayCard" ∧ Place.ofString (textAt json "place") = p

/-- None of the messages that wait asks the player for an answer. -/
def Quiet : View → List JsonObject → Prop
  | _, [] => True
  | v, m :: msgs => ¬ Asks v.place m ∧ Quiet (v.look m) msgs

/-- A card or a discard. -/
def Reply.isAnswer (reply : Reply) : Bool :=
  cmdOf reply.data = str "Card" || cmdOf reply.data = str "Discard"

/-- The commands that a view depends on. -/
def viewCommands : List Str :=
  [str "ReplyJoinTable", str "NewDeal", str "ShowDog", str "StartDeal", str "EndOfTrick",
    str "ShowCard", str "BuildDiscard", str "PlayCard"]

/-- A message that tells nothing about the play. -/
def Idle (json : JsonObject) : Prop := cmdOf json ∉ viewCommands

theorem idle_of_cmd {json : JsonObject} (cmd : Str) (hcmd : cmdOf json = cmd)
    (h : cmd ∉ viewCommands) : Idle json := by
  rw [Idle, hcmd]
  exact h

namespace View

theorem look_of_idle {json : JsonObject} (h : Idle json) (v : View) : v.look json = v := by
  simp only [Idle, viewCommands, List.mem_cons, List.not_mem_nil, or_false, not_or] at h
  obtain ⟨h0, h1, h2, h3, h4, h5, -⟩ := h
  rw [look, if_neg h0, if_neg h1, if_neg h2, if_neg h3, if_neg h4, if_neg h5]

/-- What asks for an answer tells nothing by itself. -/
theorem look_of_asks {json : JsonObject}
    (h : cmdOf json ∈ [str "BuildDiscard", str "PlayCard"]) (v : View) : v.look json = v := by
  have hne : ∀ cmd ∈ [str "BuildDiscard", str "PlayCard"], cmd ≠ str "ReplyJoinTable" ∧
      cmd ≠ str "NewDeal" ∧ cmd ≠ str "ShowDog" ∧ cmd ≠ str "StartDeal" ∧
      cmd ≠ str "EndOfTrick" ∧ cmd ≠ str "ShowCard" := by
    decide
  obtain ⟨h0, h1, h2, h3, h4, h5⟩ := hne _ h
  rw [look, if_neg h0, if_neg h1, if_neg h2, if_neg h3, if_neg h4, if_neg h5]

variable {json : JsonObject} (v : View)

theorem look_newDeal (h : cmdOf json = str "NewDeal") :
    v.look json = { v with hand := (Deck.ofString (textAt json "cards")).mDeck } := by
  rw [look, h, if_neg (by decide), if_pos rfl]

theorem look_showDog (h : cmdOf json = str "ShowDog") :
    v.look json = { v with dog := (Deck.ofString (textAt json "dog")).mDeck } := by
  rw [look, h, if_neg (by decide), if_neg (by decide), if_pos rfl]

theorem look_startDeal (h : cmdOf json = str "StartDeal") :
    v.look json = { v with trick := [] } := by
  rw [look, h, if_neg (by decide), if_neg (by decide), if_neg (by decide), if_pos rfl]

theorem look_endOfTrick (h : cmdOf json = str "EndOfTrick") :
    v.look json = { v with trick := [] } := by
  rw [look, h, if_neg (by decide), if_neg (by decide), if_neg (by decide), if_neg (by decide),
    if_pos rfl]

theorem look_showCard (h : cmdOf json = str "ShowCard") :
    v.look json = { v with trick := v.trick ++ [Card.ofString (textAt json "card")] } := by
  rw [look, h, if_neg (by decide), if_neg (by decide), if_neg (by decide), if_neg (by decide),
    if_neg (by decide), if_pos rfl]

theorem after_of_idle {msgs : List JsonObject} (h : ∀ m ∈ msgs, Idle m) : v.after msgs = v := by
  induction msgs with
  | nil => rfl
  | cons m msgs ih =>
    have hm := look_of_idle (h m List.mem_cons_self) v
    have hrest := ih fun m' hm' => h m' (List.mem_cons_of_mem m hm')
    calc v.after (m :: msgs) = (v.look m).after msgs := rfl
      _ = v.after msgs := by rw [hm]
      _ = v := hrest

theorem after_append (msgs msgs' : List JsonObject) :
    v.after (msgs ++ msgs') = (v.after msgs).after msgs' := List.foldl_append

end View

theorem not_asks_of_idle {json : JsonObject} (h : Idle json) (p : Place) : ¬ Asks p json := by
  simp only [Idle, viewCommands, List.mem_cons, List.not_mem_nil, or_false, not_or] at h
  rintro (hcmd | ⟨hcmd, -⟩)
  · exact h.2.2.2.2.2.2.1 hcmd
  · exact h.2.2.2.2.2.2.2 hcmd

/-- A message asks nobody when its command is neither of the two. -/
theorem not_asks_of_ne {json : JsonObject} (hdiscard : cmdOf json ≠ str "BuildDiscard")
    (hplay : cmdOf json ≠ str "PlayCard") (p : Place) : ¬ Asks p json := by
  rintro (hcmd | ⟨hcmd, -⟩)
  · exact hdiscard hcmd
  · exact hplay hcmd

theorem quiet_of_idle {msgs : List JsonObject} (h : ∀ m ∈ msgs, Idle m) (v : View) :
    Quiet v msgs := by
  induction msgs generalizing v with
  | nil => trivial
  | cons m msgs ih =>
    exact ⟨not_asks_of_idle (h m List.mem_cons_self) v.place,
      ih (fun m' hm' => h m' (List.mem_cons_of_mem m hm')) _⟩

theorem quiet_append {msgs msgs' : List JsonObject} {v : View} :
    Quiet v (msgs ++ msgs') ↔ Quiet v msgs ∧ Quiet (v.after msgs) msgs' := by
  induction msgs generalizing v with
  | nil => exact ⟨fun h => ⟨trivial, h⟩, fun h => h.2⟩
  | cons m msgs ih =>
    constructor
    · intro h
      obtain ⟨hquiet, hrest⟩ := ih.mp h.2
      exact ⟨⟨h.1, hquiet⟩, hrest⟩
    · intro h
      exact ⟨h.1.1, ih.mpr ⟨h.1.2, h.2⟩⟩

namespace Bot

variable {script : Script} {ctx : PlayerContext} {json : JsonObject}

theorem handleRequestBid_view (script : Script) (ctx : PlayerContext) :
    (handleRequestBid script ctx).1.view = ctx.view ∧
      ∀ reply ∈ (handleRequestBid script ctx).2, reply.isAnswer = false := by
  unfold handleRequestBid
  split_ifs
  · exact ⟨by unfold requestBid; rfl, fun reply h => List.mem_singleton.mp h ▸ rfl⟩
  · exact ⟨by unfold requestBid; rfl, fun reply h => List.mem_singleton.mp h ▸ rfl⟩
  · exact ⟨rfl, fun reply h => absurd h List.not_mem_nil⟩

theorem decodePlayCard_view (ctx : PlayerContext) (msg : JsonValue) :
    (ctx.decodePlayCard msg).view = ctx.view ∧
      (ctx.decodePlayCard msg).mCurrentPlayer =
        Place.ofString (msg.findValue (str "place")).getString ∧
      (ctx.decodePlayCard msg).mDeck = ctx.mDeck ∧
      (ctx.decodePlayCard msg).mCurrentTrick = ctx.mCurrentTrick ∧
      (ctx.decodePlayCard msg).mMyself = ctx.mMyself := by
  dsimp only [PlayerContext.decodePlayCard]
  split_ifs
  · exact ⟨rfl, rfl, rfl, rfl, rfl⟩
  · exact ⟨rfl, rfl, rfl, rfl, rfl⟩
  · exact ⟨rfl, rfl, rfl, rfl, rfl⟩

/-- A message that asks the bot for nothing changes its view in one way, and no answer is sent. -/
theorem handleRequest_look (script : Script) (hctx : ctx.mMyself.isConnected = true)
    (hasks : ¬ Asks ctx.view.place json) :
    (handleRequest script ctx json).1.view = ctx.view.look json ∧
      ∀ reply ∈ (handleRequest script ctx json).2, reply.isAnswer = false := by
  have h := handleRequest_handles script hctx json
  have hidle : ∀ {cmd : Str}, cmd ∉ viewCommands → cmdOf json = cmd →
      ctx.view.look json = ctx.view := fun hcmd he =>
    View.look_of_idle (show cmdOf json ∉ viewCommands from he.symm ▸ hcmd) _
  have hsync : ∀ (ctx' : PlayerContext) (step : Sequence),
      ∀ reply ∈ sync ctx' step, reply.isAnswer = false :=
    fun ctx' step reply hmem => List.mem_singleton.mp hmem ▸ rfl
  change Handles script ctx json (cmdOf json) _ at h
  generalize hcmd : cmdOf json = cmd at h
  generalize handleRequest script ctx json = result at h
  cases h with
  | acknowledge ha =>
    refine ⟨?_, hsync _ _⟩
    cases ha with
    | replyJoinTable =>
      rw [View.look, if_pos hcmd, textAt, textAt, ← findValue_object (by decide),
        ← findValue_object (by decide)]
      rfl
    | newDeal =>
      rw [View.look, hcmd, if_neg (by decide), if_pos rfl, textAt, ← findValue_object (by decide)]
      rfl
    | showDog =>
      rw [View.look, hcmd, if_neg (by decide), if_neg (by decide), if_pos rfl, textAt,
        ← findValue_object (by decide)]
      rfl
    | startDeal =>
      rw [View.look, hcmd, if_neg (by decide), if_neg (by decide), if_neg (by decide), if_pos rfl]
      rfl
    | endOfTrick =>
      rw [View.look, hcmd, if_neg (by decide), if_neg (by decide), if_neg (by decide),
        if_neg (by decide), if_pos rfl]
      rfl
    | showCard =>
      rw [View.look, hcmd, if_neg (by decide), if_neg (by decide), if_neg (by decide),
        if_neg (by decide), if_neg (by decide), if_pos rfl, textAt, ← findValue_object (by decide)]
      rfl
    | _ =>
      rw [hidle (by decide) hcmd]
      rfl
  | requestBid =>
    obtain ⟨hview, hreplies⟩ :=
      handleRequestBid_view script (ctx.decodeRequestBid (.object json))
    exact ⟨hview.trans (hidle (by decide) hcmd).symm, hreplies⟩
  | buildDiscard => exact absurd (.inl hcmd) hasks
  | playCard =>
    obtain ⟨hview, hplace, -, -, hmyself⟩ := decodePlayCard_view ctx (.object json)
    have hturn : ¬ (ctx.decodePlayCard (.object json)).isMyTurn = true := by
      rw [PlayerContext.isMyTurn, decide_eq_true_iff, hplace, hmyself, findValue_object (by decide)]
      exact fun h => hasks (.inr ⟨hcmd, h⟩)
    rw [handlePlayCard, if_neg hturn, View.look_of_asks (by rw [hcmd]; decide)]
    exact ⟨hview, fun reply hmem => absurd hmem List.not_mem_nil⟩
  | askForHandle =>
    rw [hidle (by decide) hcmd]
    exact ⟨rfl, fun reply hmem => List.mem_singleton.mp hmem ▸ rfl⟩
  | accessGranted =>
    rw [hidle (by decide) hcmd]
    exact ⟨rfl, fun reply hmem => List.mem_singleton.mp hmem ▸ rfl⟩
  | chatMessage =>
    rw [hidle (by decide) hcmd]
    exact ⟨rfl, fun reply hmem => absurd hmem List.not_mem_nil⟩
  | other hnot =>
    have hviewed : cmd ∉ viewCommands := fun hmem =>
      hnot ((by decide : viewCommands ⊆ _) hmem)
    exact ⟨(hidle hviewed hcmd).symm, fun reply hmem => absurd hmem List.not_mem_nil⟩

theorem Handles.playCard_eq {result : PlayerContext × List Reply} {cmd : Str}
    (h : Handles script ctx json cmd result) (hcmd : cmd = str "PlayCard") :
    result = handlePlayCard (ctx.decodePlayCard (.object json)) := by
  cases h with
  | acknowledge ha =>
    cases ha with
    | _ => exact absurd hcmd (by decide)
  | playCard => rfl
  | other hnot =>
    rw [hcmd] at hnot
    exact absurd hnot (by decide)
  | _ => exact absurd hcmd (by decide)

theorem Handles.buildDiscard_eq {result : PlayerContext × List Reply} {cmd : Str}
    (h : Handles script ctx json cmd result) (hcmd : cmd = str "BuildDiscard") :
    result = handleBuildDiscard script ctx := by
  cases h with
  | acknowledge ha =>
    cases ha with
    | _ => exact absurd hcmd (by decide)
  | buildDiscard => rfl
  | other hnot =>
    rw [hcmd] at hnot
    exact absurd hnot (by decide)
  | _ => exact absurd hcmd (by decide)

/-- In its turn the bot plays the card of its choice, which leaves its hand. -/
theorem handleRequest_playCard (script : Script) (hctx : ctx.mMyself.isConnected = true)
    (hcmd : cmdOf json = str "PlayCard")
    (hplace : Place.ofString (textAt json "place") = ctx.view.place) :
    (handleRequest script ctx json).1.view =
        { ctx.view with hand := ctx.view.hand.filter fun c => c ≠ ctx.chooseRandomCard } ∧
      (handleRequest script ctx json).2 =
        [ctx.replyToTable (PlayerContext.buildSendCard ctx.chooseRandomCard)] := by
  obtain ⟨hview, hcurrent, hdeck, htrick, hmyself⟩ := decodePlayCard_view ctx (.object json)
  have hturn : (ctx.decodePlayCard (.object json)).isMyTurn = true := by
    rw [PlayerContext.isMyTurn, decide_eq_true_iff, hcurrent, hmyself, findValue_object (by decide)]
    exact hplace
  have hchoice : (ctx.decodePlayCard (.object json)).chooseRandomCard = ctx.chooseRandomCard := by
    unfold PlayerContext.chooseRandomCard PlayerContext.isValid
    rw [hdeck, htrick]
  rw [(handleRequest_handles script hctx json).playCard_eq hcmd, handlePlayCard, if_pos hturn,
    hchoice]
  generalize ctx.decodePlayCard (.object json) = played at hview hmyself
  constructor
  · rw [← hview]
    change View.mk _ ((played.mDeck.mDeck.filter _).filter _) _ _ = _
    rw [List.filter_filter]
    simp only [Bool.and_self]
    rfl
  · simp only [sendCard, PlayerContext.replyToTable, hmyself]

/-- What is put aside comes from the cards that are looked through. -/
theorem mem_gatherDiscard {enough : ℕ} {c : Card} (l : List Card) (discard : Deck)
    (h : c ∈ (PlayerContext.gatherDiscard enough discard l).mDeck) : c ∈ discard.mDeck ∨ c ∈ l := by
  induction l generalizing discard with
  | nil => exact .inl h
  | cons x l ih =>
    have happend : c ∈ (discard.appendCard x).mDeck → c ∈ discard.mDeck ∨ c ∈ x :: l := by
      intro hmem
      rcases List.mem_append.mp hmem with hmem | hmem
      · exact .inl hmem
      · exact .inr (List.mem_singleton.mp hmem ▸ List.mem_cons_self)
    rw [PlayerContext.gatherDiscard] at h
    dsimp only at h
    split_ifs at h
    · exact happend h
    · rcases ih _ h with hmem | hmem
      · exact happend hmem
      · exact .inr (List.mem_cons_of_mem x hmem)
    · rcases ih _ h with hmem | hmem
      · exact .inl hmem
      · exact .inr (List.mem_cons_of_mem x hmem)

/-- The discard of the bot, by its script or not, is put aside from its hand and the dog. -/
theorem buildDiscard_spec (script : Script) (ctx : PlayerContext) :
    ∃ discard : Deck, (∀ c ∈ discard.mDeck, c ∈ ctx.view.hand ++ ctx.view.dog) ∧
      (buildDiscard script ctx).1.view =
        { ctx.view with
          hand := (ctx.view.hand ++ ctx.view.dog).filter fun c => c ∉ discard.mDeck } ∧
      (buildDiscard script ctx).1.mMyself = ctx.mMyself ∧
      (buildDiscard script ctx).2 = [ctx.replyToTable (PlayerContext.buildDiscard discard)] := by
  unfold buildDiscard
  cases hscript : scriptDiscard script ctx with
  | some discard =>
    refine ⟨discard, ?_, ?_, rfl, rfl⟩
    · have htest : ctx.testDiscard discard = true := by
        unfold scriptDiscard at hscript
        split at hscript
        · dsimp only at hscript
          split_ifs at hscript with htest
          rw [← Option.some.inj hscript]
          exact htest.2
        · cases hscript
      have hle := (Engine.testDiscard_le htest).2
      intro c hc
      exact List.mem_append.mpr (Multiset.mem_add.mp (Multiset.mem_of_le hle hc))
    · dsimp only [PlayerContext.view]
      rw [Deck.removeDuplicates_mDeck]
      rfl
  | none =>
    refine ⟨_, fun c hc => ?_, ?_, rfl, rfl⟩
    · rcases mem_gatherDiscard _ _ hc with hmem | hmem
      · exact absurd hmem List.not_mem_nil
      · exact hmem
    · dsimp only [PlayerContext.view, PlayerContext.autoDiscard]
      rw [Deck.removeDuplicates_mDeck]
      rfl

/-- A taker that is asked for a discard puts cards aside, and acknowledges a step that there is
not. -/
theorem handleRequest_buildDiscard (script : Script) (hctx : ctx.mMyself.isConnected = true)
    (hcmd : cmdOf json = str "BuildDiscard") :
    ∃ discard : Deck, (∀ c ∈ discard.mDeck, c ∈ ctx.view.hand ++ ctx.view.dog) ∧
      (handleRequest script ctx json).1.view =
        { ctx.view with
          hand := (ctx.view.hand ++ ctx.view.dog).filter fun c => c ∉ discard.mDeck } ∧
      (handleRequest script ctx json).2 =
        ctx.replyToTable (PlayerContext.buildDiscard discard) :: sync ctx .waitForDiscard := by
  obtain ⟨discard, hmem, hview, hmyself, hreplies⟩ := buildDiscard_spec script ctx
  refine ⟨discard, hmem, ?_, ?_⟩
  · rw [(handleRequest_handles script hctx json).buildDiscard_eq hcmd]
    exact hview
  · rw [(handleRequest_handles script hctx json).buildDiscard_eq hcmd, handleBuildDiscard]
    dsimp only
    rw [hreplies, sync, sync, PlayerContext.replyToTable, PlayerContext.replyToTable, hmyself]
    rfl

end Bot

end TarotClub
