import TarotClub.BotBids
import TarotClub.BotPlay

namespace TarotClub

open Machine

namespace Engine

variable {e : Engine} {a : Action}

/-- Past the auction the engine waits for a king. -/
def AwaitsKing (e : Engine) : Prop :=
  e.mSequence.isPastAuction = true → e.mSequence = .waitForKingCall

theorem AwaitsKing.of_not_past (h : e.mSequence.isPastAuction = false) : e.AwaitsKing := by
  intro hpast
  rw [h] at hpast
  exact absurd hpast Bool.false_ne_true

/-- Five players who have bid come to the king, or all of them have passed. -/
theorem Opening.bidSequence_awaitsKing (h : e.Opening) (hfive : e.mCtx.mNbPlayers = 5)
    (ha : e.Enabled .bidSequence) : (e.act .bidSequence).AwaitsKing := by
  rcases ha with hs | hs
  · obtain ⟨hzero, -, hslam⟩ := h.cards hs
    rcases act_bidSequence_cases e with ⟨-, -, hact⟩ | ⟨hclosed, -⟩
    · rw [hact]
      exact .of_not_past rfl
    · rcases hclosed with hle | hslam'
      · omega
      · exact absurd (hslam.symm.trans hslam') Bool.false_ne_true
  · have hctx : e.isEndOfTrick.2.mCtx = e.mCtx := by
      unfold isEndOfTrick
      split_ifs <;> rfl
    have hseq : e.isEndOfTrick.2.mSequence = e.mSequence := by
      unfold isEndOfTrick
      split_ifs <;> rfl
    intro hpast
    rw [Engine.act, startIfReady_mSequence] at hpast ⊢
    unfold bidSequence at hpast ⊢
    dsimp only at hpast ⊢
    rw [hctx, hseq, if_pos (⟨hfive, hs⟩ : e.mCtx.mNbPlayers = 5 ∧ e.mSequence = .waitForShowBid)]
      at hpast ⊢
    split_ifs at hpast ⊢
    · cases hpast
    · rfl
    · cases hpast

/-- Only the call of a king leads on. -/
theorem Opening.act_awaitsKing (h : e.Opening) (hfive : e.mCtx.mNbPlayers = 5)
    (hking : e.AwaitsKing) (ha : e.Enabled a) (hnone : ∀ c, a ≠ .kingCall c) :
    (e.act a).AwaitsKing := by
  by_cases hl : a.isLate = true
  · have hs := hking (enabled_isLate ha hl)
    cases a with
    | kingCall c => exact absurd rfl (hnone c)
    | gameSequence =>
      exfalso
      rcases ha with hs' | hs' | hs' | hs' | hs'
      all_goals exact absurd (hs.symm.trans hs') (by decide)
    | manageAfterBid | discardSequence => exact absurd (hs.symm.trans ha) (by decide)
    | discard cards | handle cards p | card c p => exact absurd (hs.symm.trans ha.1) (by decide)
    | _ => exact absurd hl Bool.false_ne_true
  · cases a with
    | stay => exact hking
    | newGame => exact .of_not_past rfl
    | newDeal deal => exact .of_not_past rfl
    | bid c slam p => exact .of_not_past (congrArg _ (setBid_mSequence e c slam p))
    | bidSequence => exact h.bidSequence_awaitsKing hfive ha
    | _ => exact absurd rfl hl

/-- At the king there is nothing to do but to call it, or to begin a new game. -/
theorem Enabled.eq_stay_of_king (ha : e.Enabled a) (hs : e.mSequence = .waitForKingCall)
    (hnone : ∀ c, a ≠ .kingCall c) (hgame : a ≠ .newGame) : a = .stay := by
  cases a with
  | stay => rfl
  | newGame => exact absurd rfl hgame
  | kingCall c => exact absurd rfl (hnone c)
  | manageAfterBid | discardSequence => exact absurd (hs.symm.trans ha) (by decide)
  | bid c slam p | discard cards | handle cards p | card c p =>
    exact absurd (hs.symm.trans ha.1) (by decide)
  | newDeal deal =>
    rcases ha with hs' | hs' | hs'
    all_goals exact absurd (hs.symm.trans hs') (by decide)
  | bidSequence =>
    rcases ha with hs' | hs'
    all_goals exact absurd (hs.symm.trans hs') (by decide)
  | gameSequence =>
    rcases ha with hs' | hs' | hs' | hs' | hs'
    all_goals exact absurd (hs.symm.trans hs') (by decide)

end Engine

namespace PlayingTable

variable {t : PlayingTable} {dealer : Dealer} {srcUuid : ℕ} {json : JsonValue}

theorem syncedAction_ne_kingCall (seq : Sequence) (c : Card) :
    t.syncedAction dealer seq ≠ .kingCall c := by
  intro he
  cases seq with
  | waitForPlayers =>
    rw [syncedAction] at he
    split_ifs at he
  | waitForEndOfDeal =>
    simp only [syncedAction] at he
    split_ifs at he
  | _ => cases he

/-- A king is called by the taker, with this command. -/
theorem requestAction_kingCall {c : Card} (h : t.requestAction dealer srcUuid json = .kingCall c) :
    (json.findValue (str "cmd")).getString = str "ReplyKingCall" ∧
      t.mEngine.mCtx.mBid.taker = t.getPlayerPlace srcUuid := by
  revert h
  refine request_cases (R := fun _ a => a = Engine.Action.kingCall c → _) dealer t srcUuid json
    ?_ ?_ ?_ ?_ ?_ ?_ ?_ ?_
  · intro he
    cases he
  · intro _ he
    simp only [ackAction] at he
    split_ifs at he
    exact absurd he (syncedAction_ne_kingCall _ c)
  · intro _ he
    split_ifs at he
  · intro _ he
    simp only [bidAction] at he
    split_ifs at he
  · intro _ he
    simp only [discardAction] at he
    split_ifs at he
  · intro hcmd he
    simp only [kingCallAction] at he
    split_ifs at he with hturn
    exact ⟨hcmd, hturn.2.1⟩
  · intro _ he
    simp only [handleAction] at he
    split_ifs at he
  · intro _ he
    simp only [cardAction] at he
    split_ifs at he

end PlayingTable

namespace Bot

/-- All that a bot ever says. -/
def commands : List Str :=
  [str "ReplyLogin", str "RequestJoinTable", str "Ack", str "ReplyBid", str "Discard", str "Card",
    str "Handle"]

theorem handleRequestBid_commands (script : Script) (ctx : PlayerContext) :
    ∀ reply ∈ (handleRequestBid script ctx).2, cmdOf reply.data ∈ commands := by
  have hbid : ∀ ctx : PlayerContext, ∀ reply ∈ (requestBid script ctx).2,
      cmdOf reply.data ∈ commands := by
    intro ctx reply hreply
    obtain ⟨slam, hreplies⟩ := requestBid_reply script ctx
    rw [hreplies] at hreply
    rw [List.mem_singleton.mp hreply]
    exact (by decide : str "ReplyBid" ∈ commands)
  intro reply hreply
  unfold handleRequestBid at hreply
  split_ifs at hreply
  · exact hbid _ reply hreply
  · exact hbid _ reply hreply
  · exact absurd hreply List.not_mem_nil

theorem handleRequest_commands (script : Script) (ctx : PlayerContext) (json : JsonObject) :
    ∀ reply ∈ (handleRequest script ctx json).2, cmdOf reply.data ∈ commands := by
  have hone : ∀ {reply reply' : Reply}, reply ∈ [reply'] → cmdOf reply'.data ∈ commands →
      cmdOf reply.data ∈ commands := by
    intro reply reply' hreply hsays
    rw [List.mem_singleton.mp hreply]
    exact hsays
  have hsync : ∀ (ctx : PlayerContext) (step : Sequence), ∀ reply ∈ sync ctx step,
      cmdOf reply.data ∈ commands := by
    intro ctx step reply hreply
    exact hone hreply (by decide : str "Ack" ∈ commands)
  intro reply hreply
  by_cases hctx : ctx.mMyself.isConnected = true
  · have h := handleRequest_handles script hctx json
    generalize (json.getKey (str "cmd")).getString = cmd at h
    generalize handleRequest script ctx json = result at h hreply
    cases h with
    | acknowledge _ => exact hsync _ _ reply hreply
    | requestBid => exact handleRequestBid_commands script _ reply hreply
    | buildDiscard =>
      obtain ⟨discard, -, -, -, hreplies⟩ := buildDiscard_spec script ctx
      rw [handleBuildDiscard] at hreply
      dsimp only at hreply
      rw [hreplies] at hreply
      rcases List.mem_append.mp hreply with hdiscard | hack
      · exact hone hdiscard (by decide : str "Discard" ∈ commands)
      · exact hsync _ _ reply hack
    | playCard =>
      rw [handlePlayCard] at hreply
      split_ifs at hreply
      · exact hone hreply (by decide : str "Card" ∈ commands)
      · exact absurd hreply List.not_mem_nil
    | askForHandle => exact hone hreply (by decide : str "Handle" ∈ commands)
    | accessGranted => exact hone hreply (by decide : str "RequestJoinTable" ∈ commands)
    | chatMessage => exact absurd hreply List.not_mem_nil
    | other _ => exact absurd hreply List.not_mem_nil
  · rw [handleRequest, if_pos (by rw [Bool.not_eq_true] at hctx; rw [hctx]; rfl)] at hreply
    split_ifs at hreply
    · exact hone hreply (by decide : str "ReplyLogin" ∈ commands)
    · exact absurd hreply List.not_mem_nil

end Bot

namespace BotTable

variable {s : BotTable}

/-- What comes from elsewhere begins new games at most: the other requests are from people who hold
no seat. -/
def BotsOnly (s : BotTable) : BotEvent → Prop
  | .call (.executeRequest _ srcUuid json) =>
    (json.findValue (str "cmd")).getString = str "RequestNewGame" ∨
      s.table.getPlayerPlace srcUuid = .nowhere
  | _ => True

instance (s : BotTable) : DecidablePred s.BotsOnly
  | .call (.executeRequest _ _ _) => inferInstanceAs (Decidable (_ ∨ _))
  | .call (.addPlayer _) | .call (.removePlayer _) | .handle _ _ | .arrive _ _ => isTrue trivial

/-- The table of an event receives the call of it, or nothing. -/
theorem step_table (s : BotTable) (event : BotEvent) :
    (s.step event).table = s.table ∨
      ∃ c ∈ s.called event, (s.step event).table = s.table.apply c := by
  cases event with
  | call c => exact .inr ⟨c, rfl, rfl⟩
  | handle uuid script =>
    left
    cases hinbox : (s.bots uuid).inbox with
    | nil => rw [step, handle_nil hinbox]
    | cons json inbox => rw [step, handle_cons hinbox]
  | arrive i dealer =>
    rw [step, BotTable.arrive, called]
    cases s.sent[i]? with
    | none => exact .inl rfl
    | some message =>
      dsimp only
      split_ifs
      · exact .inr ⟨_, rfl, rfl⟩
      · exact .inl rfl

/-- What is on its way has been before, or a bot has just said it. -/
theorem mem_sent_step {event : BotEvent} {message : ℕ × Reply} (h : message ∈ (s.step event).sent) :
    message ∈ s.sent ∨
      ∃ script ctx json, message.2 ∈ (Bot.handleRequest script ctx json).2 := by
  cases event with
  | call c => exact .inl h
  | handle uuid script =>
    rw [step] at h
    cases hinbox : (s.bots uuid).inbox with
    | nil =>
      rw [handle_nil hinbox] at h
      exact .inl h
    | cons json inbox =>
      rw [handle_cons hinbox] at h
      rcases List.mem_append.mp h with hold | hnew
      · exact .inl hold
      · obtain ⟨reply, hreply, rfl⟩ := List.mem_map.mp hnew
        exact .inr ⟨script, _, json, hreply⟩
  | arrive i dealer =>
    left
    rw [step, BotTable.arrive] at h
    cases hmessage : s.sent[i]? with
    | none =>
      rw [hmessage] at h
      exact h
    | some first =>
      rw [hmessage] at h
      dsimp only at h
      apply List.mem_of_mem_eraseIdx
      split_ifs at h
      · exact h
      · exact h

/-- The five bots are in the auction of a deal, or at the king. -/
structure Uncalled (s : BotTable) : Prop extends s.table.Open where
  players : s.table.nbPlayers = 5
  taken : s.table.mEngine.Taken
  opening : s.table.mEngine.Opening
  king : s.table.mEngine.AwaitsKing
  bidding : ∀ message ∈ s.sent, Bidding message.2.data
  commands : ∀ message ∈ s.sent, cmdOf message.2.data ∈ Bot.commands

/-- No bid without a contract ends the auction, and nobody calls a king. -/
theorem Uncalled.calls (h : s.Uncalled) {event : BotEvent} (honly : s.BotsOnly event) {c : Call}
    (hc : c ∈ s.called event) :
    s.table.BidCounts c ∧ ∀ card, s.table.action c ≠ .kingCall card := by
  cases event with
  | handle uuid script => cases hc
  | arrive i dealer =>
    obtain ⟨message, hmessage, rfl⟩ := Option.mem_map.mp hc
    have hmem := List.mem_of_getElem? hmessage
    refine ⟨PlayingTable.bidCounts_of_namesContract fun hbid => ?_, fun card hcall => ?_⟩
    · rw [findValue_object (by decide)] at hbid ⊢
      exact (h.bidding message hmem).2 hbid
    · have hcmd := (PlayingTable.requestAction_kingCall hcall).1
      rw [findValue_object (by decide)] at hcmd
      have hsays := h.commands message hmem
      rw [cmdOf, hcmd] at hsays
      exact absurd hsays (by decide)
  | call c' =>
    obtain rfl := Option.some.inj hc
    cases c' with
    | addPlayer uuid | removePlayer uuid =>
      refine ⟨trivial, fun card hcall => ?_⟩
      cases hcall
    | executeRequest dealer srcUuid json =>
      rcases honly with hcmd | hplace
      · refine ⟨PlayingTable.bidCounts_of_namesContract fun hbid => ?_, fun card hcall => ?_⟩
        · rw [hcmd] at hbid
          exact absurd hbid (by decide)
        · rw [(PlayingTable.requestAction_kingCall hcall).1] at hcmd
          exact absurd hcmd (by decide)
      · have hbehind := PlayingTable.behind_requestAction h.toOpen dealer srcUuid json
        constructor
        · change s.table.mEngine.BidCounts (s.table.requestAction dealer srcUuid json)
          cases haction : s.table.requestAction dealer srcUuid json with
          | bid c slam q =>
            rw [haction] at hbehind
            exact absurd hplace hbehind
          | _ => trivial
        · intro card hcall
          have henabled := h.toOpen.action_enabled (.executeRequest dealer srcUuid json)
          rw [hcall] at henabled
          have hlt := h.taken.taker_lt (by rw [henabled.1]; rfl)
          rw [(PlayingTable.requestAction_kingCall hcall).2, hplace] at hlt
          exact absurd (hlt.trans_le h.seats) (by decide)

theorem Uncalled.step (h : s.Uncalled) {event : BotEvent} (honly : s.BotsOnly event) :
    (s.step event).Uncalled := by
  have hbidding : ∀ message ∈ (s.step event).sent, Bidding message.2.data := by
    intro message hmessage
    rcases mem_sent_step hmessage with hold | ⟨script, ctx, json, hsays⟩
    · exact h.bidding message hold
    · exact Bot.handleRequest_says script ctx json _ hsays
  have hcommands : ∀ message ∈ (s.step event).sent, cmdOf message.2.data ∈ Bot.commands := by
    intro message hmessage
    rcases mem_sent_step hmessage with hold | ⟨script, ctx, json, hsays⟩
    · exact h.commands message hold
    · exact Bot.handleRequest_commands script ctx json _ hsays
  rcases s.step_table event with hsame | ⟨c, hc, happly⟩
  · refine ⟨?_, ?_, ?_, ?_, ?_, hbidding, hcommands⟩
    all_goals rw [hsame]
    exacts [h.toOpen, h.players, h.taken, h.opening, h.king]
  · obtain ⟨hcounts, hnone⟩ := h.calls honly hc
    have henabled := h.toOpen.action_enabled c
    have hengine := PlayingTable.apply_mEngine s.table c
    refine ⟨?_, ?_, ?_, ?_, ?_, hbidding, hcommands⟩
    all_goals rw [happly]
    · exact h.toOpen.apply c
    · exact (PlayingTable.apply_nbPlayers s.table c).trans h.players
    · rw [hengine]
      exact h.taken.act henabled hcounts
    · rw [hengine]
      exact (h.opening.act henabled).1
    · rw [hengine]
      exact h.opening.act_awaitsKing h.players h.king henabled hnone

theorem start_uncalled (t : PlayingTable) (randomPlace : Place) :
    (start t 5 randomPlace).Uncalled where
  toOpen := (PlayingTable.Reachable.create t 5 randomPlace le_rfl).open
  players := rfl
  taken := Engine.createTable_taken t.mEngine randomPlace (by decide) le_rfl
  opening := (start_tuned t randomPlace (by decide) le_rfl 0).opening
  king := .of_not_past rfl
  bidding := fun _ hmessage => absurd hmessage List.not_mem_nil
  commands := fun _ hmessage => absurd hmessage List.not_mem_nil

/-! At the king only a new game could begin. -/

/-- What comes from elsewhere is from people who hold no seat, and asks for no new game. -/
def Strangers (s : BotTable) : BotEvent → Prop
  | .call (.executeRequest _ srcUuid json) =>
    (json.findValue (str "cmd")).getString ≠ str "RequestNewGame" ∧
      s.table.getPlayerPlace srcUuid = .nowhere
  | _ => True

instance (s : BotTable) : DecidablePred s.Strangers
  | .call (.executeRequest _ _ _) => inferInstanceAs (Decidable (_ ∧ _))
  | .call (.addPlayer _) | .call (.removePlayer _) | .handle _ _ | .arrive _ _ => isTrue trivial

theorem Strangers.botsOnly {event : BotEvent} (h : s.Strangers event) : s.BotsOnly event := by
  cases event with
  | call c =>
    cases c with
    | executeRequest dealer srcUuid json => exact .inr h.2
    | _ => trivial
  | _ => trivial

theorem Uncalled.no_newGame (h : s.Uncalled) {event : BotEvent} (hevent : s.Strangers event)
    (hs : s.table.mEngine.mSequence = .waitForKingCall) {c : Call} (hc : c ∈ s.called event) :
    s.table.action c ≠ .newGame := by
  intro hgame
  have hrunning : s.table.mEngine.mSequence.isRunning ≠ false := by
    rw [hs]
    decide
  have hasks : ∀ dealer srcUuid json, s.table.requestAction dealer srcUuid json = .newGame →
      (json.findValue (str "cmd")).getString = str "RequestNewGame" := by
    intro dealer srcUuid json haction
    have hbehind := PlayingTable.behind_requestAction h.toOpen dealer srcUuid json
    rw [haction] at hbehind
    rcases hbehind with hcmd | hout
    · exact hcmd
    · exact absurd hout hrunning
  cases event with
  | handle uuid script => cases hc
  | arrive i dealer =>
    obtain ⟨message, hmessage, rfl⟩ := Option.mem_map.mp hc
    have hcmd := hasks dealer _ _ hgame
    rw [findValue_object (by decide)] at hcmd
    exact (h.bidding message (List.mem_of_getElem? hmessage)).1 hcmd
  | call c' =>
    obtain rfl := Option.some.inj hc
    cases c' with
    | executeRequest dealer srcUuid json => exact hevent.1 (hasks dealer srcUuid json hgame)
    | _ => cases hgame

/-- At the king the engine does not move. -/
theorem Uncalled.still (h : s.Uncalled) {event : BotEvent} (hevent : s.Strangers event)
    (hs : s.table.mEngine.mSequence = .waitForKingCall) :
    (s.step event).table.mEngine = s.table.mEngine := by
  rcases s.step_table event with hsame | ⟨c, hc, happly⟩
  · rw [hsame]
  · have henabled := h.toOpen.action_enabled c
    have hstay := henabled.eq_stay_of_king hs (h.calls hevent.botsOnly hc).2
      (h.no_newGame hevent hs hc)
    rw [happly, PlayingTable.apply_mEngine, hstay]
    rfl

/-- Whatever five bots hold and bid, and in whatever order their messages come in, a deal of theirs
never leads past the king: the engine stands still there, and no card is played. -/
theorem five_bots_await_king (t : PlayingTable) (randomPlace : Place) {events later : List BotEvent}
    (honly : Guarded step BotsOnly (start t 5 randomPlace) events) :
    let s := run step (start t 5 randomPlace) events
    s.table.mEngine.mSequence.isPastAuction = true → Guarded step Strangers s later →
      s.table.mEngine.mSequence = .waitForKingCall ∧
        (run step s later).table.mEngine = s.table.mEngine := by
  intro s hpast hlater
  have hs : s.Uncalled := by
    refine honly.invariant Uncalled ?_ (start_uncalled t randomPlace)
    intro s event h hevent
    exact h.step hevent
  have hking := hs.king hpast
  refine ⟨hking, ?_⟩
  have hinv : (run step s later).Uncalled ∧
      (run step s later).table.mEngine = s.table.mEngine := by
    refine hlater.invariant (fun s' => s'.Uncalled ∧ s'.table.mEngine = s.table.mEngine) ?_
      ⟨hs, rfl⟩
    intro s' event h hevent
    refine ⟨h.1.step hevent.botsOnly, (h.1.still hevent ?_).trans h.2⟩
    rw [h.2]
    exact hking
  exact hinv.2

/-- Five bots handle a message each, and what they have sent arrives. -/
def botRoundFive : List BotEvent :=
  [.handle 10 boasts, .handle 11 boasts, .handle 12 boasts, .handle 13 boasts, .handle 14 boasts] ++
    List.replicate 5 (.arrive 0 plainDealer)

def fiveRounds (k : ℕ) : List BotEvent :=
  ([10, 11, 12, 13, 14].map fun uuid => .call (.addPlayer uuid)) ++
    (List.replicate k botRoundFive).flatten

theorem five_bots_await_king_slam :
    let s := run step (start {} 5 .south) (fiveRounds 6)
    s.table.mEngine.mSequence.isPastAuction = true ∧
      s.table.mEngine.mSequence = .waitForKingCall ∧
        (run step s botRoundFive).table.mEngine = s.table.mEngine := by
  have hpast : (run step (start {} 5 .south) (fiveRounds 6)).table.mEngine.mSequence.isPastAuction =
      true := by
    decide +kernel
  exact ⟨hpast, five_bots_await_king {} .south (by decide +kernel) hpast (by decide +kernel)⟩

end BotTable

end TarotClub
