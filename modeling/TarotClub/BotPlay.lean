import TarotClub.BotAnswers
import TarotClub.CustomDeal

namespace TarotClub

open Machine

/-- What bots never say: they ask for no new game, and a bid of theirs names a contract. -/
def Bidding (data : JsonObject) : Prop :=
  cmdOf data ≠ str "RequestNewGame" ∧
    (cmdOf data = str "ReplyBid" → Contract.ofString (textAt data "contract") ≠ .noAny)

namespace Bot

theorem handleRequestBid_says (script : Script) (ctx : PlayerContext) :
    ∀ reply ∈ (handleRequestBid script ctx).2, Bidding reply.data := by
  have hbid : ∀ ctx : PlayerContext, ∀ reply ∈ (requestBid script ctx).2, Bidding reply.data := by
    intro ctx reply hreply
    obtain ⟨slam, hreplies⟩ := requestBid_reply script ctx
    rw [hreplies] at hreply
    rw [List.mem_singleton.mp hreply]
    have hread : ∀ c : Contract,
        Contract.ofString (textAt (PlayerContext.buildReplyBid c slam).getObj "contract") = c :=
      Contract.ofString_toString
    constructor
    · exact (by decide : str "ReplyBid" ≠ str "RequestNewGame")
    · intro _
      change Contract.ofString (textAt (PlayerContext.buildReplyBid _ slam).getObj "contract") ≠ _
      rw [hread]
      split_ifs with hle
      · decide
      · intro hnone
        rw [hnone] at hle
        exact hle (Contract.noAny_le _)
  unfold handleRequestBid
  split_ifs
  · exact hbid _
  · exact hbid _
  · intro reply hreply
    exact absurd hreply List.not_mem_nil

/-- A message that is no bid. -/
theorem bidding_of_cmd {data : JsonObject} (cmd : Str) (hcmd : cmdOf data = cmd)
    (h : cmd ≠ str "RequestNewGame" ∧ cmd ≠ str "ReplyBid") : Bidding data := by
  rw [Bidding, hcmd]
  exact ⟨h.1, fun he => absurd he h.2⟩

theorem handleRequest_says (script : Script) (ctx : PlayerContext) (json : JsonObject) :
    ∀ reply ∈ (handleRequest script ctx json).2, Bidding reply.data := by
  have hone : ∀ {reply reply' : Reply}, reply ∈ [reply'] → Bidding reply'.data →
      Bidding reply.data := by
    intro reply reply' hreply hsays
    rw [List.mem_singleton.mp hreply]
    exact hsays
  have hsync : ∀ (ctx : PlayerContext) (step : Sequence), ∀ reply ∈ sync ctx step,
      Bidding reply.data := by
    intro ctx step reply hreply
    exact hone hreply (bidding_of_cmd (str "Ack") rfl (by decide))
  by_cases hctx : ctx.mMyself.isConnected = true
  · have h := handleRequest_handles script hctx json
    generalize (json.getKey (str "cmd")).getString = cmd at h
    generalize handleRequest script ctx json = result at h ⊢
    intro reply hreply
    cases h with
    | acknowledge _ => exact hsync _ _ reply hreply
    | requestBid => exact handleRequestBid_says script _ reply hreply
    | buildDiscard =>
      obtain ⟨discard, -, -, -, hreplies⟩ := buildDiscard_spec script ctx
      rw [handleBuildDiscard] at hreply
      dsimp only at hreply
      rw [hreplies] at hreply
      rcases List.mem_append.mp hreply with hdiscard | hack
      · exact hone hdiscard (bidding_of_cmd (str "Discard") rfl (by decide))
      · exact hsync _ _ reply hack
    | playCard =>
      rw [handlePlayCard] at hreply
      split_ifs at hreply
      · exact hone hreply (bidding_of_cmd (str "Card") rfl (by decide))
      · exact absurd hreply List.not_mem_nil
    | askForHandle => exact hone hreply (bidding_of_cmd (str "Handle") rfl (by decide))
    | accessGranted => exact hone hreply (bidding_of_cmd (str "RequestJoinTable") rfl (by decide))
    | chatMessage => exact absurd hreply List.not_mem_nil
    | other _ => exact absurd hreply List.not_mem_nil
  · intro reply hreply
    rw [handleRequest, if_pos (by rw [Bool.not_eq_true] at hctx; rw [hctx]; rfl)] at hreply
    split_ifs at hreply
    · exact hone hreply (bidding_of_cmd (str "ReplyLogin") rfl (by decide))
    · exact absurd hreply List.not_mem_nil

end Bot

namespace PlayingTable

/-- In the middle of a deal nobody sits down or leaves. -/
def KeepsSeats (t : PlayingTable) (c : Call) : Prop :=
  t.mEngine.mSequence.isRunning = true →
    ∀ i < t.nbPlayers, ((t.apply c).mPlayers i).uuid = (t.mPlayers i).uuid

/-- What may come from elsewhere: a new game is not asked for in the middle of a deal, and the
other requests come from people who hold no seat. -/
def Outside (t : PlayingTable) : Call → Prop
  | .executeRequest _ srcUuid json =>
    if (json.findValue (str "cmd")).getString = str "RequestNewGame" then
      t.mEngine.mSequence.isRunning = false
    else t.getPlayerPlace srcUuid = .nowhere
  | _ => True

instance (t : PlayingTable) : DecidablePred t.KeepsSeats :=
  fun c => inferInstanceAs (Decidable (_ → ∀ i < t.nbPlayers,
    ((t.apply c).mPlayers i).uuid = (t.mPlayers i).uuid))

instance (t : PlayingTable) : DecidablePred t.Outside
  | .executeRequest _ srcUuid json => inferInstanceAs (Decidable
    (if (json.findValue (str "cmd")).getString = str "RequestNewGame" then
      t.mEngine.mSequence.isRunning = false
    else t.getPlayerPlace srcUuid = .nowhere))
  | .addPlayer _ | .removePlayer _ => isTrue trivial

/-- A discard of the taker is legal. -/
def AcceptsDiscard (t : PlayingTable) (srcUuid : ℕ) (data : JsonObject) : Prop :=
  cmdOf data = str "Discard" → t.mEngine.mSequence = .waitForDiscard →
    t.mEngine.mCtx.mBid.taker = t.getPlayerPlace srcUuid →
    t.mEngine.takerDeck.testDiscard (Deck.ofString (textAt data "discard")) t.mEngine.mCtx.mDog
      t.nbPlayers = true

instance (t : PlayingTable) (srcUuid : ℕ) (data : JsonObject) :
    Decidable (t.AcceptsDiscard srcUuid data) :=
  inferInstanceAs (Decidable (_ → _))

/-- The branch of `ExecuteRequest` for a card: it is the player's turn and `SetCard` takes the card. -/
def AcceptsCard (t : PlayingTable) (srcUuid : ℕ) (data : JsonObject) : Prop :=
  let c := Card.ofString (textAt data "card")
  let p := t.getPlayerPlace srcUuid
  c.isValid = true ∧ t.mEngine.mSequence = .waitForPlayedCard ∧ t.mEngine.mCurrentPlayer = p ∧
    (t.mEngine.setCard c p).1 = true

instance (t : PlayingTable) (srcUuid : ℕ) (data : JsonObject) :
    Decidable (t.AcceptsCard srcUuid data) :=
  inferInstanceAs (Decidable (_ ∧ _))

theorem acceptsCard_of_answer {t : PlayingTable} {u : ℕ} {p : Place} {v : View} {reply : Reply}
    (hspot : t.Spot u p) (hn : t.nbPlayers ≤ 5) (h : Answer t.mEngine p v reply)
    (hcmd : cmdOf reply.data = str "Card") : t.AcceptsCard u reply.data := by
  cases h with
  | @card c dest hs hturn hvalid hplay _ _ _ =>
    have hread : Card.ofString (textAt (PlayerContext.buildSendCard c).getObj "card") = c :=
      Card.ofString_toString hvalid
    dsimp only [AcceptsCard]
    rw [hread, hspot.getPlayerPlace hn, Engine.setCard, if_pos hplay]
    exact ⟨hvalid, hs, hturn, rfl⟩
  | discard => exact absurd (show str "Discard" = str "Card" from hcmd) (by decide)

/-- The table takes the answer that it waits for, if the discard is legal. -/
theorem action_answer {t : PlayingTable} {u : ℕ} {p : Place} {v : View} {reply : Reply}
    (hspot : t.Spot u p) (hn : t.nbPlayers ≤ 5) (h : Answer t.mEngine p v reply)
    (hdiscard : t.AcceptsDiscard u reply.data) (dealer : Dealer) :
    cmdOf reply.data = str "Card" ∧
        t.action (.executeRequest dealer u (.object reply.data)) =
          .card (Card.ofString (textAt reply.data "card")) p ∨
      cmdOf reply.data = str "Discard" ∧
        t.action (.executeRequest dealer u (.object reply.data)) =
          .discard (Deck.ofString (textAt reply.data "discard")) := by
  have hplace := hspot.getPlayerPlace hn
  cases h with
  | @card c dest hs hturn hvalid hplay _ _ _ =>
    refine .inl ⟨rfl, ?_⟩
    have hread : Card.ofString (((PlayerContext.buildSendCard c).findValue (str "card")).getString) =
        c := PlayerContext.buildSendCard_read hvalid
    change t.requestAction dealer u (PlayerContext.buildSendCard c) =
      .card (Card.ofString (((PlayerContext.buildSendCard c).findValue (str "card")).getString)) p
    rw [requestAction_of_answers dealer t u (PlayerContext.buildSendCard c) .card, answerAction,
      cardAction, hplace, hread]
    exact if_pos ⟨hvalid, hs, hturn, hplay⟩
  | @discard discard dest hs htaker _ _ _ =>
    refine .inr ⟨rfl, ?_⟩
    have htest := hdiscard rfl hs (htaker.trans hplace.symm)
    change t.requestAction dealer u (PlayerContext.buildDiscard discard) = _
    rw [requestAction_of_answers dealer t u (PlayerContext.buildDiscard discard) .discard]
    exact if_pos ⟨hs, htaker.trans hplace.symm, htest⟩

end PlayingTable

namespace BotTable

/-- The answers of a bot that are on their way. -/
def answersOf (u : ℕ) (sent : List (ℕ × Reply)) : List Reply :=
  (sent.filter fun message => message.1 = u && message.2.isAnswer).map Prod.snd

/-- What holds of a bot at a table with `n` seats. -/
structure Agreeing (n u : ℕ) (s : BotTable) : Prop where
  deal : ∃ plays, s.table.InDeal n plays
  bidding : ∀ message ∈ s.sent, Bidding message.2.data
  uuid : (s.bots u).ctx.mMyself.uuid = u
  standing : ∃ p, s.table.Spot u p ∧
    Standing s.table.mEngine p (s.bots u).ctx.view (s.bots u).inbox (answersOf u s.sent)

namespace Agreeing

variable {n u : ℕ} {s : BotTable}

theorem addPlayer (h : Agreeing n u s) (hn : n = 3 ∨ n = 4 ∨ n = 5) (hu : u ≠ invalidUid) {w : ℕ}
    (hkeep : s.table.KeepsSeats (.addPlayer w)) : Agreeing n u (s.receive (.addPlayer w)) := by
  obtain ⟨plays, hdeal⟩ := h.deal
  obtain ⟨p, hspot, hstanding⟩ := h.standing
  have hengine : (s.table.addPlayer w).2.mEngine = s.table.mEngine :=
    PlayingTable.addPlayer_mEngine s.table w
  refine ⟨⟨_, hdeal.act (c := .addPlayer w) hn trivial fun deal hd => ?_⟩, h.bidding, h.uuid,
    _, hspot.addPlayer hdeal.seats hu w, ?_⟩
  · cases hd
  change Standing (s.table.addPlayer w).2.mEngine _ (s.bots u).ctx.view
    ((s.bots u).inbox ++ messagesTo u (s.table.sends (.addPlayer w))) (answersOf u s.sent)
  rw [hengine]
  by_cases hjoins : w = u ∧ (s.table.addPlayer w).1.isValid = true
  · rw [if_pos hjoins]
    have hsends : messagesTo u (s.table.sends (.addPlayer w)) =
        [Lobby.replyJoinTable s.table.mId (s.table.addPlayer w).1 (s.table.addPlayer w).2] := by
      simp only [PlayingTable.sends, if_pos hjoins.2]
      rw [PlayingTable.messagesTo_singleton, if_pos hjoins.1]
    have hout : s.table.mEngine.mSequence.isRunning = false := by
      rw [← Bool.not_eq_true]
      intro hrunning
      rcases PlayingTable.addPlayer_cases hdeal.seats w with ⟨hinvalid, -⟩ |
        ⟨i, hi, hfree, hw, -, -, -, huuid⟩
      · exact Bool.false_ne_true (hinvalid.symm.trans hjoins.2)
      · have hsame := hkeep hrunning i hi
        rw [PlayingTable.apply, huuid, if_pos rfl, hfree] at hsame
        exact hw hsame
    rw [hsends]
    refine hstanding.move hout ?_ fun _ => ?_
    · have hcmd : cmdOf (Lobby.replyJoinTable s.table.mId (s.table.addPlayer w).1
          (s.table.addPlayer w).2) = str "ReplyJoinTable" := rfl
      exact quiet_singleton hcmd (by decide)
    · rw [View.after_append]
      exact Place.ofString_toString _
  · rw [if_neg hjoins]
    have hsends : messagesTo u (s.table.sends (.addPlayer w)) = [] := by
      simp only [PlayingTable.sends]
      split_ifs with hvalid
      · rw [PlayingTable.messagesTo_singleton, if_neg fun hw => hjoins ⟨hw, hvalid⟩]
      · rfl
    rw [hsends, List.append_nil]
    exact hstanding

theorem removePlayer (h : Agreeing n u s) (hn : n = 3 ∨ n = 4 ∨ n = 5) (hu : u ≠ invalidUid)
    {w : ℕ} (hkeep : s.table.KeepsSeats (.removePlayer w)) :
    Agreeing n u (s.receive (.removePlayer w)) := by
  obtain ⟨plays, hdeal⟩ := h.deal
  obtain ⟨p, hspot, hstanding⟩ := h.standing
  have hengine : (s.table.removePlayer w).mEngine = s.table.mEngine :=
    PlayingTable.removePlayer_mEngine s.table w
  refine ⟨⟨_, hdeal.act (c := .removePlayer w) hn trivial fun deal hd => ?_⟩, h.bidding, h.uuid,
    _, hspot.removePlayer hdeal.seats hu w, ?_⟩
  · cases hd
  change Standing (s.table.removePlayer w).mEngine _ (s.bots u).ctx.view
    ((s.bots u).inbox ++ []) (answersOf u s.sent)
  rw [hengine]
  by_cases hw : w = u
  swap
  · rw [if_neg hw, List.append_nil]
    exact hstanding
  rw [if_pos hw]
  by_cases hrunning : s.table.mEngine.mSequence.isRunning = true
  · cases hspot with
    | away _ =>
      rw [List.append_nil]
      exact hstanding
    | seat hne hp hmine honce =>
      have hsame := hkeep hrunning _ hp
      rw [PlayingTable.apply, PlayingTable.removePlayer_uuid hdeal.seats w hp, hmine, hw,
        if_pos rfl] at hsame
      exact absurd hsame hu.symm
  · refine hstanding.move (Bool.not_eq_true _ ▸ hrunning) trivial fun hne => ?_
    exact absurd rfl hne

/-- A request arrives: it is enough to see how the bot stands with the news of it. -/
theorem receiveRequest (hn : n = 3 ∨ n = 4 ∨ n = 5) (hu : u ≠ invalidUid)
    {plays : List (Card × Place)} (hdeal : s.table.InDeal n plays) {p : Place}
    (hspot : s.table.Spot u p) (hbids : ∀ message ∈ s.sent, Bidding message.2.data)
    (huuid : (s.bots u).ctx.mMyself.uuid = u) {dealer : Dealer} {srcUuid : ℕ} {json : JsonValue}
    (hcounts : s.table.BidCounts (.executeRequest dealer srcUuid json))
    (hfair : ∀ deal, s.table.action (.executeRequest dealer srcUuid json) = .newDeal deal →
      deal.Fair n)
    (hstanding : let a := s.table.requestAction dealer srcUuid json
      ∀ msgs plays', s.table.mEngine.Enabled a → (s.table.mEngine.act a).Phase n plays' →
        News (s.table.mEngine.act a) p a msgs →
        Standing (s.table.mEngine.act a) p (s.bots u).ctx.view ((s.bots u).inbox ++ msgs)
          (answersOf u s.sent)) :
    Agreeing n u (s.receive (.executeRequest dealer srcUuid json)) := by
  have hnext := hdeal.act hn hcounts hfair
  have htaker : s.table.mEngine.mSequence = .waitForShowDog →
      s.table.mEngine.mCtx.mBid.taker.value < s.table.nbPlayers :=
    fun hs => hdeal.taken.taker_lt (by rw [hs]; rfl)
  have hnews := hspot.executeRequest hu hdeal.toOpen dealer srcUuid json htaker
  have henabled := hdeal.action_enabled (.executeRequest dealer srcUuid json)
  have hengine := PlayingTable.apply_mEngine s.table (.executeRequest dealer srcUuid json)
  have hphase' := hnext.phase
  rw [hengine] at hphase'
  refine ⟨⟨_, hnext⟩, hbids, huuid, p, ?_, ?_⟩
  · refine hspot.congr (PlayingTable.apply_nbPlayers _ _) fun i => ?_
    exact PlayingTable.executeRequest_uuid dealer s.table srcUuid json i
  · change Standing (s.table.apply (.executeRequest dealer srcUuid json)).mEngine p
      (s.bots u).ctx.view ((s.bots u).inbox ++ messagesTo u
        (s.table.executeRequest dealer srcUuid json).out) (answersOf u s.sent)
    change News (s.table.apply (.executeRequest dealer srcUuid json)).mEngine p
      (s.table.requestAction dealer srcUuid json) _ at hnews
    rw [hengine] at hnews ⊢
    exact hstanding _ _ henabled hphase' hnews

/-- A request that is no answer of the bot. -/
theorem request (h : Agreeing n u s) (hn : n = 3 ∨ n = 4 ∨ n = 5) (hu : u ≠ invalidUid)
    {dealer : Dealer} {srcUuid : ℕ} {json : JsonValue}
    (hgame : (json.findValue (str "cmd")).getString = str "RequestNewGame" →
      s.table.mEngine.mSequence.isRunning = false)
    (hbid : s.table.getPlayerPlace srcUuid = .nowhere ∨
      (Call.executeRequest dealer srcUuid json).NamesContract)
    (hfair : ∀ deal, s.table.action (.executeRequest dealer srcUuid json) = .newDeal deal →
      deal.Fair n)
    (hother : s.table.getPlayerPlace srcUuid = .nowhere ∨ srcUuid ≠ u ∨
      (json.findValue (str "cmd")).getString ≠ str "Card" ∧
        (json.findValue (str "cmd")).getString ≠ str "Discard") :
    Agreeing n u (s.receive (.executeRequest dealer srcUuid json)) := by
  obtain ⟨plays, hdeal⟩ := h.deal
  obtain ⟨p, hspot, hstanding⟩ := h.standing
  have hbehind := PlayingTable.behind_requestAction hdeal.toOpen dealer srcUuid json
  have hcounts : s.table.BidCounts (.executeRequest dealer srcUuid json) := by
    rcases hbid with hnowhere | hnames
    · unfold PlayingTable.BidCounts
      change s.table.mEngine.BidCounts (s.table.requestAction dealer srcUuid json)
      cases haction : s.table.requestAction dealer srcUuid json with
      | bid c slam q =>
        rw [haction] at hbehind
        exact absurd hnowhere hbehind
      | _ => trivial
    · exact PlayingTable.bidCounts_of_namesContract hnames
  have hlt : p ≠ .nowhere → p.value < n := fun hp => hdeal.players ▸ hspot.lt hp
  refine receiveRequest hn hu hdeal hspot h.bidding h.uuid hcounts hfair ?_
  intro a msgs plays' henabled hphase' hnews
  change s.table.Behind srcUuid _ a at hbehind
  clear_value a
  have hmine : ∀ {cmd : Str}, (cmd = str "Card" ∨ cmd = str "Discard") →
      (json.findValue (str "cmd")).getString = cmd → p ≠ .nowhere →
      s.table.getPlayerPlace srcUuid ≠ p := by
    intro cmd hanswer hcmd hp
    rcases hother with hnowhere | hsrc | ⟨hcard, hdiscard⟩
    · rw [hnowhere]
      exact hp.symm
    · exact hspot.getPlayerPlace_ne hp hdeal.seats hsrc
    · rcases hanswer with rfl | rfl
      · exact absurd hcmd hcard
      · exact absurd hcmd hdiscard
  have hseat : p = .nowhere → ∀ q : Place, q.value < n → q ≠ p := by
    rintro hp q hq rfl
    rw [hp] at hq
    rcases hn with rfl | rfl | rfl <;> exact absurd hq (by decide)
  refine hstanding.act hn hlt hdeal.phase hphase' henabled ?_ ?_ ?_ hnews
  · rintro hrunning rfl
    rcases hbehind with hcmd | hout
    · exact Bool.false_ne_true ((hgame hcmd).symm.trans hrunning)
    · exact Bool.false_ne_true (hout.symm.trans hrunning)
  · rintro c rfl
    by_cases hp : p = .nowhere
    · have hphase := hdeal.phase
      simp only [Engine.Phase, henabled.1] at hphase
      obtain ⟨hturn, -⟩ := hphase.1.turn_spec hn hphase.2.1 hphase.2.2
      exact hseat hp _ hturn henabled.2.1.symm
    · exact hmine (.inl rfl) hbehind.1 hp hbehind.2.symm
  · rintro cards rfl htakes
    by_cases hp : p = .nowhere
    · have htaken := hdeal.taken.taker_lt (by rw [henabled.1]; rfl)
      rw [hdeal.phase.players] at htaken
      exact hseat hp _ htaken htakes
    · exact hmine (.inr rfl) hbehind.1 hp (hbehind.2.symm.trans htakes)

/-- The answer of the bot arrives. -/
theorem answer (h : Agreeing n u s) (hn : n = 3 ∨ n = 4 ∨ n = 5) (hu : u ≠ invalidUid)
    {dealer : Dealer} {p : Place} {reply : Reply} (hspot : s.table.Spot u p) (hp : p ≠ .nowhere)
    (hinbox : (s.bots u).inbox = [])
    (hanswer : Answer s.table.mEngine p (s.bots u).ctx.view reply)
    (hdiscard : s.table.AcceptsDiscard u reply.data) {sent : List (ℕ × Reply)}
    (hsent : ∀ message ∈ sent, Bidding message.2.data) (hnone : answersOf u sent = []) :
    Agreeing n u (({ s with sent := sent } : BotTable).receive
      (.executeRequest dealer u (.object reply.data))) := by
  obtain ⟨plays, hdeal⟩ := h.deal
  have hread : cmdOf reply.data = str "Card" ∧ s.table.requestAction dealer u (.object reply.data) =
        .card (Card.ofString (textAt reply.data "card")) p ∨
      cmdOf reply.data = str "Discard" ∧ s.table.requestAction dealer u (.object reply.data) =
        .discard (Deck.ofString (textAt reply.data "discard")) :=
    PlayingTable.action_answer hspot hdeal.seats hanswer hdiscard dealer
  have hcounts : s.table.BidCounts (.executeRequest dealer u (.object reply.data)) := by
    change s.table.mEngine.BidCounts (s.table.requestAction dealer u (.object reply.data))
    rcases hread with ⟨-, hread⟩ | ⟨-, hread⟩ <;> rw [hread] <;> trivial
  refine receiveRequest (s := { s with sent := sent }) hn hu hdeal hspot hsent h.uuid hcounts ?_ ?_
  · intro deal hd
    change s.table.requestAction dealer u (.object reply.data) = _ at hd
    rcases hread with ⟨-, hread⟩ | ⟨-, hread⟩ <;> rw [hread] at hd <;> contradiction
  · intro a msgs plays' henabled _ hnews
    change Standing (s.table.mEngine.act a) p _ ((s.bots u).inbox ++ msgs) (answersOf u sent)
    rw [hinbox, List.nil_append, hnone]
    refine Standing.accept hanswer hp hdeal.phase henabled ?_ hnews
    rcases hread with ⟨-, hread⟩ | ⟨-, hread⟩
    · exact .inl hread
    · exact .inr hread

/-- What a list of messages holds without one of them. -/
theorem answersOf_eraseIdx {sent : List (ℕ × Reply)} {i : ℕ} {message : ℕ × Reply}
    (hi : sent[i]? = some message) :
    ∃ before behind, answersOf u sent = before ++ answersOf u [message] ++ behind ∧
      answersOf u (sent.eraseIdx i) = before ++ behind := by
  obtain ⟨hlt, hmessage⟩ := List.getElem?_eq_some_iff.mp hi
  have hsplit : sent = sent.take i ++ [message] ++ sent.drop (i + 1) := by
    rw [List.append_assoc, List.singleton_append, ← hmessage, ← List.drop_eq_getElem_cons hlt,
      List.take_append_drop]
  refine ⟨answersOf u (sent.take i), answersOf u (sent.drop (i + 1)), ?_, ?_⟩
  · conv_lhs => rw [hsplit]
    simp only [answersOf, List.filter_append, List.map_append]
  · rw [List.eraseIdx_eq_take_drop_succ]
    simp only [answersOf, List.filter_append, List.map_append]

theorem mem_answersOf {sent : List (ℕ × Reply)} {reply : Reply} :
    reply ∈ answersOf u sent ↔ (u, reply) ∈ sent ∧ reply.isAnswer = true := by
  simp only [answersOf, List.mem_map, List.mem_filter, Bool.and_eq_true, decide_eq_true_eq]
  constructor
  · rintro ⟨⟨w, reply'⟩, ⟨hmem, rfl, hanswer⟩, rfl⟩
    exact ⟨hmem, hanswer⟩
  · rintro ⟨hmem, hanswer⟩
    exact ⟨(u, reply), ⟨hmem, rfl, hanswer⟩, rfl⟩

theorem answersOf_append (sent : List (ℕ × Reply)) (w : ℕ) (out : List Reply) :
    answersOf u (sent ++ out.map fun reply => (w, reply)) =
      answersOf u sent ++ if w = u then out.filter Reply.isAnswer else [] := by
  simp only [answersOf, List.filter_append, List.map_append, List.filter_map, List.map_map]
  congr 1
  by_cases hw : w = u
  · rw [if_pos hw]
    have hsame : (fun message : ℕ × Reply => message.1 = u && message.2.isAnswer) ∘
        (fun reply => (w, reply)) = Reply.isAnswer := by
      funext reply
      simp [hw]
    rw [hsame]
    exact List.map_id _
  · rw [if_neg hw]
    have hnone : (fun message : ℕ × Reply => message.1 = u && message.2.isAnswer) ∘
        (fun reply => (w, reply)) = fun _ => false := by
      funext reply
      simp [hw]
    rw [hnone, List.filter_false]
    rfl

theorem handle (h : Agreeing n u s) (hn : n = 3 ∨ n = 4 ∨ n = 5) (hu : 10 ≤ u) (w : ℕ)
    (script : Script) : Agreeing n u (s.handle w script) := by
  obtain ⟨plays, hdeal⟩ := h.deal
  obtain ⟨p, hspot, hstanding⟩ := h.standing
  cases hinbox : (s.bots w).inbox with
  | nil =>
    rw [handle_nil hinbox]
    exact h
  | cons m rest =>
    rw [handle_cons hinbox]
    refine ⟨h.deal, ?_, ?_, p, hspot, ?_⟩
    · intro message hmessage
      rcases List.mem_append.mp hmessage with hold | hnew
      · exact h.bidding message hold
      · obtain ⟨reply, hreply, rfl⟩ := List.mem_map.mp hnew
        exact Bot.handleRequest_says script _ m reply hreply
    · dsimp only
      by_cases hw : w = u
      · subst hw
        have hconnected : (s.bots w).ctx.mMyself.isConnected = true := by
          rw [Player.isConnected, h.uuid]
          exact decide_eq_true hu
        rw [Function.update_self]
        exact (Bot.handleRequest_uuid script hconnected m).trans h.uuid
      · rw [Function.update_of_ne (Ne.symm hw)]
        exact h.uuid
    · dsimp only
      rw [answersOf_append]
      by_cases hw : w = u
      · subst hw
        have hconnected : (s.bots w).ctx.mMyself.isConnected = true := by
          rw [Player.isConnected, h.uuid]
          exact decide_eq_true hu
        rw [Function.update_self, if_pos rfl]
        rw [hinbox] at hstanding
        refine hstanding.handle hn hconnected (fun hp => ?_) hdeal.phase script
        exact hdeal.players ▸ hspot.lt hp
      · rw [Function.update_of_ne (Ne.symm hw), if_neg hw, List.append_nil]
        exact hstanding

theorem arrive (h : Agreeing n u s) (hn : n = 3 ∨ n = 4 ∨ n = 5) (hu : u ≠ invalidUid) {i : ℕ}
    {dealer : Dealer}
    (hdiscard : ∀ message ∈ s.sent[i]?, s.table.AcceptsDiscard message.1 message.2.data)
    (hfair : ∀ message ∈ s.sent[i]?, ∀ deal,
      s.table.action (.executeRequest dealer message.1 (.object message.2.data)) = .newDeal deal →
        deal.Fair n) : Agreeing n u (s.arrive i dealer) := by
  rw [BotTable.arrive]
  cases hi : s.sent[i]? with
  | none => exact h
  | some message =>
    obtain ⟨w, reply⟩ := message
    have hdiscard := hdiscard (w, reply) hi
    have hfair := hfair (w, reply) hi
    have hsays : Bidding reply.data := h.bidding (w, reply) (List.mem_of_getElem? hi)
    have hsent : ∀ message ∈ s.sent.eraseIdx i, Bidding message.2.data :=
      fun message hmem => h.bidding message (List.mem_of_mem_eraseIdx hmem)
    obtain ⟨before, behind, hall, hleft⟩ := answersOf_eraseIdx (u := u) hi
    obtain ⟨p, hspot, hstanding⟩ := h.standing
    dsimp only
    by_cases hmine : w = u ∧ reply.isAnswer = true
    · obtain ⟨rfl, hreply⟩ := hmine
      have hone : answersOf w [(w, reply)] = [reply] := by
        simp [answersOf, hreply]
      rw [hone] at hall
      have hanswered : answersOf w s.sent ≠ [] := by
        rw [hall]
        simp
      cases hstanding with
      | calm hnone _ _ => exact absurd hnone hanswered
      | asked _ hnone _ _ _ _ => exact absurd hnone hanswered
      | lost _ _ hnone _ => exact absurd hnone hanswered
      | @answered reply' hp hinbox hanswers hanswer =>
        rw [hanswers] at hall
        obtain ⟨rfl, rfl, rfl⟩ : before = [] ∧ behind = [] ∧ reply = reply' := by
          cases before with
          | nil =>
            obtain ⟨hsame, hbehind⟩ := List.cons.inj hall
            exact ⟨rfl, hbehind.symm, hsame.symm⟩
          | cons x before =>
            have hlength := congrArg List.length hall
            simp only [List.length_append, List.length_cons, List.length_nil] at hlength
            omega
        split_ifs
        · exact h.answer hn hu hspot hp hinbox hanswer hdiscard hsent hleft
        · exact ⟨h.deal, hsent, h.uuid, p, hspot, .lost hp hinbox hleft hanswer.owes⟩
    · have hother : answersOf u [(w, reply)] = [] := by
        rw [answersOf, List.filter_singleton]
        have hnot : (decide (w = u) && reply.isAnswer) = false := by
          rw [← Bool.not_eq_true, Bool.and_eq_true, decide_eq_true_eq]
          exact hmine
        rw [hnot]
        rfl
      rw [hother, List.append_nil] at hall
      have hkept : Agreeing n u { s with sent := s.sent.eraseIdx i } :=
        ⟨h.deal, hsent, h.uuid, p, hspot, (hleft.trans hall.symm) ▸ hstanding⟩
      split_ifs
      · refine hkept.request hn hu (fun hcmd => ?_) (.inr ?_) hfair ?_
        · rw [findValue_object (by decide)] at hcmd
          exact absurd hcmd hsays.1
        · intro hcmd
          rw [findValue_object (by decide)] at hcmd ⊢
          exact hsays.2 hcmd
        · by_cases hw : w = u
          · refine .inr (.inr ?_)
            rw [findValue_object (by decide)]
            have hnot : reply.isAnswer = false := by
              rw [← Bool.not_eq_true]
              exact fun hanswer => hmine ⟨hw, hanswer⟩
            rw [Reply.isAnswer, Bool.or_eq_false_iff, decide_eq_false_iff_not,
              decide_eq_false_iff_not] at hnot
            exact hnot
          · exact .inr (.inl hw)
      · exact hkept

end Agreeing

/-- A run as the bots and the table promise it: in the middle of a deal nobody sits down or leaves
and no new game is asked for, and the discard of a taker is legal. -/
def Allowed (s : BotTable) : BotEvent → Prop
  | .call c => s.table.KeepsSeats c ∧ s.table.Outside c
  | .handle _ _ => True
  | .arrive i _ => ∀ message ∈ s.sent[i]?, s.table.AcceptsDiscard message.1 message.2.data

instance (s : BotTable) : DecidablePred s.Allowed
  | .call c => inferInstanceAs (Decidable (s.table.KeepsSeats c ∧ s.table.Outside c))
  | .handle _ _ => isTrue trivial
  | .arrive i _ =>
    inferInstanceAs (Decidable (∀ message ∈ s.sent[i]?, s.table.AcceptsDiscard message.1 _))

/-- The call that an event makes the table receive. -/
def called (s : BotTable) : BotEvent → Option Call
  | .call c => some c
  | .handle _ _ => none
  | .arrive i dealer => s.sent[i]?.map fun message =>
    .executeRequest dealer message.1 (.object message.2.data)

/-- Where cards are given out, they are a deal of the 78. -/
def DealsFair (n : ℕ) (s : BotTable) (event : BotEvent) : Prop :=
  ∀ c ∈ s.called event, ∀ deal, s.table.action c = .newDeal deal → deal.Fair n

theorem Agreeing.step {n u : ℕ} {s : BotTable} (h : Agreeing n u s)
    (hn : n = 3 ∨ n = 4 ∨ n = 5) (hu : 10 ≤ u) {event : BotEvent} (hallowed : s.Allowed event)
    (hfair : s.DealsFair n event) : Agreeing n u (s.step event) := by
  have hne : u ≠ invalidUid := by
    rintro rfl
    exact absurd hu (by decide)
  cases event with
  | call c =>
    obtain ⟨hseats, houtside⟩ := hallowed
    have hfair' := hfair c rfl
    cases c with
    | addPlayer w => exact h.addPlayer hn hne hseats
    | removePlayer w => exact h.removePlayer hn hne hseats
    | executeRequest dealer srcUuid json =>
      rw [PlayingTable.Outside] at houtside
      by_cases hcmd : (json.findValue (str "cmd")).getString = str "RequestNewGame"
      · rw [if_pos hcmd] at houtside
        refine h.request hn hne (fun _ => houtside) (.inr fun hbid => ?_) hfair' (.inr (.inr ?_))
        · rw [hcmd] at hbid
          exact absurd hbid (by decide)
        · rw [hcmd]
          decide
      · rw [if_neg hcmd] at houtside
        exact h.request hn hne (fun he => absurd he hcmd) (.inl houtside) hfair' (.inl houtside)
  | handle w script => exact h.handle hn hu w script
  | arrive i dealer =>
    refine h.arrive hn hne hallowed fun message hmessage => ?_
    refine hfair _ ?_
    rw [called, Option.mem_def.mp hmessage]
    rfl

/-- What a bot knows when it answers with a card, and that the table takes the card. -/
def AnswersRightly (s : BotTable) (u : ℕ) (script : Script) : Prop :=
  let ctx := (s.bots u).ctx
  let e := s.table.mEngine
  ∀ json ∈ (s.bots u).inbox.head?, cmdOf json = str "PlayCard" →
    ∀ reply ∈ (Bot.handleRequest script ctx json).2, cmdOf reply.data = str "Card" →
      ctx.mCurrentTrick.mDeck = e.currentTrick.mDeck ∧
        ctx.mDeck.cards = (e.mPlayers (s.table.getPlayerPlace u).value).cards ∧
        s.table.AcceptsCard u reply.data

instance (s : BotTable) (u : ℕ) (script : Script) : Decidable (s.AnswersRightly u script) :=
  inferInstanceAs (Decidable (∀ json ∈ (s.bots u).inbox.head?, _ → ∀ reply ∈ _, _ → _))

/-- The cards of a bot that are on their way will be taken. -/
def CardsAccepted (s : BotTable) (u : ℕ) : Prop :=
  ∀ reply, (u, reply) ∈ s.sent → cmdOf reply.data = str "Card" → s.table.AcceptsCard u reply.data

theorem Agreeing.answersRightly {n u : ℕ} {s : BotTable} (h : Agreeing n u s)
    (hn : n = 3 ∨ n = 4 ∨ n = 5) (hu : 10 ≤ u) (script : Script) : s.AnswersRightly u script := by
  obtain ⟨plays, hdeal⟩ := h.deal
  obtain ⟨p, hspot, hstanding⟩ := h.standing
  have hconnected : (s.bots u).ctx.mMyself.isConnected = true := by
    rw [Player.isConnected, h.uuid]
    exact decide_eq_true hu
  have hanswer : ∀ reply : Reply, cmdOf reply.data = str "Card" → reply.isAnswer = true := by
    intro reply hcard
    rw [Reply.isAnswer, hcard]
    rfl
  intro json hjson hcmd reply hreply hcard
  have hasks : Asks (s.bots u).ctx.view.place json := by
    by_contra hnot
    have hsilent := (Bot.handleRequest_look script hconnected hnot).2 reply hreply
    exact Bool.false_ne_true (hsilent.symm.trans (hanswer reply hcard))
  obtain ⟨rest, hinbox⟩ : ∃ rest, (s.bots u).inbox = json :: rest := by
    cases hcons : (s.bots u).inbox with
    | nil =>
      rw [hcons] at hjson
      cases hjson
    | cons m rest =>
      rw [hcons] at hjson
      exact ⟨rest, by rw [Option.some.inj hjson]⟩
  rw [hinbox] at hstanding
  cases hstanding with
  | calm _ hquiet _ => exact absurd hasks hquiet.1
  | @asked pre m hp _ hpre hquiet hrequest hfollows =>
    cases pre with
    | cons m0 pre =>
      obtain ⟨rfl, rfl⟩ := List.cons.inj hpre
      exact absurd hasks hquiet.1
    | nil =>
      obtain ⟨rfl, rfl⟩ := List.cons.inj hpre
      cases hrequest with
      | discard _ _ hdiscard => exact absurd (hcmd.symm.trans hdiscard) (by decide)
      | card hs hturn _ hplace =>
        obtain ⟨reply', hreplies, -, hright⟩ :=
          Standing.playCard hn hconnected hdeal.phase hfollows hs hturn hcmd hplace script
        rw [hreplies] at hreply
        obtain rfl := List.mem_singleton.mp hreply
        have hhand : (s.bots u).ctx.mDeck.mDeck = (s.table.mEngine.mPlayers p.value).mDeck :=
          hfollows.hand (by rw [hs]; rfl)
        refine ⟨hfollows.trick (by rw [hs]; rfl), ?_, ?_⟩
        · rw [hspot.getPlayerPlace hdeal.seats]
          exact congrArg (fun cards : List Card => (cards : Multiset Card)) hhand
        · exact PlayingTable.acceptsCard_of_answer hspot hdeal.seats hright hcard
  | answered _ hnone _ _ => cases hnone
  | lost _ hnone _ _ => cases hnone

theorem Agreeing.cardsAccepted {n u : ℕ} {s : BotTable} (h : Agreeing n u s) :
    s.CardsAccepted u := by
  obtain ⟨plays, hdeal⟩ := h.deal
  obtain ⟨p, hspot, hstanding⟩ := h.standing
  intro reply hsent hcard
  have hmem : reply ∈ answersOf u s.sent := by
    refine Agreeing.mem_answersOf.mpr ⟨hsent, ?_⟩
    rw [Reply.isAnswer, hcard]
    rfl
  have hempty : answersOf u s.sent ≠ [] := List.ne_nil_of_mem hmem
  cases hstanding with
  | calm hnone _ _ => exact absurd hnone hempty
  | asked _ hnone _ _ _ _ => exact absurd hnone hempty
  | lost _ _ hnone _ => exact absurd hnone hempty
  | answered _ _ hone hanswer =>
    rw [hone] at hmem
    obtain rfl := List.mem_singleton.mp hmem
    exact PlayingTable.acceptsCard_of_answer hspot hdeal.seats hanswer hcard

theorem start_agreeing (t : PlayingTable) {n : ℕ} (hn : n = 3 ∨ n = 4 ∨ n = 5) (randomPlace : Place)
    {u : ℕ} (hu : u ≠ invalidUid) : Agreeing n u (start t n randomPlace) where
  deal := ⟨[], PlayingTable.createTable_inDeal t randomPlace hn⟩
  bidding := fun message hmessage => absurd hmessage List.not_mem_nil
  uuid := rfl
  standing := by
    refine ⟨.nowhere, .away fun i hi => ?_, .calm rfl trivial fun hne => absurd rfl hne⟩
    have hlt : i < n := hi
    change ((t.createTable n randomPlace).mPlayers i).uuid ≠ u
    rw [PlayingTable.createTable_mPlayers t randomPlace (by omega) hlt]
    exact hu.symm

/-- A bot that answers with a card has the trick and the hand of the engine, and the table takes the
card, also when it comes in behind other messages. -/
theorem bots_agree (t : PlayingTable) {n : ℕ} (hn : n = 3 ∨ n = 4 ∨ n = 5) (randomPlace : Place)
    {u : ℕ} (hu : 10 ≤ u) (events : List BotEvent)
    (hallowed : Guarded step Allowed (start t n randomPlace) events)
    (hfair : Guarded step (DealsFair n) (start t n randomPlace) events) :
    let s := run step (start t n randomPlace) events
    (∀ script, s.AnswersRightly u script) ∧ s.CardsAccepted u := by
  have hne : u ≠ invalidUid := by
    rintro rfl
    exact absurd hu (by decide)
  have hagree : Agreeing n u (run step (start t n randomPlace) events) := by
    refine (hallowed.and hfair).invariant (Agreeing n u) ?_ (start_agreeing t hn randomPlace hne)
    intro s event h hguard
    exact h.step hn hu hguard.1 hguard.2
  exact ⟨hagree.answersRightly hn hu, hagree.cardsAccepted⟩

/-- Whoever gives out cards gives out all 78. -/
def dealsFairly (n : ℕ) : BotEvent → Prop
  | .call c => c.DealsFairly n
  | .handle _ _ => True
  | .arrive _ dealer => ∀ distribution, (dealer n distribution).Fair n

theorem called_fair {n : ℕ} {event : BotEvent} (hevent : dealsFairly n event) {s : BotTable}
    {c : Call} (hc : c ∈ s.called event) : c.DealsFairly n := by
  cases event with
  | call c' =>
    obtain rfl := Option.some.inj hc
    exact hevent
  | handle w script => cases hc
  | arrive i dealer =>
    obtain ⟨message, -, rfl⟩ := Option.mem_map.mp hc
    exact hevent

theorem step_nbPlayers (s : BotTable) (event : BotEvent) :
    (s.step event).table.nbPlayers = s.table.nbPlayers := by
  cases event with
  | call c => exact PlayingTable.apply_nbPlayers s.table c
  | handle w script =>
    cases hinbox : (s.bots w).inbox with
    | nil => rw [step, handle_nil hinbox]
    | cons m rest => rw [step, handle_cons hinbox]
  | arrive i dealer =>
    rw [step, BotTable.arrive]
    split
    · rfl
    · dsimp only
      split_ifs
      · exact PlayingTable.apply_nbPlayers s.table _
      · rfl

theorem guarded_dealsFair (t : PlayingTable) {n : ℕ} (randomPlace : Place) {events : List BotEvent}
    (h : ∀ event ∈ events, dealsFairly n event) :
    Guarded step (DealsFair n) (start t n randomPlace) events := by
  refine (guarded_of_forall step (dealsFairly n) _ events h).strengthen
    (fun s => s.table.nbPlayers = n) ?_ ?_ rfl
  · intro s event hn _
    exact (step_nbPlayers s event).trans hn
  · intro s event hn hevent c hc deal hdeal
    have hfair := called_fair hevent hc
    rw [← hn] at hfair ⊢
    exact hfair.fair hdeal

/-- A script that bids for the highest contract, and for a slam, with any hand. -/
def boasts : Script := fun name _ =>
  if name = str "AnnounceBid" then .string (str "Guard against")
  else if name = str "AnnounceSlam" then .boolean true
  else .invalid

/-- Three bots handle a message each, and what they have sent arrives. -/
def botRound (dealer : Dealer) : List BotEvent :=
  [.handle 10 boasts, .handle 11 boasts, .handle 12 boasts,
   .arrive 0 dealer, .arrive 0 dealer, .arrive 0 dealer]

/-- Three bots sit down and go on for `k` rounds. -/
def botRounds (dealer : Dealer) (k : ℕ) : List BotEvent :=
  [.call (.addPlayer 10), .call (.addPlayer 11), .call (.addPlayer 12)] ++
    (List.replicate k (botRound dealer)).flatten

theorem botRounds_fair {dealer : Dealer} {n : ℕ}
    (h : ∀ distribution, (dealer n distribution).Fair n) (k : ℕ) :
    ∀ event ∈ botRounds dealer k, dealsFairly n event := by
  have hjoin : ∀ event ∈ [BotEvent.call (.addPlayer 10), .call (.addPlayer 11),
      .call (.addPlayer 12)], dealsFairly n event := by
    simp [dealsFairly, Call.DealsFairly]
  have hround : ∀ event ∈ botRound dealer, dealsFairly n event := by
    simp only [botRound, dealsFairly, List.forall_mem_cons]
    exact ⟨trivial, trivial, trivial, h, h, h, List.forall_mem_nil _⟩
  intro event hevent
  rcases List.mem_append.mp hevent with hmem | hmem
  · exact hjoin event hmem
  · obtain ⟨round, hreplicate, hmem⟩ := List.mem_flatten.mp hmem
    rw [List.eq_of_mem_replicate hreplicate] at hmem
    exact hround event hmem

/-- The second bot of a trick is asked for its card, and answers with one. -/
theorem bots_agree_three :
    let s := run step (start {} 3 .south) (botRounds plainDealer 10)
    (∃ json ∈ (s.bots 10).inbox.head?, ∃ reply ∈ (Bot.handleRequest boasts (s.bots 10).ctx json).2,
        cmdOf json = str "PlayCard" ∧ cmdOf reply.data = str "Card") ∧
      (∀ script, s.AnswersRightly 10 script) ∧ s.CardsAccepted 10 :=
  ⟨by decide +kernel,
    bots_agree {} (.inl rfl) .south (by decide) (botRounds plainDealer 10) (by decide +kernel)
      (guarded_dealsFair {} .south (botRounds_fair (plainDealer_fair (.inl rfl)) 10))⟩

/-- Hands and a dog with nothing but the highest trump. -/
def oneTrump (k : ℕ) : Deck := { mDeck := List.replicate k ⟨21, Card.trumps⟩ }

def threeAlike : DealGenerator :=
  { mPlayers := fun i => if i < 3 then oneTrump 24 else {}
    mDogDeck := oneTrump 6
    mFirstPlayer := .south }

/-- The table deals what the file says. -/
def alikeTable : PlayingTable := { mGame := { deals := [{ mType := .custom }] } }

def alikeDealer : Dealer := customDealer (Engine.oneFile threeAlike.saveFile) plainDealer

/-- Who plays a card loses all cards that are the same, and has none for the next trick. -/
theorem bots_disagree :
    ¬ ∀ (t : PlayingTable) (n : ℕ), (n = 3 ∨ n = 4 ∨ n = 5) → ∀ (randomPlace : Place) (u : ℕ),
      10 ≤ u → ∀ events : List BotEvent, Guarded step Allowed (start t n randomPlace) events →
        let s := run step (start t n randomPlace) events
        (∀ script, s.AnswersRightly u script) ∧ s.CardsAccepted u := by
  intro hall
  obtain ⟨hright, -⟩ := hall alikeTable 3 (.inl rfl) .south 10 (by decide)
    (botRounds alikeDealer 16) (by decide +kernel)
  exact absurd (hright boasts) (by decide +kernel)

end BotTable

end TarotClub
