import TarotClub.BotPlay
import TarotClub.BotReplies
import TarotClub.DealEnds

namespace TarotClub

namespace Engine

theorem AwaitsMove.isAcked {e : Engine} {p : Place} (h : e.AwaitsMove p) :
    e.mSequence.isAcked = false := by
  rcases h with ⟨hs | hs | hs, -⟩ | ⟨hs, -⟩
  all_goals rw [hs]; rfl

/-- A table without a fifth player calls no king. -/
theorem act_kingless {e : Engine} {a : Action} (ha : e.Enabled a) (hfour : e.mCtx.mNbPlayers ≠ 5)
    (hking : e.mSequence ≠ .waitForKingCall ∧ e.mSequence ≠ .waitForShowKingCall) :
    (e.act a).mSequence ≠ .waitForKingCall ∧ (e.act a).mSequence ≠ .waitForShowKingCall := by
  by_cases hstay : a = .stay
  · rw [hstay]
    exact hking
  have hleads : ∀ {seq : Sequence}, seq ∉ a.leadsTo → (e.act a).mSequence ≠ seq := by
    intro seq hnot hs
    exact hnot (hs ▸ act_mem_leadsTo ha hstay)
  have hmanage : ∀ e : Engine, e.manageAfterBidSequence.mSequence ≠ .waitForKingCall ∧
      e.manageAfterBidSequence.mSequence ≠ .waitForShowKingCall := by
    intro e
    rcases manageAfterBidSequence_mSequence e with hs | hs
    all_goals rw [hs]; exact ⟨Sequence.noConfusion, Sequence.noConfusion⟩
  cases a with
  | stay => exact absurd rfl hstay
  | kingCall c => exact absurd ha.1 hking.1
  | manageAfterBid =>
    rw [act, startIfReady_mSequence]
    exact hmanage e
  | bidSequence =>
    obtain ⟨hctx, -, -⟩ := isEndOfTrick_keeps e
    rw [act, startIfReady_mSequence, bidSequence]
    dsimp only
    rw [hctx]
    split_ifs with hover hpass hcall
    · exact ⟨Sequence.noConfusion, Sequence.noConfusion⟩
    · exact absurd hcall.1 hfour
    · exact hmanage _
    · exact ⟨Sequence.noConfusion, Sequence.noConfusion⟩
  | _ => exact ⟨hleads (by simp [Action.leadsTo]), hleads (by simp [Action.leadsTo])⟩

end Engine

/-- What the engine waits for from the player on the seat. -/
inductive Serves (e : Engine) (p : Place) : JsonObject → Prop
  | ack : e.mSequence.isAcked = true → Serves e p (PlayerContext.sync e.mSequence).getObj
  | bid {c : Contract} {slam : Bool} : e.mSequence = .waitForBid → e.mCurrentPlayer = p →
    Serves e p (PlayerContext.buildReplyBid c slam).getObj
  | handle : e.mSequence = .waitForHandle → e.mCurrentPlayer = p →
    Serves e p (PlayerContext.buildHandle {}).getObj
  | card {c : Card} : e.mSequence = .waitForPlayedCard → e.mCurrentPlayer = p →
    c.isValid = true → (e.mPlayers p.value).canPlayCard c e.currentTrick = true →
    Serves e p (PlayerContext.buildSendCard c).getObj
  | discard {discard : Deck} : e.mSequence = .waitForDiscard → e.mCtx.mBid.taker = p →
    (∀ c ∈ discard.mDeck, c.isValid = true) →
    e.takerDeck.testDiscard discard e.mCtx.mDog e.mCtx.mNbPlayers = true →
    Serves e p (PlayerContext.buildDiscard discard).getObj

namespace PlayingTable

/-- The table waits for the player on the seat, for an acknowledgement or for a move. -/
def Waits (t : PlayingTable) (p : Place) : Prop :=
  t.mEngine.mSequence.isAcked = true ∧ (t.mPlayers p.value).ack = false ∨ t.mEngine.AwaitsMove p

theorem Waits.expects {t : PlayingTable} {p : Place} (h : t.Waits p) : t.mEngine.Expects p := by
  rcases h with ⟨hacked, -⟩ | hmove
  · exact .inl hacked
  · exact .inr hmove

variable {t : PlayingTable} {u : ℕ} {p : Place} {data : JsonObject}

/-- In a deal the engine moves when a step is complete. -/
theorem syncedAction_ne_stay (dealer : Dealer) {seq : Sequence} (hacked : seq.isAcked = true)
    (hrunning : seq.isRunning = true) : t.syncedAction dealer seq ≠ .stay := by
  cases seq with
  | waitForPlayers | waitForEndOfDeal => exact absurd hrunning Bool.false_ne_true
  | badStep | stopped | waitForBid | waitForKingCall | waitForDiscard | waitForHandle
  | waitForPlayedCard => exact absurd hacked (by decide)
  | _ => exact Engine.Action.noConfusion

/-- When the message arrives, the engine moves, or it does not wait for the player any more. -/
theorem Spot.not_waits (h : t.Spot u p) (hp : p ≠ .nowhere) (hn : t.nbPlayers ≤ 5)
    (hrunning : t.mEngine.mSequence.isRunning = true) (hserves : Serves t.mEngine p data)
    (dealer : Dealer) (hstay : t.action (.executeRequest dealer u (.object data)) = .stay) :
    ¬ (t.apply (.executeRequest dealer u (.object data))).Waits p := by
  have hplace := h.getPlayerPlace hn
  have hmoves : ∀ {a : Engine.Action}, a ≠ .stay → t.requestAction dealer u (.object data) = a →
      False := by
    intro a hne ha
    exact hne (ha.symm.trans hstay)
  cases hserves with
  | ack hacked =>
    rcases action_sync hacked (hplace.symm ▸ hp) dealer with ⟨-, htable⟩ | hfire
    · have hup : ((t.noteAck t.mEngine.mSequence u).mPlayers p.value).ack = true := by
        cases h with
        | seat _ hlt huuid _ => exact (noteAck_ack t _ u _).mpr (.inr ⟨hlt, huuid, rfl⟩)
        | away _ => exact absurd rfl hp
      change ¬ (t.apply (.executeRequest dealer u (PlayerContext.sync t.mEngine.mSequence))).Waits p
      rw [htable]
      rintro (⟨-, hdown⟩ | hmove)
      · exact Bool.false_ne_true (hdown.symm.trans hup)
      · exact Bool.false_ne_true (hmove.isAcked.symm.trans hacked)
    · exact absurd (hfire.symm.trans hstay) (syncedAction_ne_stay dealer hacked hrunning)
  | @bid c slam hs hturn =>
    obtain ⟨hcontract, hslam⟩ := PlayerContext.buildReplyBid_read c slam
    refine (hmoves (a := .bid c slam p) Engine.Action.noConfusion ?_).elim
    change t.requestAction dealer u (PlayerContext.buildReplyBid c slam) = _
    rw [requestAction_of_answers dealer t u (PlayerContext.buildReplyBid c slam) .replyBid,
      answerAction, bidAction, hplace, hcontract, hslam]
    exact if_pos ⟨hp, hturn.symm, hs⟩
  | handle hs hturn =>
    change t.requestAction dealer u (PlayerContext.buildHandle {}) = _ at hstay
    rw [requestAction_of_answers dealer t u (PlayerContext.buildHandle {}) .handle, answerAction,
      handleAction, hplace, if_pos ⟨hs, hturn⟩] at hstay
    split_ifs at hstay
  | @card c hs hturn hvalid hplay =>
    refine (hmoves (a := .card c p) Engine.Action.noConfusion ?_).elim
    change t.requestAction dealer u (PlayerContext.buildSendCard c) = _
    rw [requestAction_of_answers dealer t u (PlayerContext.buildSendCard c) .card, answerAction,
      cardAction, PlayerContext.buildSendCard_read hvalid, hplace]
    exact if_pos ⟨hvalid, hs, hturn, hplay⟩
  | @discard discard hs htaker hvalid htest =>
    have hread : Deck.ofString ((PlayerContext.buildDiscard discard).findValue
        (str "discard")).getString = discard.setOwner .noTeam := Deck.ofString_toString hvalid
    refine (hmoves (a := .discard (discard.setOwner .noTeam)) Engine.Action.noConfusion ?_).elim
    change t.requestAction dealer u (PlayerContext.buildDiscard discard) = _
    rw [requestAction_of_answers dealer t u (PlayerContext.buildDiscard discard) .discard,
      answerAction, discardAction, hread, hplace]
    exact if_pos ⟨hs, htaker, htest⟩

/-- In a deal, a request that does not move the engine takes no flag down. -/
theorem Open.ack_of_stay (ht : t.Open) (h0 : 0 < t.nbPlayers)
    (hrunning : t.mEngine.mSequence.isRunning = true) {dealer : Dealer} {srcUuid : ℕ}
    {json : JsonValue} (hstay : t.requestAction dealer srcUuid json = .stay) {i : ℕ}
    (hup : (t.mPlayers i).ack = true) :
    ((t.executeRequest dealer srcUuid json).table.mPlayers i).ack = true := by
  have hsame : ∀ {r : Response}, r.table.mPlayers = t.mPlayers →
      (r.table.mPlayers i).ack = true := by
    intro r hr
    rw [hr]
    exact hup
  revert hstay
  refine request_cases (R := fun r a => a = Engine.Action.stay → (r.table.mPlayers i).ack = true)
    dealer t srcUuid json (fun _ => hup) ?_ ?_ ?_ ?_ ?_ ?_ ?_
  · intro _ hstay
    unfold ackAction at hstay
    unfold PlayingTable.executeAck
    dsimp only at hstay ⊢
    by_cases hsrc : t.getPlayerPlace srcUuid ≠ .nowhere
    swap
    · rw [if_neg hsrc]
      exact hup
    rw [if_pos hsrc]
    by_cases hbad : ackFromString (json.findValue (str "step")).getString = .badStep
    · rw [if_pos hbad]
      exact hup
    have hacked := isAcked_ackFromString hbad
    rw [if_neg hbad]
    generalize ackFromString (json.findValue (str "step")).getString = seq at hstay hbad hacked ⊢
    cases hsynced : (t.sync seq srcUuid).1 with
    | true =>
      rw [if_pos ⟨hsrc, hbad, hsynced⟩] at hstay
      refine absurd hstay (syncedAction_ne_stay dealer hacked ?_)
      rw [← ht.mSequence_eq h0 hsynced]
      exact hrunning
    | false =>
      rw [if_neg Bool.false_ne_true, sync_of_not_fst hsynced]
      exact (noteAck_ack t seq srcUuid i).mpr (.inl hup)
  · intro _ hstay
    split_ifs at hstay with hadmin
    rw [PlayingTable.executeNewGame, if_neg hadmin]
    exact hup
  · intro _ hstay
    simp only [bidAction] at hstay
    split_ifs at hstay with hturn
    rw [PlayingTable.executeReplyBid]
    dsimp only
    rw [if_neg hturn]
    exact hup
  · intro _ _
    refine hsame ?_
    simp only [PlayingTable.executeDiscard]
    split_ifs <;> rfl
  · intro _ hstay
    unfold kingCallAction at hstay
    unfold PlayingTable.executeReplyKingCall
    dsimp only at hstay ⊢
    by_cases hturn : t.mEngine.mSequence = .waitForKingCall ∧
        t.mEngine.mCtx.mBid.taker = t.getPlayerPlace srcUuid
    swap
    · rw [if_neg hturn]
      exact hup
    by_cases hcheck : TarotContext.checkKingCall (Card.ofString
        (json.findValue (str "card")).getString) (t.mEngine.takerDeck.analyzeSuits {}) = true
    · rw [if_pos ⟨hturn.1, hturn.2, hcheck⟩] at hstay
      cases hstay
    · rw [if_pos hturn, Engine.setKingCalled, if_neg hcheck]
      exact hup
  · intro _ _
    refine hsame ?_
    simp only [PlayingTable.executeHandle]
    split_ifs
    exacts [rfl, gameSequence_mPlayers _, rfl]
  · intro _ _
    refine hsame ?_
    simp only [PlayingTable.executeCard]
    split_ifs <;> rfl

end PlayingTable

/-- A player that owes an answer and has a message to read has not read the request yet. -/
theorem Standing.follows_of_owes {e : Engine} {p : Place} {v : View} {m : JsonObject}
    {answers : List Reply} (h : Standing e p v [m] answers) (hp : p ≠ .nowhere)
    (howes : e.Owes p) : v.Follows e p := by
  cases h with
  | calm _ _ hfollows => exact absurd howes (hfollows hp).1
  | @asked pre m' _ _ hinbox _ _ hfollows =>
    cases pre with
    | nil => exact hfollows
    | cons m0 pre => exact absurd (congrArg List.length hinbox) (by simp)
  | answered _ hinbox _ _ => cases hinbox
  | lost _ hinbox _ _ => cases hinbox

namespace Deck

theorem testDiscard_congr {hand hand' dog dog' : Deck} (hhand : hand.mDeck = hand'.mDeck)
    (hdog : dog.mDeck = dog'.mDeck) (discard : Deck) (n : ℕ) :
    hand.testDiscard discard dog n = hand'.testDiscard discard dog' n := by
  simp only [testDiscard, hasCard, hhand, hdog]

end Deck

namespace Bot

variable {ctx : PlayerContext} {e : Engine} {p : Place} {m : JsonObject} {n mId : ℕ}
  {plays : List (Card × Place)} {answers : List Reply}

/-- A bot that handles the message that asks it sends what is waited for to its table, or it cannot
put enough cards aside. -/
theorem handleRequest_serves (hn : n = 3 ∨ n = 4) (script : Script)
    (hctx : ctx.mMyself.isConnected = true) (hfour : ctx.mGameState.mNbPlayers = 4)
    (hphase : e.Phase n plays) (htaken : e.Taken) (hp : p ≠ .nowhere)
    (hstanding : Standing e p ctx.view [m] answers) (hseat : sit ctx.seat m = (p, mId))
    (hprompts : Prompts e p m) :
    (∃ reply ∈ (handleRequest script ctx m).2, mId ∈ reply.dest ∧ Serves e p reply.data) ∨
      e.mSequence = .waitForDiscard ∧ ¬ e.CanDiscard n := by
  have hn5 : n = 3 ∨ n = 4 ∨ n = 5 := by omega
  have hthere : cmdOf m ≠ str "ReplyJoinTable" → ctx.mMyself.place = p ∧
      ctx.mMyself.tableId = mId := by
    intro hne
    rw [sit_of_ne hne] at hseat
    exact ⟨congrArg Prod.fst hseat, congrArg Prod.snd hseat⟩
  have hdest : ∀ json : JsonValue, ctx.mMyself.tableId = mId →
      mId ∈ (ctx.replyToTable json).dest := fun json htable => List.mem_singleton.mpr htable.symm
  cases hprompts with
  | step hacked hstep =>
    have hbad : e.mSequence ≠ .badStep := by
      intro hbad
      rw [hbad] at hacked
      exact absurd hacked (by decide)
    left
    rw [handleRequest_step script hctx hstep hbad, hseat]
    exact ⟨_, List.mem_singleton_self _, List.mem_singleton_self _, .ack hacked⟩
  | bid hs hturn hcmd hplace =>
    obtain ⟨hhere, htable⟩ := hthere (by rw [hcmd]; decide)
    obtain ⟨contract, slam, hreplies⟩ :=
      handleRequest_bid script hctx hcmd (hplace.trans hhere.symm)
    left
    rw [hreplies]
    exact ⟨_, List.mem_singleton_self _, hdest _ htable, .bid hs hturn⟩
  | handle hs hturn hcmd =>
    obtain ⟨-, htable⟩ := hthere (by rw [hcmd]; decide)
    left
    rw [(handleRequest_handles script hctx m).askForHandle_eq hcmd]
    exact ⟨_, List.mem_singleton_self _, hdest _ htable, .handle hs hturn⟩
  | play hrequest =>
    have hfollows := hstanding.follows_of_owes hp hrequest.owes
    cases hrequest with
    | card hs hturn hcmd hplace =>
      obtain ⟨-, htable⟩ := hthere (by rw [hcmd]; decide)
      obtain ⟨reply, hreplies, -, hanswer⟩ :=
        Standing.playCard hn5 hctx hphase hfollows hs hturn hcmd hplace script
      have hsent := (handleRequest_playCard script hctx hcmd
        (hplace.trans hfollows.place.symm)).2
      left
      rw [hreplies] at hsent ⊢
      refine ⟨reply, List.mem_singleton_self _, ?_, ?_⟩
      · rw [(List.cons.inj hsent).1]
        exact hdest _ htable
      · cases hanswer with
        | card hs hturn hvalid hplay _ _ _ => exact .card hs hturn hvalid hplay
        | discard hs' _ _ _ _ => exact absurd (hs.symm.trans hs') Sequence.noConfusion
    | discard hs htaker hcmd =>
      obtain ⟨-, htable⟩ := hthere (by rw [hcmd]; decide)
      by_cases henough : e.CanDiscard n
      swap
      · exact .inr ⟨hs, henough⟩
      have hlt : e.mCtx.mBid.taker.value < n := by
        have htaker_lt := htaken.taker_lt (by rw [hs]; rfl)
        rwa [hphase.players] at htaker_lt
      have hnb := hphase.players
      simp only [Engine.Phase, hs] at hphase
      have hhand : ctx.mDeck.mDeck = e.takerDeck.mDeck := by
        rw [Engine.takerDeck, htaker]
        exact hfollows.hand (by rw [hs]; rfl)
      have hdog : ctx.mDog.mDeck = e.mCtx.mDog.mDeck := hfollows.dog (by rw [hs]; rfl)
      have hcards : ctx.mDeck.cards + ctx.mDog.cards = e.takerDeck.cards + e.mCtx.mDog.cards := by
        rw [Deck.cards, Deck.cards, hhand, hdog]
        rfl
      obtain ⟨discard, htest, hreplies⟩ := buildDiscard_legal script hn hfour
        (hcards ▸ hphase.1.own_nodup hlt) (by rw [hhand, hdog]; exact henough)
      rw [Deck.testDiscard_congr hhand hdog] at htest
      left
      refine ⟨ctx.replyToTable (PlayerContext.buildDiscard discard), ?_, hdest _ htable,
        .discard hs htaker ?_ (hnb.symm ▸ htest)⟩
      · rw [(handleRequest_handles script hctx m).buildDiscard_eq hcmd, handleBuildDiscard]
        dsimp only
        rw [hreplies]
        exact List.mem_append_left _ (List.mem_singleton_self _)
      · have hle := (Engine.testDiscard_le htest).2.trans (hphase.1.own_le hlt)
        exact Engine.valid_of_le_cards hphase.1.cards hle

end Bot

end TarotClub
