import TarotClub.PlayReplica

namespace TarotClub

/-- The messages that are acknowledged, with the step that each of them is acknowledged for. -/
def stepList : List (Str × Sequence) :=
  [(str "ReplyJoinTable", .waitForPlayers),
   (str "NewGame", .waitForReady),
   (str "EndOfGame", .waitForReady),
   (str "NewDeal", .waitForCards),
   (str "ShowBid", .waitForShowBid),
   (str "AllPassed", .waitForAllPassed),
   (str "ShowKingCall", .waitForShowKingCall),
   (str "ShowDog", .waitForShowDog),
   (str "StartDeal", .waitForStartDeal),
   (str "ShowHandle", .waitForShowHandle),
   (str "ShowCard", .waitForShowCard),
   (str "EndOfTrick", .waitForEndOfTrick),
   (str "EndOfDeal", .waitForEndOfDeal)]

/-- The step that a message of this command is acknowledged for. -/
def stepOf (cmd : Str) : Sequence :=
  ((stepList.find? fun a => a.1 = cmd).map Prod.snd).getD .badStep

namespace Engine

/-- The engine waits for a move of the player on the seat. -/
def AwaitsMove (e : Engine) (p : Place) : Prop :=
  (e.mSequence = .waitForBid ∨ e.mSequence = .waitForHandle ∨
      e.mSequence = .waitForPlayedCard) ∧ e.mCurrentPlayer = p ∨
    e.mSequence = .waitForDiscard ∧ e.mCtx.mBid.taker = p

/-- The engine waits for everybody to acknowledge its step, or for a move of the player. -/
def Expects (e : Engine) (p : Place) : Prop := e.mSequence.isAcked = true ∨ e.AwaitsMove p

theorem Expects.awaitsMove {e : Engine} {p : Place} (h : e.Expects p)
    (hacked : e.mSequence.isAcked = false) : e.AwaitsMove p := by
  rcases h with hacked' | hmove
  · exact absurd (hacked.symm.trans hacked') Bool.false_ne_true
  · exact hmove

/-- Whose turn it is, where the engine waits for it. -/
theorem AwaitsMove.turn {e : Engine} {p : Place} (h : e.AwaitsMove p)
    (hne : e.mSequence ≠ .waitForDiscard) : e.mCurrentPlayer = p := by
  rcases h with ⟨-, hturn⟩ | ⟨hs, -⟩
  · exact hturn
  · exact absurd hs hne

/-- The one who has to put cards aside, where the engine waits for it. -/
theorem AwaitsMove.taker {e : Engine} {p : Place} (h : e.AwaitsMove p)
    (hs : e.mSequence = .waitForDiscard) : e.mCtx.mBid.taker = p := by
  rcases h with ⟨hmove, -⟩ | ⟨-, htaker⟩
  · rw [hs] at hmove
    exact absurd hmove (by decide)
  · exact htaker

end Engine

/-- The message asks the player on the seat for what the engine waits for. -/
inductive Prompts (e : Engine) (p : Place) (m : JsonObject) : Prop
  | step : e.mSequence.isAcked = true → stepOf (cmdOf m) = e.mSequence → Prompts e p m
  | bid : e.mSequence = .waitForBid → e.mCurrentPlayer = p → cmdOf m = str "RequestBid" →
    Place.ofString (textAt m "place") = p → Prompts e p m
  | handle : e.mSequence = .waitForHandle → e.mCurrentPlayer = p →
    cmdOf m = str "AskForHandle" → Prompts e p m
  | play : Requests e p m → Prompts e p m

/-- What the player on a seat is sent with an action of the engine, when that has led to this
state: nothing that the engine waits for is left unasked. -/
inductive Told (e : Engine) (p : Place) : Engine.Action → List JsonObject → Prop
  | stay : Told e p .stay []
  | silent {a : Engine.Action} : a ≠ .stay → ¬ e.Expects p → Told e p a []
  | message {a : Engine.Action} {m : JsonObject} : a ≠ .stay → (e.Expects p → Prompts e p m) →
    Told e p a [m]

namespace PlayingTable

variable {t : PlayingTable} {u : ℕ} {p : Place} {e : Engine} {a : Engine.Action}

theorem Spot.getPlayerUuid (h : t.Spot u p) (hp : p ≠ .nowhere) : t.getPlayerUuid p = u := by
  cases h with
  | seat _ _ huuid _ => exact huuid
  | away _ => exact absurd rfl hp

section
variable (h : t.Spot u p) (hu : u ≠ invalidUid) (hp : p ≠ .nowhere)
include h hu hp

/-- What is sent to all reaches the player. -/
theorem Spot.told (ha : a ≠ .stay) {data : JsonObject} (hprompts : e.Expects p → Prompts e p data) :
    Told e p a (messagesTo u (t.sendToAllPlayers data)) := by
  rcases h.sendToAllPlayers hu data with ⟨hnone, -⟩ | ⟨-, hmessages⟩
  · exact absurd hnone hp
  · rw [hmessages]
    exact .message ha hprompts

theorem Spot.toldStep (ha : a ≠ .stay) (hacked : e.mSequence.isAcked = true) {data : JsonObject}
    (hstep : stepOf (cmdOf data) = e.mSequence) :
    Told e p a (messagesTo u (t.sendToAllPlayers data)) :=
  h.told hu hp ha fun _ => .step hacked hstep

theorem Spot.toldNewGame : Told t.newGame.table.mEngine p .newGame
    (messagesTo u t.newGame.out) := by
  have hspot : ({ t with
      mScore := Score.newGame t.mGame.deals.length
      mEngine := t.mEngine.newGame } : PlayingTable).resetAck.Spot u p :=
    h.congr rfl fun i => resetAck_uuid _ i
  exact hspot.toldStep hu hp Engine.Action.noConfusion rfl rfl

omit hu in
theorem Spot.toldNewDeal (dealer : Dealer) (hn : t.nbPlayers ≤ 5) :
    Told (t.newDeal dealer).table.mEngine p (.newDeal (t.nextDeal dealer))
      (messagesTo u (t.newDeal dealer).out) := by
  have hnews := h.newDeal dealer hn
  have hseq : (t.newDeal dealer).table.mEngine.mSequence = .waitForCards := rfl
  generalize messagesTo u (t.newDeal dealer).out = msgs at hnews ⊢
  generalize t.nextDeal dealer = deal at hnews ⊢
  cases hnews with
  | absent hnone _ => exact absurd hnone hp
  | idle hidle _ => exact absurd hidle Bool.false_ne_true
  | newDeal hcmd _ =>
    refine .message Engine.Action.noConfusion fun _ => .step ?_ ?_
    · rw [hseq]
      rfl
    · rw [hseq, hcmd]
      rfl
  | showDog hopens _ _ _ _ => exact absurd hopens Bool.false_ne_true
  | startDeal hopens _ _ => exact absurd hopens Bool.false_ne_true

theorem Spot.toldStartDeal (ha : a ≠ .stay)
    (hseq : t.mEngine.mSequence = .waitForStartDeal) :
    Told t.startDeal.table.mEngine p a (messagesTo u t.startDeal.out) := by
  have hspot : t.startDeal.table.Spot u p := h.congr rfl fun _ => rfl
  have hseq' : t.startDeal.table.mEngine.mSequence = .waitForStartDeal := hseq
  refine hspot.toldStep hu hp ha ?_ ?_
  · rw [hseq']
    rfl
  · rw [hseq']
    rfl

theorem Spot.toldNextBid (ha : a ≠ .stay) (hseq : t.mEngine.mSequence ∈ afterAuction) :
    Told t.sendNextBidSequence.table.mEngine p a (messagesTo u t.sendNextBidSequence.out) := by
  have hstep : ∀ {seq : Sequence} {data : JsonObject}, t.mEngine.mSequence = seq →
      seq.isAcked = true → stepOf (cmdOf data) = seq →
      Told t.mEngine p a (messagesTo u (t.sendToAllPlayers data)) := by
    intro seq data hs hacked hdata
    exact h.toldStep hu hp ha (hs.symm ▸ hacked) (hdata.trans hs.symm)
  unfold PlayingTable.sendNextBidSequence
  simp only [afterAuction, List.mem_cons, List.not_mem_nil, or_false] at hseq
  rcases hseq with hs | hs | hs | hs | hs
  · simp only [hs]
    refine h.told hu hp ha fun hexpects => ?_
    have hmove := hexpects.awaitsMove (by rw [hs]; rfl)
    have hturn := hmove.turn (by rw [hs]; decide)
    exact .bid hs hturn rfl ((Place.ofString_toString _).trans hturn)
  · simp only [hs]
    exact hstep hs rfl rfl
  · simp only [hs]
    refine h.told hu hp ha fun hexpects => ?_
    rcases hexpects.awaitsMove (by rw [hs]; rfl) with ⟨hmove, -⟩ | ⟨hmove, -⟩
    · rw [hs] at hmove
      exact absurd hmove (by decide)
    · rw [hs] at hmove
      exact absurd hmove (by decide)
  · simp only [hs]
    exact hstep hs rfl rfl
  · simp only [hs]
    exact h.toldStartDeal hu hp ha hs

theorem Spot.toldGameSequence (ha : a ≠ .stay) :
    Told t.gameSequence.table.mEngine p a (messagesTo u t.gameSequence.out) := by
  have hspot : ∀ e : Engine, e.mCtx.mNbPlayers = t.mEngine.mCtx.mNbPlayers →
      ({ t with mEngine := e } : PlayingTable).Spot u p := fun e he => h.congr he fun _ => rfl
  have hnb := Engine.gameSequence_mNbPlayers t.mEngine
  have hsteps := Engine.gameSequence_mSequence t.mEngine
  unfold PlayingTable.gameSequence
  dsimp only
  generalize t.mEngine.gameSequence = e at hnb hsteps ⊢
  by_cases hlast : e.isLastTrick = true
  · rw [if_pos hlast]
    exact (hspot e.endOfDeal.2 hnb).toldStep hu hp ha rfl rfl
  rw [if_neg hlast]
  rcases hsteps with hs | hs | hs
  · simp only [hs]
    refine (hspot e hnb).toldStep hu hp ha ?_ ?_
    · rw [hs]
      rfl
    · rw [hs]
      rfl
  · simp only [hs]
    rw [messagesTo_singleton]
    by_cases hmine : ({ t with mEngine := e } : PlayingTable).getPlayerUuid e.mCurrentPlayer = u
    · rw [if_pos hmine]
      refine .message ha fun hexpects => ?_
      have hmove := hexpects.awaitsMove (by rw [hs]; rfl)
      exact .handle hs (hmove.turn (by rw [hs]; decide)) rfl
    · rw [if_neg hmine]
      refine .silent ha fun hexpects => hmine ?_
      have hmove := hexpects.awaitsMove (by rw [hs]; rfl)
      rw [hmove.turn (by rw [hs]; decide)]
      exact h.getPlayerUuid hp
  · simp only [hs]
    refine (hspot e hnb).told hu hp ha fun hexpects => ?_
    have hmove := hexpects.awaitsMove (by rw [hs]; rfl)
    have hturn := hmove.turn (by rw [hs]; decide)
    exact .play (.card hs hturn rfl ((Place.ofString_toString _).trans hturn))

omit hu in
theorem Spot.toldDiscard (ha : a ≠ .stay) {data : JsonObject}
    (hdata : cmdOf data = str "BuildDiscard") :
    Told t.mEngine.discardSequence p a
      (messagesTo u [⟨[t.getPlayerUuid t.mEngine.mCtx.mBid.taker], data⟩]) := by
  rw [messagesTo_singleton]
  by_cases hmine : t.getPlayerUuid t.mEngine.mCtx.mBid.taker = u
  · rw [if_pos hmine]
    refine .message ha fun hexpects => ?_
    exact .play (.discard rfl ((hexpects.awaitsMove rfl).taker rfl) hdata)
  · rw [if_neg hmine]
    refine .silent ha fun hexpects => hmine ?_
    have htaker : t.mEngine.mCtx.mBid.taker = p := (hexpects.awaitsMove rfl).taker rfl
    rw [htaker]
    exact h.getPlayerUuid hp

theorem Spot.toldSynced (dealer : Dealer) (hn : t.nbPlayers ≤ 5) (seq : Sequence) :
    Told (t.allSynced dealer seq).table.mEngine p (t.syncedAction dealer seq)
      (messagesTo u (t.allSynced dealer seq).out) := by
  have hspot : ∀ e : Engine, e.mCtx.mNbPlayers = t.mEngine.mCtx.mNbPlayers →
      ({ t with mEngine := e } : PlayingTable).Spot u p := fun e he => h.congr he fun _ => rfl
  cases seq with
  | waitForPlayers =>
    simp only [PlayingTable.allSynced, syncedAction]
    split_ifs
    · exact .stay
    · exact h.toldNewGame hu hp
  | waitForReady => exact h.toldNewDeal hp dealer hn
  | waitForAllPassed => exact h.toldNewDeal hp dealer hn
  | waitForCards | waitForShowBid =>
    exact (hspot _ (Engine.bidSequence_mNbPlayers _)).toldNextBid hu hp Engine.Action.noConfusion
      (bidSequence_mSequence t.mEngine)
  | waitForShowKingCall =>
    exact (hspot _ (Engine.manageAfterBidSequence_mNbPlayers _)).toldNextBid hu hp
      Engine.Action.noConfusion (manageAfterBidSequence_mem t.mEngine)
  | waitForShowDog => exact h.toldDiscard hp Engine.Action.noConfusion rfl
  | waitForStartDeal | waitForShowHandle | waitForShowCard | waitForEndOfTrick =>
    exact h.toldGameSequence hu hp Engine.Action.noConfusion
  | waitForEndOfDeal =>
    simp only [PlayingTable.allSynced, syncedAction, endOfDeal]
    generalize t.mScore.addPoints t.mEngine.getCurrentGamePoints t.mEngine.mCtx.mBid
      t.nbPlayers = scored
    have hscored : ({ t with mScore := scored.2 } : PlayingTable).Spot u p :=
      h.congr rfl fun _ => rfl
    split_ifs
    · exact hscored.toldNewDeal hp dealer hn
    · have hgame : ({ t with
          mScore := scored.2
          mEngine := t.mEngine.newGame } : PlayingTable).Spot u p := h.congr rfl fun _ => rfl
      exact hgame.toldStep hu hp Engine.Action.noConfusion rfl rfl
  | _ => exact .stay

theorem Spot.toldAck (ht : t.Open) (dealer : Dealer) (srcUuid : ℕ) (json : JsonValue) :
    Told (t.executeAck dealer srcUuid json).table.mEngine p (t.ackAction dealer srcUuid json)
      (messagesTo u (t.executeAck dealer srcUuid json).out) := by
  unfold PlayingTable.executeAck ackAction
  dsimp only
  generalize ackFromString (json.findValue (str "step")).getString = seq
  by_cases hsrc : t.getPlayerPlace srcUuid ≠ .nowhere
  swap
  · rw [if_neg hsrc, if_neg fun hall => hsrc hall.1]
    exact .stay
  rw [if_pos hsrc]
  by_cases hbad : seq = .badStep
  · rw [if_pos hbad, if_neg fun hall => hall.2.1 hbad]
    exact .stay
  rw [if_neg hbad]
  by_cases hsynced : (t.sync seq srcUuid).1 = true
  · rw [if_pos hsynced, if_pos ⟨hsrc, hbad, hsynced⟩, sync_of_fst hsynced]
    have hreset : t.resetAck.Spot u p := h.congr rfl fun i => resetAck_uuid t i
    exact hreset.toldSynced hu hp dealer ht.seats seq
  · rw [if_neg hsynced, if_neg fun hall => hsynced hall.2.2]
    dsimp only
    exact .stay

theorem Spot.toldHandle (srcUuid : ℕ) (json : JsonValue) :
    Told (t.executeHandle srcUuid json).table.mEngine p (t.handleAction srcUuid json)
      (messagesTo u (t.executeHandle srcUuid json).out) := by
  unfold PlayingTable.executeHandle handleAction
  dsimp only
  by_cases hturn : t.mEngine.mSequence = .waitForHandle ∧
      t.mEngine.mCurrentPlayer = t.getPlayerPlace srcUuid
  swap
  · rw [if_neg hturn, if_neg hturn]
    exact .stay
  rw [if_pos hturn, if_pos hturn]
  generalize Deck.ofString (json.findValue (str "handle")).getString = cards
  by_cases htest : (t.mEngine.mPlayers (t.getPlayerPlace srcUuid).value).testHandle cards = true
  · obtain ⟨e, hset, hnb, hseq⟩ : ∃ e,
        t.mEngine.setHandle cards (t.getPlayerPlace srcUuid) = (true, e) ∧
          e.mCtx.mNbPlayers = t.mEngine.mCtx.mNbPlayers ∧ e.mSequence = .waitForShowHandle := by
      refine ⟨_, if_pos htest, ?_, rfl⟩
      dsimp only [TarotContext.setHandle]
      split_ifs
      · rfl
      · rfl
    rw [hset, if_pos rfl, if_pos htest]
    have hspot : ({ t with mEngine := e } : PlayingTable).Spot u p := h.congr hnb fun _ => rfl
    refine hspot.toldStep hu hp Engine.Action.noConfusion ?_ ?_
    · rw [hseq]
      rfl
    · rw [hseq]
      rfl
  · have hset : t.mEngine.setHandle cards (t.getPlayerPlace srcUuid) = (false, t.mEngine) :=
      if_neg htest
    rw [hset, if_neg Bool.false_ne_true, if_neg htest]
    exact h.toldGameSequence hu hp Engine.Action.noConfusion

theorem Spot.toldCard (srcUuid : ℕ) (json : JsonValue) :
    Told (t.executeCard srcUuid json).table.mEngine p (t.cardAction srcUuid json)
      (messagesTo u (t.executeCard srcUuid json).out) := by
  unfold PlayingTable.executeCard cardAction
  dsimp only
  generalize Card.ofString (json.findValue (str "card")).getString = c
  generalize t.getPlayerPlace srcUuid = q
  by_cases hall : c.isValid = true ∧ t.mEngine.mSequence = .waitForPlayedCard ∧
      t.mEngine.mCurrentPlayer = q ∧
      (t.mEngine.mPlayers q.value).canPlayCard c t.mEngine.currentTrick = true
  · obtain ⟨e, hset, hnb, hseq⟩ : ∃ e, t.mEngine.setCard c q = (true, e) ∧
        e.mCtx.mNbPlayers = t.mEngine.mCtx.mNbPlayers ∧ e.mSequence = .waitForShowCard :=
      ⟨_, if_pos hall.2.2.2, rfl, rfl⟩
    rw [if_pos ⟨hall.1, hall.2.1, hall.2.2.1⟩, if_pos hall, hset, if_pos rfl]
    have hspot : ({ t with mEngine := e } : PlayingTable).Spot u p := h.congr hnb fun _ => rfl
    refine hspot.toldStep hu hp Engine.Action.noConfusion ?_ ?_
    · rw [hseq]
      rfl
    · rw [hseq]
      rfl
  · rw [if_neg hall]
    split_ifs with hturn hset
    · refine absurd ⟨hturn.1, hturn.2.1, hturn.2.2, ?_⟩ hall
      by_contra hplay
      exact Bool.false_ne_true ((congrArg Prod.fst (if_neg hplay)).symm.trans hset)
    · have hplay : ¬ (t.mEngine.mPlayers q.value).canPlayCard c t.mEngine.currentTrick = true :=
        fun hplay => hall ⟨hturn.1, hturn.2.1, hturn.2.2, hplay⟩
      exact .stay
    · exact .stay

theorem Spot.toldSetDiscard (srcUuid : ℕ) (json : JsonValue) :
    Told (t.executeDiscard srcUuid json).table.mEngine p (t.discardAction srcUuid json)
      (messagesTo u (t.executeDiscard srcUuid json).out) := by
  unfold PlayingTable.executeDiscard discardAction
  dsimp only
  generalize Deck.ofString (json.findValue (str "discard")).getString = discard
  by_cases hturn : t.mEngine.mSequence = .waitForDiscard ∧
      t.mEngine.mCtx.mBid.taker = t.getPlayerPlace srcUuid
  swap
  · rw [if_neg hturn, if_neg fun hall => hturn ⟨hall.1, hall.2.1⟩]
    exact .stay
  rw [if_pos hturn]
  by_cases htest : t.mEngine.takerDeck.testDiscard discard t.mEngine.mCtx.mDog t.nbPlayers = true
  · obtain ⟨e, hset, hseq, hnb⟩ : ∃ e, t.mEngine.setDiscard discard = (true, e) ∧
        e.mSequence = .waitForStartDeal ∧ e.mCtx.mNbPlayers = t.mEngine.mCtx.mNbPlayers :=
      ⟨_, if_pos htest, rfl, rfl⟩
    have hall : t.mEngine.mSequence = .waitForDiscard ∧
        t.mEngine.mCtx.mBid.taker = t.getPlayerPlace srcUuid ∧
        t.mEngine.takerDeck.testDiscard discard t.mEngine.mCtx.mDog t.nbPlayers = true :=
      ⟨hturn.1, hturn.2, htest⟩
    rw [if_pos hall, hset]
    have hspot : ({ t with mEngine := e } : PlayingTable).Spot u p := h.congr hnb fun _ => rfl
    exact hspot.toldStartDeal hu hp Engine.Action.noConfusion hseq
  · have hset : t.mEngine.setDiscard discard = (false, t.mEngine) := if_neg htest
    rw [hset, if_neg Bool.false_ne_true, if_neg fun hall => htest hall.2.2]
    exact .stay

theorem Spot.toldBid (srcUuid : ℕ) (json : JsonValue) :
    Told (t.executeReplyBid srcUuid json).table.mEngine p (t.bidAction srcUuid json)
      (messagesTo u (t.executeReplyBid srcUuid json).out) := by
  simp only [PlayingTable.executeReplyBid, bidAction]
  split_ifs
  · refine Spot.toldStep ?_ hu hp Engine.Action.noConfusion rfl rfl
    exact h.congr (Engine.setBid_mNbPlayers t.mEngine _ _ _) fun _ => rfl
  · exact .stay

/-- Where no king is called for, a request leaves nobody unasked that the engine waits for then. -/
theorem Spot.toldRequest (ht : t.Open) (hking : t.mEngine.mSequence ≠ .waitForKingCall)
    (dealer : Dealer) (srcUuid : ℕ) (json : JsonValue) :
    Told (t.executeRequest dealer srcUuid json).table.mEngine p
      (t.requestAction dealer srcUuid json)
      (messagesTo u (t.executeRequest dealer srcUuid json).out) := by
  refine request_cases (R := fun r a => Told r.table.mEngine p a (messagesTo u r.out)) dealer t
    srcUuid json .stay (fun _ => h.toldAck hu hp ht dealer srcUuid json) (fun _ => ?_)
    (fun _ => h.toldBid hu hp srcUuid json) (fun _ => h.toldSetDiscard hu hp srcUuid json)
    (fun _ => ?_) (fun _ => h.toldHandle hu hp srcUuid json)
    (fun _ => h.toldCard hu hp srcUuid json)
  · unfold PlayingTable.executeNewGame
    split_ifs
    · refine Spot.toldNewGame ?_ hu hp
      exact h.congr rfl fun _ => rfl
    · exact .stay
  · unfold PlayingTable.executeReplyKingCall kingCallAction
    dsimp only
    rw [if_neg fun hall => hking hall.1, if_neg fun hall => hking hall.1]
    exact .stay

end

end PlayingTable

end TarotClub
