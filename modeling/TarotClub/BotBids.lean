import TarotClub.AuctionResult
import TarotClub.BotTable

namespace TarotClub

open Machine

namespace Engine

/-- Somebody has bid in the auction of the deal. -/
def hasBids (e : Engine) : Bool :=
  match e.mSequence with
  | .waitForBid => e.mPosition ≠ 0
  | .waitForShowBid | .waitForAllPassed => true
  | seq => seq.isPastAuction

/-- How an auction opens: as long as nobody has bid, there is no contract. -/
structure Opening (e : Engine) : Prop where
  players : 0 < e.mCtx.mNbPlayers ∧ e.mCtx.mNbPlayers ≤ 5
  cards : e.mSequence = .waitForCards →
    e.mPosition = 0 ∧ e.mCtx.mBid.contract = .noAny ∧ e.mCtx.mBid.slam = false
  bid : e.mSequence = .waitForBid →
    e.mPosition < e.mCtx.mNbPlayers ∧ (e.mPosition = 0 → e.mCtx.mBid.contract = .noAny)
  shown : e.mSequence = .waitForShowBid → e.mPosition ≠ 0

theorem hasBids_of_isPastAuction {e : Engine} (h : e.mSequence.isPastAuction = true) :
    e.hasBids = true := by
  obtain ⟨-, hbid, hshow, hpassed⟩ := isPastAuction_ne h
  unfold hasBids
  split
  · exact absurd ‹_› hbid
  · exact absurd ‹_› hshow
  · exact absurd ‹_› hpassed
  · exact h

theorem hasBids_waitForBid {e : Engine} (h : e.mSequence = .waitForBid) :
    e.hasBids = decide (e.mPosition ≠ 0) := by
  rw [hasBids, h]

variable {e : Engine} {a : Action}

theorem Opening.of_isPastAuction (h : e.Opening)
    (hpast : (e.act a).mSequence.isPastAuction = true) : (e.act a).Opening := by
  obtain ⟨hcards, hbid, hshow, -⟩ := isPastAuction_ne hpast
  refine ⟨?_, fun hs => absurd hs hcards, fun hs => absurd hs hbid, fun hs => absurd hs hshow⟩
  rw [act_mNbPlayers]
  exact h.players

/-- Where there are bids behind an action, either it was a bid, or there were bids before it and the
contract is the same. -/
theorem Opening.act (h : e.Opening) (ha : e.Enabled a) : (e.act a).Opening ∧
    ((e.act a).hasBids = true → (∃ c slam p, a = .bid c slam p) ∨
      e.hasBids = true ∧ (e.act a).mCtx.mBid.contract = e.mCtx.mBid.contract) := by
  have hplayers : 0 < (e.act a).mCtx.mNbPlayers ∧ (e.act a).mCtx.mNbPlayers ≤ 5 := by
    rw [act_mNbPlayers]
    exact h.players
  by_cases hl : a.isLate = true
  · have hpast := act_isLate_mSequence ha hl
    refine ⟨h.of_isPastAuction hpast, fun _ => .inr ⟨?_, (act_isLate_mBid e hl).1⟩⟩
    exact hasBids_of_isPastAuction (enabled_isLate ha hl)
  cases a with
  | stay => exact ⟨h, fun hb => .inr ⟨hb, rfl⟩⟩
  | newGame =>
    refine ⟨⟨hplayers, fun hs => ?_, fun hs => ?_, fun hs => ?_⟩, fun hb => ?_⟩
    · cases hs
    · cases hs
    · cases hs
    · exact absurd hb Bool.false_ne_true
  | newDeal deal =>
    have hbid := newDeal_mBid e deal
    refine ⟨⟨hplayers, fun _ => ⟨newDeal_mPosition e deal, ?_, ?_⟩, fun hs => ?_, fun hs => ?_⟩,
      fun hb => ?_⟩
    · rw [act, hbid]
    · rw [act, hbid]
    · cases hs
    · cases hs
    · exact absurd hb Bool.false_ne_true
  | bid c slam p =>
    refine ⟨⟨hplayers, fun hs => ?_, fun hs => ?_, fun _ => ?_⟩, fun _ => .inl ⟨c, slam, p, rfl⟩⟩
    · cases hs
    · cases hs
    · have hlt := (h.bid ha.1).1
      have hle := h.players.2
      rw [act, setBid_mPosition, u8]
      omega
  | bidSequence =>
    have hopen : e.mSequence = .waitForCards ∧ e.mPosition = 0 ∧ e.mCtx.mBid.contract = .noAny ∧
        e.mCtx.mBid.slam = false ∨ e.mPosition ≠ 0 ∧ e.hasBids = true := by
      rcases ha with hs | hs
      · exact .inl ⟨hs, h.cards hs⟩
      · refine .inr ⟨h.shown hs, ?_⟩
        rw [hasBids, hs]
    rcases act_bidSequence_cases e with ⟨hpos, -, hact⟩ | ⟨hclosed, hcontract, -, -, hseq⟩
    · rw [hact]
      refine ⟨⟨h.players, fun hs => ?_, fun _ => ⟨hpos, fun hzero => ?_⟩, fun hs => ?_⟩,
        fun hb => ?_⟩
      · cases hs
      · rcases hopen with ⟨-, -, hnone, -⟩ | ⟨hne, -⟩
        · exact hnone
        · exact absurd hzero hne
      · cases hs
      · rw [hasBids_waitForBid rfl, decide_eq_true_iff] at hb
        rcases hopen with ⟨-, hzero, -⟩ | ⟨-, hbids⟩
        · exact absurd hzero hb
        · exact .inr ⟨hbids, rfl⟩
    · have hbids : e.hasBids = true := by
        rcases hopen with ⟨-, hzero, -, hslam⟩ | ⟨-, hbids⟩
        · have hpos := h.players.1
          rcases hclosed with hle | hslam'
          · omega
          · exact absurd (hslam.symm.trans hslam') Bool.false_ne_true
        · exact hbids
      refine ⟨?_, fun _ => .inr ⟨hbids, hcontract⟩⟩
      rcases hseq with ⟨-, hs⟩ | ⟨-, hpast⟩
      · refine ⟨hplayers, fun hs' => ?_, fun hs' => ?_, fun hs' => ?_⟩
        · rw [hs] at hs'
          cases hs'
        · rw [hs] at hs'
          cases hs'
        · rw [hs] at hs'
          cases hs'
      · exact h.of_isPastAuction hpast
  | _ => exact absurd rfl hl

/-- Ahead of the first bid of a deal there is no contract. -/
theorem Opening.contract_of_not_hasBids (h : e.Opening) (hb : ¬ e.hasBids = true)
    (hdealt : e.mSequence.isDealt = true) : e.mCtx.mBid.contract = .noAny := by
  cases hs : e.mSequence with
  | waitForCards => exact (h.cards hs).2.1
  | waitForBid =>
    rw [hasBids_waitForBid hs, decide_eq_true_iff, not_not] at hb
    exact (h.bid hs).2 hb
  | badStep | stopped | waitForPlayers | waitForReady =>
    rw [hs] at hdealt
    cases hdealt
  | _ =>
    rw [hasBids, hs] at hb
    exact absurd rfl hb

end Engine

/-! What the table shows of the bids, and what a bot keeps of it. -/

/-- The contract that is shown last, behind one more message. -/
def shownContract (c : Contract) (json : JsonObject) : Contract :=
  let cmd := (json.getKey (str "cmd")).getString
  if cmd = str "ShowBid" then Contract.ofString (json.getKey (str "taker_contract")).getString
  else if cmd = str "StartDeal" then Contract.ofString (json.getKey (str "contract")).getString
  else c

/-- The contract that the messages show last. -/
def lastShown (msgs : List JsonObject) : Contract := msgs.foldl shownContract .noAny

/-- Where the messages show a contract, it is this one. -/
def Shows (out : List Reply) (k : Contract) : Prop :=
  ∀ reply ∈ out, ∀ c, shownContract c reply.data = c ∨ shownContract c reply.data = k

theorem foldl_replicate_shownContract {data : JsonObject} {k : Contract} {c : Contract}
    (h : ∀ c, shownContract c data = c ∨ shownContract c data = k) (m : ℕ) :
    (List.replicate m data).foldl shownContract c = c ∨
      (List.replicate m data).foldl shownContract c = k := by
  induction m generalizing c with
  | zero => exact .inl rfl
  | succ m ih =>
    rw [List.replicate_succ, List.foldl_cons]
    rcases h c with hc | hc
    · rw [hc]
      exact ih
    · rw [hc]
      rcases ih (c := k) with hk | hk
      · exact .inr hk
      · exact .inr hk

theorem Shows.foldl {out : List Reply} {k : Contract} (h : Shows out k) (u : ℕ) (c : Contract) :
    (messagesTo u out).foldl shownContract c = c ∨
      (messagesTo u out).foldl shownContract c = k := by
  induction out generalizing c with
  | nil => exact .inl rfl
  | cons reply out ih =>
    have hrest := ih fun reply' hr => h reply' (List.mem_cons_of_mem _ hr)
    rw [messagesTo, List.flatMap_cons, List.foldl_append, ← messagesTo]
    rcases foldl_replicate_shownContract (c := c) (h reply List.mem_cons_self)
      (reply.dest.count u) with hc | hc
    · rw [hc]
      exact hrest c
    · rw [hc]
      rcases hrest k with hk | hk
      · exact .inr hk
      · exact .inr hk

/-- One message that shows a contract to somebody. -/
theorem foldl_messagesTo {u : ℕ} {reply : Reply} (hdest : 0 < reply.dest.count u) {k : Contract}
    (hshow : ∀ c, shownContract c reply.data = k) (c : Contract) :
    (messagesTo u [reply]).foldl shownContract c = k := by
  obtain ⟨m, hm⟩ := Nat.exists_eq_succ_of_ne_zero hdest.ne'
  rw [messagesTo, List.flatMap_cons, List.flatMap_nil, List.append_nil, hm, List.replicate_succ',
    List.foldl_append]
  exact hshow _

theorem Shows.nil (k : Contract) : Shows [] k := fun _ h => absurd h List.not_mem_nil

/-- One message that shows no contract. -/
theorem Shows.silent (dest : List ℕ) {data : JsonObject} (k : Contract) (cmd : Str)
    (hdata : data.getKey (str "cmd") = .string cmd)
    (hcmd : cmd ≠ str "ShowBid" ∧ cmd ≠ str "StartDeal") : Shows [⟨dest, data⟩] k := by
  intro reply hreply c
  rw [List.mem_singleton.mp hreply]
  left
  simp only [shownContract, hdata, JsonValue.getString]
  rw [if_neg hcmd.1, if_neg hcmd.2]

namespace Bot

theorem handleRequestBid_mBid (script : Script) (ctx : PlayerContext) :
    (handleRequestBid script ctx).1.mBid = ctx.mBid := by
  unfold handleRequestBid
  split_ifs
  · rfl
  · rfl
  · rfl

theorem handleBuildDiscard_mBid (script : Script) (ctx : PlayerContext) :
    (handleBuildDiscard script ctx).1.mBid = ctx.mBid := by
  unfold handleBuildDiscard buildDiscard
  cases scriptDiscard script ctx with
  | none => rfl
  | some discard => rfl

theorem handlePlayCard_mBid (ctx : PlayerContext) (json : JsonValue) :
    (handlePlayCard (ctx.decodePlayCard json)).1.mBid = ctx.mBid := by
  have hdecode : (ctx.decodePlayCard json).mBid = ctx.mBid := by
    dsimp only [PlayerContext.decodePlayCard]
    split_ifs
    · rfl
    · rfl
    · rfl
  unfold handlePlayCard
  split_ifs
  · exact hdecode
  · exact hdecode

/-- Of the messages that a bot handles, those that show a contract change the one it bids over. -/
theorem handleRequest_mBid (script : Script) {ctx : PlayerContext}
    (hctx : ctx.mMyself.isConnected = true) (json : JsonObject) :
    (handleRequest script ctx json).1.mBid.contract = shownContract ctx.mBid.contract json := by
  have h := handleRequest_handles script hctx json
  have hsilent : ∀ {cmd : Str}, cmd ≠ str "ShowBid" → cmd ≠ str "StartDeal" →
      ∀ {a b c : Contract},
        c = if cmd = str "ShowBid" then a else if cmd = str "StartDeal" then b else c := by
    intro cmd hbid hstart a b c
    rw [if_neg hbid, if_neg hstart]
  rw [shownContract]
  generalize (json.getKey (str "cmd")).getString = cmd at h
  generalize handleRequest script ctx json = result at h
  cases h with
  | acknowledge ha =>
    cases ha with
    | showBid =>
      rw [if_pos rfl, ← findValue_object (by decide)]
      rfl
    | startDeal =>
      rw [if_neg (by decide), if_pos rfl, ← findValue_object (by decide)]
      rfl
    | _ => exact hsilent (by decide) (by decide)
  | requestBid =>
    rw [handleRequestBid_mBid]
    exact hsilent (by decide) (by decide)
  | buildDiscard =>
    rw [handleBuildDiscard_mBid]
    exact hsilent (by decide) (by decide)
  | playCard =>
    rw [handlePlayCard_mBid]
    exact hsilent (by decide) (by decide)
  | other hcmd =>
    refine hsilent (fun he => hcmd ?_) fun he => hcmd ?_
    · rw [he]
      decide
    · rw [he]
      decide
  | _ => exact hsilent (by decide) (by decide)

end Bot

namespace PlayingTable

theorem shows_startDeal (t : PlayingTable) :
    Shows t.startDeal.out t.startDeal.table.mEngine.mCtx.mBid.contract := by
  intro reply hreply c
  rw [List.mem_singleton.mp hreply]
  exact .inr (Contract.ofString_toString _)

theorem shows_sendNextBidSequence (t : PlayingTable) :
    Shows t.sendNextBidSequence.out t.sendNextBidSequence.table.mEngine.mCtx.mBid.contract := by
  unfold sendNextBidSequence
  split
  · exact .silent _ _ (str "RequestBid") rfl (by decide)
  · exact .silent _ _ (str "RequestKingCall") rfl (by decide)
  · exact .silent _ _ (str "AllPassed") rfl (by decide)
  · exact shows_startDeal t
  · exact .silent _ _ (str "ShowDog") rfl (by decide)
  · exact .nil _

theorem shows_gameSequence (t : PlayingTable) (k : Contract) : Shows t.gameSequence.out k := by
  simp only [gameSequence]
  split_ifs
  · exact .silent _ _ (str "EndOfDeal") rfl (by decide)
  · split
    · exact .silent _ _ (str "EndOfTrick") rfl (by decide)
    · exact .silent _ _ (str "PlayCard") rfl (by decide)
    · exact .silent _ _ (str "AskForHandle") rfl (by decide)
    · exact .nil _

theorem shows_newGame (t : PlayingTable) (k : Contract) : Shows t.newGame.out k :=
  .silent _ _ (str "NewGame") rfl (by decide)

theorem shows_newDeal (dealer : Dealer) (t : PlayingTable) (k : Contract) :
    Shows (t.newDeal dealer).out k := by
  intro reply hreply c
  obtain ⟨i, -, rfl⟩ := List.mem_map.mp hreply
  exact .inl rfl

theorem shows_allSynced (dealer : Dealer) (t : PlayingTable) (seq : Sequence) :
    Shows (t.allSynced dealer seq).out
      (t.allSynced dealer seq).table.mEngine.mCtx.mBid.contract := by
  cases seq <;> simp only [allSynced]
  case waitForPlayers =>
    split_ifs
    · exact .nil _
    · exact shows_newGame t _
  case waitForReady | waitForAllPassed => exact shows_newDeal dealer t _
  case waitForCards | waitForShowBid | waitForShowKingCall => exact shows_sendNextBidSequence _
  case waitForShowDog => exact .silent _ _ (str "BuildDiscard") rfl (by decide)
  case waitForStartDeal | waitForShowHandle | waitForShowCard | waitForEndOfTrick =>
    exact shows_gameSequence t _
  case waitForEndOfDeal =>
    simp only [endOfDeal]
    split_ifs
    · exact shows_newDeal dealer _ _
    · exact .silent _ _ (str "EndOfGame") rfl (by decide)
  all_goals exact .nil _

/-- Whatever contract the table shows is the one of its engine. -/
theorem shows_executeRequest (dealer : Dealer) (t : PlayingTable) (srcUuid : ℕ)
    (json : JsonValue) : Shows (t.executeRequest dealer srcUuid json).out
      (t.executeRequest dealer srcUuid json).table.mEngine.mCtx.mBid.contract := by
  refine request_cases (R := fun r _ => Shows r.out r.table.mEngine.mCtx.mBid.contract) dealer t
    srcUuid json (.nil _) (fun _ => ?_) (fun _ => ?_) (fun _ => ?_) (fun _ => ?_) (fun _ => ?_)
    (fun _ => ?_) (fun _ => ?_)
  · simp only [executeAck]
    split_ifs
    · exact .nil _
    · exact shows_allSynced dealer _ _
    · exact .nil _
    · exact .nil _
  · simp only [executeNewGame]
    split_ifs
    · exact shows_newGame _ _
    · exact .nil _
  · simp only [executeReplyBid]
    split_ifs
    · intro reply hreply c
      rw [List.mem_singleton.mp hreply]
      exact .inr (Contract.ofString_toString _)
    · exact .nil _
  · simp only [executeDiscard]
    split_ifs
    · exact shows_startDeal _
    · exact .nil _
    · exact .nil _
  · simp only [executeReplyKingCall]
    split_ifs
    · exact .silent _ _ (str "ShowKingCall") rfl (by decide)
    · exact .nil _
    · exact .nil _
  · simp only [executeHandle]
    split_ifs
    · exact .silent _ _ (str "ShowHandle") rfl (by decide)
    · exact shows_gameSequence _ _
    · exact .nil _
  · simp only [executeCard]
    split_ifs
    · exact .silent _ _ (str "ShowCard") rfl (by decide)
    · exact .nil _
    · exact .nil _

/-- Someone who sits at the table. -/
def HasSeat (t : PlayingTable) (u : ℕ) : Prop := ∃ i < t.nbPlayers, (t.mPlayers i).uuid = u

/-- Somebody who sits gets what is sent to all. -/
theorem HasSeat.foldl_sendToAllPlayers {t : PlayingTable} {u : ℕ} (h : t.HasSeat u)
    (hu : u ≠ invalidUid) {obj : JsonObject} {k : Contract}
    (hshow : ∀ c, shownContract c obj = k) (c : Contract) :
    (messagesTo u (t.sendToAllPlayers obj)).foldl shownContract c = k := by
  obtain ⟨i, hi, hi'⟩ := h
  refine foldl_messagesTo (List.count_pos_iff.mpr ?_) hshow c
  refine List.mem_map.mpr ⟨i, List.mem_filter.mpr ⟨List.mem_range.mpr hi, ?_⟩, hi'⟩
  rw [Challenger.isFree, hi', decide_eq_false hu]
  rfl

theorem addPlayer_of_not_isValid {t : PlayingTable} {u : ℕ}
    (h : ¬ (t.addPlayer u).1.isValid = true) : (t.addPlayer u).2 = t := by
  unfold addPlayer at h ⊢
  dsimp only at h ⊢
  by_cases hnew : t.getPlayerPlace u = .nowhere
  · rw [if_pos hnew] at h ⊢
    by_cases hfree : t.freePlace.value < Place.nowhere.value
    · rw [if_pos hfree] at h
      exact absurd (decide_eq_true hfree) h
    · rw [if_neg hfree]
  · rw [if_neg hnew]

/-- Nobody gets a seat but by sitting down. -/
theorem HasSeat.of_apply {t : PlayingTable} (hn : t.nbPlayers ≤ 5) {u : ℕ} {c : Call}
    (hu : u ≠ invalidUid) (h : (t.apply c).HasSeat u) :
    t.HasSeat u ∨ c = .addPlayer u ∧ (t.addPlayer u).1.isValid = true := by
  obtain ⟨i, hi, hi'⟩ := h
  rw [apply_nbPlayers] at hi
  cases c with
  | addPlayer uuid =>
    by_cases hvalid : (t.addPlayer uuid).1.isValid = true
    · rcases addPlayer_seat hn uuid i with hsame | ⟨-, hnew, -, -⟩
      · refine .inl ⟨i, hi, ?_⟩
        rw [← hsame]
        exact hi'
      · obtain rfl : u = uuid := hi'.symm.trans hnew
        exact .inr ⟨rfl, hvalid⟩
    · rw [PlayingTable.apply, addPlayer_of_not_isValid hvalid] at hi'
      exact .inl ⟨i, hi, hi'⟩
  | removePlayer kickedPlayer =>
    rcases removePlayer_mPlayers t kickedPlayer i with hsame | ⟨hfree, -⟩
    · refine .inl ⟨i, hi, ?_⟩
      rw [← hsame]
      exact hi'
    · rw [PlayingTable.apply, hfree] at hi'
      exact absurd hi'.symm hu
  | executeRequest dealer srcUuid json =>
    rw [PlayingTable.apply, executeRequest_uuid] at hi'
    exact .inl ⟨i, hi, hi'⟩

/-- Whatever contract a call makes the host show is the one of the engine. -/
theorem shows_sends (t : PlayingTable) (c : Call) :
    Shows (t.sends c) (t.apply c).mEngine.mCtx.mBid.contract := by
  cases c with
  | addPlayer uuid =>
    simp only [sends]
    split_ifs
    · exact .silent _ _ (str "ReplyJoinTable") rfl (by decide)
    · exact .nil _
  | removePlayer kickedPlayer => exact .nil _
  | executeRequest dealer srcUuid json => exact shows_executeRequest dealer t srcUuid json

/-- A bid that is made is shown to everybody who sits. -/
theorem foldl_sends_bid {t : PlayingTable} {u : ℕ} (h : t.HasSeat u) (hu : u ≠ invalidUid)
    {c : Call} {contract : Contract} {slam : Bool} {p : Place}
    (ha : t.action c = .bid contract slam p) (k : Contract) :
    (messagesTo u (t.sends c)).foldl shownContract k = (t.apply c).mEngine.mCtx.mBid.contract := by
  obtain ⟨dealer, srcUuid, json, rfl, hcmd, -⟩ := action_bid ha
  have hanswers : Answers (json.findValue (str "cmd")).getString .waitForBid :=
    hcmd ▸ Answers.replyBid
  have hexec : t.executeRequest dealer srcUuid json = t.executeReplyBid srcUuid json :=
    executeRequest_of_answers dealer t srcUuid json hanswers
  rw [action, requestAction_of_answers dealer t srcUuid json hanswers, answerAction, bidAction] at ha
  have hout : t.sends (.executeRequest dealer srcUuid json) = (t.executeReplyBid srcUuid json).out :=
    congrArg Response.out hexec
  rw [hout, PlayingTable.apply, hexec]
  by_cases hturn : t.getPlayerPlace srcUuid ≠ .nowhere ∧
      t.getPlayerPlace srcUuid = t.mEngine.mCurrentPlayer ∧ t.mEngine.mSequence = .waitForBid
  · simp only [executeReplyBid, if_pos hturn]
    refine HasSeat.foldl_sendToAllPlayers ?_ hu ?_ k
    · obtain ⟨i, hi, hi'⟩ := h
      exact ⟨i, lt_of_lt_of_eq hi (Engine.setBid_mNbPlayers t.mEngine _ _ _).symm, hi'⟩
    · intro c
      exact Contract.ofString_toString _
  · rw [if_neg hturn] at ha
    cases ha

end PlayingTable

namespace Bot

theorem handleRequest_uuid (script : Script) {ctx : PlayerContext}
    (hctx : ctx.mMyself.isConnected = true) (json : JsonObject) :
    (handleRequest script ctx json).1.mMyself.uuid = ctx.mMyself.uuid := by
  have h := handleRequest_handles script hctx json
  generalize (json.getKey (str "cmd")).getString = cmd at h
  generalize handleRequest script ctx json = result at h
  cases h with
  | acknowledge ha =>
    cases ha with
    | _ => rfl
  | requestBid =>
    unfold handleRequestBid
    split_ifs
    · rfl
    · rfl
    · rfl
  | buildDiscard =>
    unfold handleBuildDiscard buildDiscard
    cases scriptDiscard script ctx with
    | none => rfl
    | some discard => rfl
  | playCard =>
    unfold handlePlayCard
    dsimp only [PlayerContext.decodePlayCard]
    split_ifs
    · rfl
    · rfl
    · rfl
    · rfl
    · rfl
    · rfl
  | _ => rfl

theorem Handles.requestBid_eq {script : Script} {ctx : PlayerContext} {json : JsonObject}
    {cmd : Str} {result : PlayerContext × List Reply} (h : Handles script ctx json cmd result)
    (hcmd : cmd = str "RequestBid") :
    result = handleRequestBid script (ctx.decodeRequestBid (.object json)) := by
  cases h with
  | acknowledge ha =>
    cases ha with
    | _ => exact absurd hcmd (by decide)
  | requestBid => rfl
  | other hnot =>
    rw [hcmd] at hnot
    exact absurd hnot (by decide)
  | _ => exact absurd hcmd (by decide)

/-- The bid that stands before does not matter. -/
theorem ownBid_mMyBid (script : Script) (ctx : PlayerContext) (bid : Bid) :
    (ownBid script { ctx with mMyBid := bid }).contract = (ownBid script ctx).contract := by
  unfold ownBid
  dsimp only
  by_cases hscript : .pass ≤ Contract.ofString
        (script (str "AnnounceBid") [ctx.mBid.contract.toString]).getString ∧
      Contract.ofString (script (str "AnnounceBid") [ctx.mBid.contract.toString]).getString ≤
        .guardAgainst
  · rw [if_pos hscript, if_pos hscript]
  · rw [if_neg hscript, if_neg hscript]
    rfl

/-- The bid that is sent. -/
theorem requestBid_reply (script : Script) (ctx : PlayerContext) :
    ∃ slam, (requestBid script ctx).2 = [ctx.replyToTable (PlayerContext.buildReplyBid
      (if (ownBid script ctx).contract ≤ ctx.mBid.contract then .pass
        else (ownBid script ctx).contract) slam)] := by
  unfold requestBid
  dsimp only
  by_cases hle : (ownBid script ctx).contract ≤ ctx.mBid.contract
  · rw [if_pos hle, if_pos hle]
    exact ⟨_, rfl⟩
  · rw [if_neg hle, if_neg hle]
    exact ⟨_, rfl⟩

theorem buildReplyBid_contract {dest dest' : List ℕ} {c c' : Contract} {slam slam' : Bool}
    (h : (⟨dest, (PlayerContext.buildReplyBid c slam).getObj⟩ : Reply) =
      ⟨dest', (PlayerContext.buildReplyBid c' slam').getObj⟩) : c = c' := by
  have hread := congrArg (fun reply : Reply =>
    Contract.ofString (reply.data.getKey (str "contract")).getString) h
  change Contract.ofString c.toString = Contract.ofString c'.toString at hread
  rwa [Contract.ofString_toString, Contract.ofString_toString] at hread

/-- A bot that passes has bid a pass, or nothing higher than what it bids over. -/
theorem ownBid_of_pass {script : Script} {ctx ctx' : PlayerContext} {slam : Bool}
    (h : (handleRequestBid script ctx).2 =
      [ctx'.replyToTable (PlayerContext.buildReplyBid .pass slam)]) :
    (ownBid script ctx).contract = .pass ∨
      (ownBid script ctx).contract ≤ ctx.mBid.contract := by
  by_cases hplace : ctx.mCurrentPlayer = ctx.mMyself.place
  · obtain ⟨before, hbefore⟩ : ∃ before,
        handleRequestBid script ctx = requestBid script { ctx with mMyBid := before } :=
      ⟨_, if_pos hplace⟩
    obtain ⟨slam', hreply⟩ := requestBid_reply script { ctx with mMyBid := before }
    rw [hbefore, hreply, ownBid_mMyBid] at h
    have hpass := buildReplyBid_contract (List.cons.inj h).1
    split_ifs at hpass with hle
    · exact .inr hle
    · exact .inl hpass
  · rw [handleRequestBid, if_neg hplace] at h
    cases h

end Bot

namespace BotTable

/-- The messages that a bot has handled so far. -/
def noteHeard (u : ℕ) (s : BotTable) (event : BotEvent) (heard : List JsonObject) :
    List JsonObject :=
  match event with
  | .handle uuid _ => if uuid = u then heard ++ (s.bots u).inbox.take 1 else heard
  | _ => heard

/-- A bot sits down before the first bid of the auction. -/
def JoinsEarly (u : ℕ) (s : BotTable) : BotEvent → Prop
  | .call (.addPlayer uuid) =>
    uuid = u → (s.table.addPlayer u).1.isValid = true → s.table.mEngine.hasBids = false
  | _ => True

/-- What a bot has been shown, beside what there is to show. -/
structure Tuned (u : ℕ) (p : BotTable × List JsonObject) : Prop extends p.1.table.Open where
  opening : p.1.table.mEngine.Opening
  uuid : (p.1.bots u).ctx.mMyself.uuid = u
  heard : (p.1.bots u).ctx.mBid.contract = lastShown p.2
  shown : p.1.table.HasSeat u → p.1.table.mEngine.hasBids = true →
    lastShown (p.2 ++ (p.1.bots u).inbox) = p.1.table.mEngine.mCtx.mBid.contract

variable {u : ℕ} {p : BotTable × List JsonObject}

theorem lastShown_append (msgs msgs' : List JsonObject) :
    lastShown (msgs ++ msgs') = msgs'.foldl shownContract (lastShown msgs) := List.foldl_append

theorem Tuned.receive (h : Tuned u p) (hu : 10 ≤ u) {c : Call}
    (hjoin : JoinsEarly u p.1 (.call c)) : Tuned u (p.1.receive c, p.2) := by
  have hne : u ≠ invalidUid := by
    rintro rfl
    exact absurd hu (by decide)
  have henabled := h.toOpen.action_enabled c
  have heng := PlayingTable.apply_mEngine p.1.table c
  obtain ⟨hopening, hbids⟩ := h.opening.act henabled
  refine ⟨h.toOpen.apply c, ?_, h.uuid, h.heard, fun hseat hb => ?_⟩
  · exact heng ▸ hopening
  change lastShown (p.2 ++ ((p.1.bots u).inbox ++ messagesTo u (p.1.table.sends c))) =
    (p.1.table.apply c).mEngine.mCtx.mBid.contract
  rw [← List.append_assoc, lastShown_append]
  change (p.1.table.apply c).HasSeat u at hseat
  change (p.1.table.apply c).mEngine.hasBids = true at hb
  rcases PlayingTable.HasSeat.of_apply h.seats hne hseat with hsat | ⟨rfl, hvalid⟩
  · rw [heng] at hb ⊢
    rcases hbids hb with ⟨contract, slam, place, ha⟩ | ⟨hbefore, hcontract⟩
    · rw [← heng]
      exact PlayingTable.foldl_sends_bid hsat hne ha _
    · rw [h.shown hsat hbefore]
      rcases (PlayingTable.shows_sends p.1.table c).foldl u p.1.table.mEngine.mCtx.mBid.contract
        with hsame | hshown
      · exact hsame.trans hcontract.symm
      · rw [hshown, heng]
  · rw [heng] at hb
    exact absurd (hb.symm.trans (hjoin rfl hvalid)) Bool.true_eq_false.mp

theorem Tuned.handle (h : Tuned u p) (hu : 10 ≤ u) (uuid : ℕ) (script : Script) :
    Tuned u (p.1.handle uuid script, noteHeard u p.1 (.handle uuid script) p.2) := by
  have hconnected : (p.1.bots u).ctx.mMyself.isConnected = true := by
    rw [Player.isConnected, h.uuid]
    exact decide_eq_true hu
  rw [noteHeard]
  cases hinbox : (p.1.bots uuid).inbox with
  | nil =>
    rw [handle_nil hinbox]
    by_cases he : uuid = u
    · subst he
      rw [if_pos rfl, hinbox, List.take_nil, List.append_nil]
      exact h
    · rw [if_neg he]
      exact h
  | cons json inbox =>
    rw [handle_cons hinbox]
    by_cases he : uuid = u
    · subst he
      rw [if_pos rfl, hinbox]
      refine ⟨h.toOpen, h.opening, ?_, ?_, fun hseat hb => ?_⟩
      · dsimp only
        rw [Function.update_self]
        exact (Bot.handleRequest_uuid script hconnected json).trans h.uuid
      · dsimp only
        rw [Function.update_self, lastShown_append, ← h.heard]
        exact Bot.handleRequest_mBid script hconnected json
      · dsimp only
        rw [Function.update_self, List.append_assoc]
        have hshown := h.shown hseat hb
        rwa [hinbox] at hshown
    · rw [if_neg he]
      have hbot : Function.update p.1.bots uuid
          { ctx := (Bot.handleRequest script (p.1.bots uuid).ctx json).1, inbox := inbox } u =
            p.1.bots u := Function.update_of_ne (Ne.symm he) _ _
      refine ⟨h.toOpen, h.opening, ?_, ?_, fun hseat hb => ?_⟩
      · dsimp only
        rw [hbot]
        exact h.uuid
      · dsimp only
        rw [hbot]
        exact h.heard
      · dsimp only
        rw [hbot]
        exact h.shown hseat hb

theorem Tuned.step (h : Tuned u p) (hu : 10 ≤ u) {event : BotEvent}
    (hjoin : JoinsEarly u p.1 event) :
    Tuned u (observe BotTable.step (noteHeard u) p event) := by
  cases event with
  | call c => exact h.receive hu hjoin
  | handle uuid script => exact h.handle hu uuid script
  | arrive i dealer =>
    rw [observe, BotTable.step, BotTable.arrive]
    cases p.1.sent[i]? with
    | none => exact h
    | some message =>
      have herase : Tuned u ({ p.1 with sent := p.1.sent.eraseIdx i }, p.2) :=
        ⟨h.toOpen, h.opening, h.uuid, h.heard, h.shown⟩
      dsimp only
      split_ifs
      · exact herase.receive hu trivial
      · exact herase

theorem start_tuned (t : PlayingTable) {n : ℕ} (randomPlace : Place) (h0 : 0 < n) (hn : n ≤ 5)
    (u : ℕ) : Tuned u (start t n randomPlace, []) := by
  refine ⟨(PlayingTable.Reachable.create t n randomPlace hn).open, ⟨⟨h0, hn⟩, ?_, ?_, ?_⟩, rfl,
    rfl, fun _ hb => ?_⟩
  · rintro ⟨⟩
  · rintro ⟨⟩
  · rintro ⟨⟩
  · cases hb

/-- The bot handles a request for the bid of its own seat, in a deal. -/
structure AsksBid (s : BotTable) (u : ℕ) (json : JsonObject) : Prop where
  seated : s.table.HasSeat u
  dealt : s.table.mEngine.mSequence.isDealt = true
  next : (s.bots u).inbox.head? = some json
  cmd : (json.getKey (str "cmd")).getString = str "RequestBid"
  place : ((s.bots u).ctx.decodeRequestBid (.object json)).mCurrentPlayer =
    (s.bots u).ctx.mMyself.place

/-- What a bot that is asked for its bid compares its own bid with is the contract of the engine,
and where it passes, its own bid is a pass or not over the contract. -/
def BidsAgainst (s : BotTable) (u : ℕ) (script : Script) (json : JsonObject) : Prop :=
  let ctx := (s.bots u).ctx.decodeRequestBid (.object json)
  let bid := (Bot.ownBid script ctx).contract
  let contract := s.table.mEngine.mCtx.mBid.contract
  ctx.mBid.contract = contract ∧
    ∀ slam, (Bot.handleRequest script (s.bots u).ctx json).2 =
      [ctx.replyToTable (PlayerContext.buildReplyBid .pass slam)] → bid = .pass ∨ bid ≤ contract

/-- The auction of the engine beside the contract that the bot has been shown. -/
theorem Tuned.mBid_eq_iff (h : Tuned u p) (hseat : p.1.table.HasSeat u)
    (hdealt : p.1.table.mEngine.mSequence.isDealt = true) :
    (p.1.bots u).ctx.mBid.contract = p.1.table.mEngine.mCtx.mBid.contract ↔
      if p.1.table.mEngine.hasBids = true then
        lastShown p.2 = lastShown (p.2 ++ (p.1.bots u).inbox)
      else lastShown p.2 = .noAny := by
  rw [h.heard]
  by_cases hb : p.1.table.mEngine.hasBids = true
  · rw [if_pos hb, h.shown hseat hb]
  · rw [if_neg hb, h.opening.contract_of_not_hasBids hb hdealt]

/-- A bot that is asked for its bid bids against the auction of this deal exactly when, behind a
bid, no other contract is on its way to the bot, and, ahead of the first bid, the bot has never
been shown a contract. -/
theorem bids_against_auction (t : PlayingTable) {n : ℕ} (randomPlace : Place) (h0 : 0 < n)
    (hn : n ≤ 5) {u : ℕ} (hu : 10 ≤ u) {events : List BotEvent}
    (hjoin : Guarded BotTable.step (JoinsEarly u) (start t n randomPlace) events)
    (script : Script) (json : JsonObject) :
    let p := run (observe BotTable.step (noteHeard u)) (start t n randomPlace, []) events
    p.1.AsksBid u json →
      (p.1.BidsAgainst u script json ↔
        if p.1.table.mEngine.hasBids = true then
          lastShown p.2 = lastShown (p.2 ++ (p.1.bots u).inbox)
        else lastShown p.2 = .noAny) := by
  intro p hasks
  have htuned : Tuned u p := by
    refine (guarded_observe (p := (start t n randomPlace, [])) (noteHeard u) hjoin).invariant
      (Tuned u) (fun q event hq hok => ?_) (start_tuned t randomPlace h0 hn u)
    exact hq.step hu hok
  have hconnected : (p.1.bots u).ctx.mMyself.isConnected = true := by
    rw [Player.isConnected, htuned.uuid]
    exact decide_eq_true hu
  have hresult := (Bot.handleRequest_handles script hconnected json).requestBid_eq hasks.cmd
  rw [← htuned.mBid_eq_iff hasks.seated hasks.dealt]
  constructor
  · intro hbids
    exact hbids.1
  · intro heq
    refine ⟨heq, fun slam hpass => ?_⟩
    rw [hresult] at hpass
    rcases Bot.ownBid_of_pass hpass with hown | hle
    · exact .inl hown
    · exact .inr (le_of_le_of_eq hle heq)

/-- Somebody else sends this to the table. -/
def tell (uuid : ℕ) (json : JsonValue) : BotEvent := .call (.executeRequest plainDealer uuid json)

def buildNewGame : JsonValue :=
  .object (JsonObject.ofList [(str "cmd", .string (str "RequestNewGame"))])

/-- A script that would take with any hand. -/
def takes : Script := fun name _ =>
  if name = str "AnnounceBid" then .string (str "Take") else .invalid

/-- A bot sits down between two others, the first of whom begins a game and bids a guard. -/
def guardBid : List BotEvent :=
  [.call (.addPlayer 11), .call (.addPlayer 10), .call (.addPlayer 12), tell 11 buildNewGame,
   .handle 10 takes, .handle 10 takes, .arrive 1 plainDealer,
   tell 11 (PlayerContext.sync .waitForReady), tell 12 (PlayerContext.sync .waitForReady),
   .handle 10 takes, .arrive 1 plainDealer,
   tell 11 (PlayerContext.sync .waitForCards), tell 12 (PlayerContext.sync .waitForCards),
   tell 11 (PlayerContext.buildReplyBid .guard false), .handle 10 takes, .handle 10 takes]

/-- The bot is asked for its bid behind the guard. -/
def askedBehindGuard : List BotEvent :=
  guardBid ++ [.arrive 1 plainDealer, tell 11 (PlayerContext.sync .waitForShowBid),
    tell 12 (PlayerContext.sync .waitForShowBid)]

/-- Instead a new game begins, and the bot is the first one who is asked for a bid. -/
def askedInNewGame : List BotEvent :=
  guardBid ++ [tell 11 buildNewGame, .handle 10 takes, .arrive 2 plainDealer,
    tell 11 (PlayerContext.sync .waitForReady), tell 12 (PlayerContext.sync .waitForReady),
    .handle 10 takes, .arrive 2 plainDealer,
    tell 11 (PlayerContext.sync .waitForCards), tell 12 (PlayerContext.sync .waitForCards)]

instance (u : ℕ) (s : BotTable) : DecidablePred (JoinsEarly u s)
  | .call (.addPlayer _) => inferInstanceAs (Decidable (_ → _))
  | .call (.removePlayer _) | .call (.executeRequest _ _ _) | .handle _ _ | .arrive _ _ =>
    isTrue trivial

/-- A request for the bid of the bot's own seat waits in front. -/
def asksBidNext (s : BotTable) (u : ℕ) : Bool :=
  (s.bots u).inbox.head?.any fun json : JsonObject =>
    (json.getKey (str "cmd")).getString = str "RequestBid" &&
      ((s.bots u).ctx.decodeRequestBid (.object json)).mCurrentPlayer =
        (s.bots u).ctx.mMyself.place

theorem asksBid_of_next {s : BotTable} {u : ℕ} (hseat : s.table.HasSeat u)
    (hdealt : s.table.mEngine.mSequence.isDealt = true) (hnext : s.asksBidNext u = true) :
    ∃ json, s.AsksBid u json := by
  rw [asksBidNext, Option.any_eq_true] at hnext
  obtain ⟨json, hjson, hread⟩ := hnext
  rw [Bool.and_eq_true, decide_eq_true_iff, decide_eq_true_iff] at hread
  exact ⟨json, hseat, hdealt, hjson, hread.1, hread.2⟩

theorem bids_against_auction_guard :
    let s := run BotTable.step (start {} 3 .east) askedBehindGuard
    ∃ json, s.AsksBid 10 json ∧ s.BidsAgainst 10 takes json := by
  have hjoin : Guarded BotTable.step (JoinsEarly 10) (start {} 3 .east) askedBehindGuard := by
    decide +kernel
  obtain ⟨json, hasks⟩ := asksBid_of_next
    (s := run BotTable.step (start {} 3 .east) askedBehindGuard) (u := 10)
    ⟨1, by decide +kernel, by decide +kernel⟩ (by decide +kernel) (by decide +kernel)
  have hbids : (run BotTable.step (start {} 3 .east) askedBehindGuard).table.mEngine.hasBids =
      true := by
    decide +kernel
  have h := bids_against_auction {} .east (by decide) (by decide) (by decide) hjoin takes json
  simp only [run_observe_fst] at h
  rw [if_pos hbids] at h
  refine ⟨json, hasks, (h hasks).mpr ?_⟩
  decide +kernel

/-- What the bot bids over is the guard of the last deal, where there is no contract yet. -/
theorem bids_against_last_deal :
    let s := run BotTable.step (start {} 3 .east) askedInNewGame
    ∃ json, s.AsksBid 10 json ∧ ¬ s.BidsAgainst 10 takes json := by
  obtain ⟨json, hasks⟩ := asksBid_of_next
    (s := run BotTable.step (start {} 3 .east) askedInNewGame) (u := 10)
    ⟨1, by decide +kernel, by decide +kernel⟩ (by decide +kernel) (by decide +kernel)
  have hguard : ((run BotTable.step (start {} 3 .east) askedInNewGame).bots 10).ctx.mBid.contract =
      .guard := by
    decide +kernel
  have hnone : (run BotTable.step (start {} 3 .east) askedInNewGame).table.mEngine.mCtx.mBid.contract =
      .noAny := by
    decide +kernel
  generalize run BotTable.step (start {} 3 .east) askedInNewGame = s at hasks hguard hnone ⊢
  refine ⟨json, hasks, fun hbids => ?_⟩
  have hcontract := hbids.1
  rw [hnone] at hcontract
  exact absurd (hguard.symm.trans hcontract) (by decide)

end BotTable

end TarotClub
