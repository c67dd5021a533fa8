import TarotClub.QuitTable
import TarotClub.Refusals

namespace TarotClub

open Machine

/-- The message shows the dog. -/
def ShowsDog (out : List Reply) : Prop :=
  ∃ reply ∈ out, reply.data.getKey (str "cmd") = .string (str "ShowDog")

/-- The steps of the auction, from the distribution of the cards to the last bid. -/
def Sequence.isAuction (seq : Sequence) : Bool :=
  seq = .waitForCards || seq = .waitForBid || seq = .waitForShowBid

theorem Sequence.isAuction_iff (seq : Sequence) :
    seq.isAuction = true ↔ seq = .waitForCards ∨ seq = .waitForBid ∨ seq = .waitForShowBid := by
  cases seq <;> decide

/-- The engine with another dog. -/
def Engine.setDog (e : Engine) (dog : Deck) : Engine :=
  { e with mCtx := { e.mCtx with mDog := dog } }

namespace PlayingTable

/-- The table with another dog. -/
def setDog (t : PlayingTable) (dog : Deck) : PlayingTable :=
  { t with mEngine := t.mEngine.setDog dog }

/-- What the messages of the auction are made of. -/
structure SameAuction (e e' : Engine) : Prop where
  mSequence : e'.mSequence = e.mSequence
  mCurrentPlayer : e'.mCurrentPlayer = e.mCurrentPlayer
  mDealer : e'.mDealer = e.mDealer
  mBid : e'.mCtx.mBid = e.mCtx.mBid
  mNbPlayers : e'.mCtx.mNbPlayers = e.mCtx.mNbPlayers

theorem sameAuction_bidSequence (e : Engine) (dog : Deck) :
    SameAuction e.bidSequence (e.setDog dog).bidSequence := by
  have hafter : ∀ e : Engine,
      SameAuction e.manageAfterBidSequence (e.setDog dog).manageAfterBidSequence := by
    intro e
    have hold : (e.setDog dog).mCtx.mBid = e.mCtx.mBid := rfl
    simp only [Engine.manageAfterBidSequence, TarotContext.manageDogAfterBid, hold]
    by_cases hwithout : e.mCtx.mBid.contract = .guardWithout
    · simp only [if_pos hwithout]
      exact ⟨rfl, rfl, rfl, rfl, rfl⟩
    · by_cases hagainst : e.mCtx.mBid.contract = .guardAgainst
      · simp only [if_neg hwithout, if_pos hagainst]
        exact ⟨rfl, rfl, rfl, rfl, rfl⟩
      · simp only [if_neg hwithout, if_neg hagainst]
        exact ⟨rfl, rfl, rfl, rfl, rfl⟩
  have hend : (e.setDog dog).isEndOfTrick = (e.isEndOfTrick.1, e.isEndOfTrick.2.setDog dog) := by
    have hposition : (e.setDog dog).mPosition = e.mPosition := rfl
    have hnb : (e.setDog dog).mCtx.mNbPlayers = e.mCtx.mNbPlayers := rfl
    simp only [Engine.isEndOfTrick, hposition, hnb]
    split_ifs <;> rfl
  simp only [Engine.bidSequence, hend]
  generalize e.isEndOfTrick = p
  obtain ⟨endOfTrick, e⟩ := p
  have hold : (e.setDog dog).mCtx.mBid = e.mCtx.mBid := rfl
  have hnb : (e.setDog dog).mCtx.mNbPlayers = e.mCtx.mNbPlayers := rfl
  have hseq : (e.setDog dog).mSequence = e.mSequence := rfl
  simp only [hold, hnb, hseq]
  split_ifs
  · exact ⟨rfl, rfl, rfl, rfl, rfl⟩
  · exact ⟨rfl, rfl, rfl, rfl, rfl⟩
  · exact hafter e
  · exact ⟨rfl, rfl, rfl, rfl, rfl⟩

/-- Up to the dog itself, the next message of the auction is the same. -/
theorem sendNextBidSequence_out_congr (t : PlayingTable) {e e' : Engine} (h : SameAuction e e')
    (hshow : ¬ ShowsDog ({ t with mEngine := e } : PlayingTable).sendNextBidSequence.out) :
    ({ t with mEngine := e' } : PlayingTable).sendNextBidSequence.out =
      ({ t with mEngine := e } : PlayingTable).sendNextBidSequence.out := by
  simp only [sendNextBidSequence, h.mSequence] at hshow ⊢
  cases hseq : e.mSequence <;> simp only [hseq] at hshow ⊢
  case waitForShowDog =>
    exact absurd ⟨_, List.mem_singleton_self _, rfl⟩ hshow
  case waitForBid =>
    simp only [sendToAllPlayers, nbPlayers, h.mNbPlayers, h.mCurrentPlayer, h.mBid]
  case waitForKingCall => simp only [sendToAllPlayers, nbPlayers, h.mNbPlayers]
  case waitForAllPassed => simp only [sendToAllPlayers, nbPlayers, h.mNbPlayers]
  case waitForStartDeal =>
    simp only [startDeal, Engine.startDeal, sendToAllPlayers, currentDeal, nbPlayers, h.mNbPlayers,
      h.mBid, h.mDealer]

theorem sync_setDog (t : PlayingTable) (dog : Deck) (seq : Sequence) (uuid : ℕ) :
    (t.setDog dog).sync seq uuid = ((t.sync seq uuid).1, (t.sync seq uuid).2.setDog dog) := by
  have hnote : (t.setDog dog).noteAck seq uuid = (t.noteAck seq uuid).setDog dog := rfl
  rw [sync, hnote]
  unfold ackFromAllPlayers
  have hcount : ((t.noteAck seq uuid).setDog dog).mPlayers = (t.noteAck seq uuid).mPlayers := rfl
  have hnb : ((t.noteAck seq uuid).setDog dog).nbPlayers = (t.noteAck seq uuid).nbPlayers := rfl
  rw [hcount, hnb, sync, ackFromAllPlayers]
  split_ifs <;> rfl

theorem executeReplyBid_setDog (t : PlayingTable) (dog : Deck) (srcUuid : ℕ) (json : JsonValue) :
    ((t.setDog dog).executeReplyBid srcUuid json).out = (t.executeReplyBid srcUuid json).out := by
  have hplace : (t.setDog dog).getPlayerPlace srcUuid = t.getPlayerPlace srcUuid := rfl
  have hseq : (t.setDog dog).mEngine.mSequence = t.mEngine.mSequence := rfl
  have hplayer : (t.setDog dog).mEngine.mCurrentPlayer = t.mEngine.mCurrentPlayer := rfl
  have hbid : ∀ c slam p, (t.setDog dog).mEngine.setBid c slam p =
      ((t.mEngine.setBid c slam p).1, (t.mEngine.setBid c slam p).2.setDog dog) := by
    intro c slam p
    have hold : (t.setDog dog).mEngine.mCtx.mBid = t.mEngine.mCtx.mBid := rfl
    simp only [Engine.setBid, TarotContext.setBid, hold]
    split_ifs <;> rfl
  simp only [executeReplyBid, hplace, hplayer, hseq, hbid]
  split_ifs <;> rfl

/-- During the auction the replies of a table do not depend on the dog, unless it is shown. -/
theorem executeRequest_setDog {t : PlayingTable} (ht : t.Open) (h0 : 0 < t.nbPlayers)
    (hseq : t.mEngine.mSequence.isAuction = true) (dog : Deck) (dealer : Dealer) (srcUuid : ℕ)
    (json : JsonValue) (hshow : ¬ ShowsDog (t.executeRequest dealer srcUuid json).out) :
    ((t.setDog dog).executeRequest dealer srcUuid json).out =
      (t.executeRequest dealer srcUuid json).out := by
  have hplace : (t.setDog dog).getPlayerPlace srcUuid = t.getPlayerPlace srcUuid := rfl
  rcases exists_command json with hcmd | hcmd | ⟨step, hcmd⟩ | hnone
  · rw [(request_of_ack dealer t srcUuid json hcmd).1] at hshow ⊢
    rw [(request_of_ack dealer (t.setDog dog) srcUuid json hcmd).1]
    simp only [executeAck, hplace, sync_setDog] at hshow ⊢
    split_ifs at hshow ⊢ with hp hbad hsynced
    · rfl
    · have hstep := ht.mSequence_eq h0 hsynced
      generalize ackFromString (json.findValue (str "step")).getString = seq at hshow hstep ⊢
      rw [hstep, Sequence.isAuction_iff] at hseq
      rcases hseq with rfl | rfl | rfl
      · exact sendNextBidSequence_out_congr _ (sameAuction_bidSequence _ dog) hshow
      · rfl
      · exact sendNextBidSequence_out_congr _ (sameAuction_bidSequence _ dog) hshow
    · rfl
    · rfl
  · have hadmin : (t.setDog dog).mAdmin = t.mAdmin := rfl
    rw [(request_of_newGame dealer t srcUuid json hcmd).1,
      (request_of_newGame dealer (t.setDog dog) srcUuid json hcmd).1, executeNewGame,
      executeNewGame, hadmin]
    split_ifs <;> rfl
  · rw [executeRequest_of_answers dealer t srcUuid json hcmd,
      executeRequest_of_answers dealer (t.setDog dog) srcUuid json hcmd]
    by_cases hstep : t.mEngine.mSequence = step
    · generalize (json.findValue (str "cmd")).getString = cmd at hcmd
      cases hcmd with
      | replyBid => exact executeReplyBid_setDog t dog srcUuid json
      | discard | replyKingCall | handle | card => exact absurd (hstep ▸ hseq) (by decide)
    · have hrefused : t.executeAnswer step srcUuid json = { table := t } :=
        executeAnswer_refused hstep
      have hrefused' : (t.setDog dog).executeAnswer step srcUuid json =
          { table := t.setDog dog } := executeAnswer_refused hstep
      rw [hrefused, hrefused']
  · rw [(hnone dealer t srcUuid).1, (hnone dealer (t.setDog dog) srcUuid).1]

@[simp] theorem setDog_mId (t : PlayingTable) (dog : Deck) : (t.setDog dog).mId = t.mId := rfl

theorem addPlayer_setDog (t : PlayingTable) (dog : Deck) (uuid : ℕ) :
    (t.setDog dog).addPlayer uuid = ((t.addPlayer uuid).1, (t.addPlayer uuid).2.setDog dog) := by
  have hplace : (t.setDog dog).getPlayerPlace uuid = t.getPlayerPlace uuid := rfl
  have hfree : (t.setDog dog).freePlace = t.freePlace := rfl
  have hadmin : (t.setDog dog).mAdmin = t.mAdmin := rfl
  simp only [addPlayer, hplace, hfree, hadmin]
  split_ifs <;> rfl

/-- Who sits at the table on no seat gets one as long as there is a free one. -/
theorem addPlayer_isValid_iff {t : PlayingTable} (hn : t.nbPlayers ≤ 5) (uuid : ℕ) :
    (t.addPlayer uuid).1.isValid = true ↔
      t.hasFreeSeat = true ∧ ∀ i < t.nbPlayers, (t.mPlayers i).uuid ≠ uuid := by
  constructor
  · intro hvalid
    rcases addPlayer_cases hn uuid with ⟨hnot, -⟩ | ⟨i, hi, hfree, -, -, -, hnone, -⟩
    · rw [hnot] at hvalid
      exact absurd hvalid Bool.false_ne_true
    · exact ⟨(hasFreeSeat_iff t).mpr ⟨i, hi, hfree⟩, hnone⟩
  · rintro ⟨hfree, hnone⟩
    have hp := (getPlayerPlace_eq_nowhere hn).mpr hnone
    have hv : t.freePlace.value < Place.nowhere.value := by
      obtain ⟨i, hi, hu⟩ := (hasFreeSeat_iff t).mp hfree
      unfold freePlace
      cases hfind : (List.range t.nbPlayers).find? fun i => (t.mPlayers i).isFree with
      | none =>
        have hnone' := List.find?_eq_none.mp hfind i (List.mem_range.mpr hi)
        exact absurd (decide_eq_true hu) hnone'
      | some j =>
        have hj := List.mem_range.mp (List.mem_of_find?_eq_some hfind)
        simp only [Place.value_assign (show j ≤ 5 by omega)]
        have h5 : Place.nowhere.value = 5 := rfl
        omega
    simp only [addPlayer, hp, if_true, if_pos hv, Place.isValid]
    exact decide_eq_true hv

end PlayingTable

namespace Lobby

/-- The lobby with another dog at a table. -/
def setDog (l : Lobby) (id : ℕ) (dog : Deck) : Lobby :=
  { l with mTables := updateTables id (·.setDog dog) l.mTables }

/-- A user who is at no table asks for a seat, and the table has one for him. -/
def GrantsSeat (l : Lobby) (req : Request) (t : PlayingTable) : Prop :=
  Asks req req.srcUuid (str "RequestJoinTable") t.mId ∧
    l.mUsers.getPlayerTable req.srcUuid = lobbyUid ∧
    t.hasFreeSeat = true ∧ ∀ i < t.nbPlayers, (t.mPlayers i).uuid ≠ req.srcUuid

/-- An event tells nothing of the tables. -/
theorem sendPlayerEvent_out_congr {l l' : Lobby} (husers : l'.mUsers = l.mUsers)
    (hcounter : l'.mEvCounter = l.mEvCounter) (uuid : ℕ) (event : Str) :
    (l'.sendPlayerEvent uuid event).2 = (l.sendPlayerEvent uuid event).2 := by
  unfold sendPlayerEvent
  rw [husers, hcounter]
  cases hentry : l.mUsers.getEntry uuid with
  | none => rfl
  | some entry => simp only [playerStatus]

theorem removePlayerFromTable_out_congr {l l' : Lobby} (husers : l'.mUsers = l.mUsers)
    (hcounter : l'.mEvCounter = l.mEvCounter) (uuid tableId : ℕ) :
    (l'.removePlayerFromTable uuid tableId).2 = (l.removePlayerFromTable uuid tableId).2 := by
  unfold removePlayerFromTable
  refine sendPlayerEvent_out_congr ?_ ?_ uuid _
  · simp only [husers]
    split_ifs
    · rfl
    · rfl
  · simp only [husers]
    split_ifs
    · exact hcounter
    · exact hcounter

theorem findTable_setDog (l : Lobby) (id tableId : ℕ) (dog : Deck) :
    (l.setDog id dog).findTable tableId =
      (l.findTable tableId).map fun t => if t.mId = id then t.setDog dog else t := by
  simp only [findTable, setDog, updateTables, List.find?_map]
  have hid : ((fun t : PlayingTable => decide (t.mId = tableId)) ∘
      fun t => if t.mId = id then t.setDog dog else t) =
        fun t : PlayingTable => decide (t.mId = tableId) := by
    funext t
    simp only [Function.comp_apply]
    split_ifs <;> rfl
  rw [hid]

/-- The message to who joins tells the dog. -/
theorem replyJoinTable_setDog (tableId : ℕ) (place : Place) (t : PlayingTable) (dog : Deck) :
    replyJoinTable tableId place (t.setDog dog) = replyJoinTable tableId place t ↔
      dog.toString = t.mEngine.mCtx.mDog.toString := by
  have htold : ∀ t : PlayingTable, ((((replyJoinTable tableId place t).getKey
      (str "context")).getObj.getKey (str "deal_info")).getObj.getKey (str "dog")).getString =
        t.mEngine.mCtx.mDog.toString := fun t => rfl
  constructor
  · intro h
    rw [← htold t, ← h, htold]
    rfl
  · intro h
    have hcards : (t.setDog dog).mEngine.getDeck place = t.mEngine.getDeck place := rfl
    have hcontext : (t.setDog dog).mEngine.mCtx.saveToJson = t.mEngine.mCtx.saveToJson := by
      have hdog : (t.setDog dog).mEngine.mCtx.mDog = dog := rfl
      rw [TarotContext.saveToJson, hdog, h]
      rfl
    rw [replyJoinTable, hcards, hcontext]
    rfl

/-- What a request to join answers: the dog is told to who gets a seat. -/
theorem requestJoinTable_setDog {l : Lobby} (h : TablesListed l.mTables l.mTableIds)
    {t : PlayingTable} (ht : t ∈ l.mTables) (dog : Deck) (srcUuid : ℕ) (json : JsonValue) :
    ((l.setDog t.mId dog).requestJoinTable srcUuid json).out =
        (l.requestJoinTable srcUuid json).out ↔
      ((json.findValue (str "table_id")).getUInt32 = t.mId ∧
        l.mUsers.getPlayerTable srcUuid = lobbyUid ∧ t.hasFreeSeat = true ∧
        (∀ i < t.nbPlayers, (t.mPlayers i).uuid ≠ srcUuid) →
          dog.toString = t.mEngine.mCtx.mDog.toString) := by
  have husers : (l.setDog t.mId dog).mUsers = l.mUsers := rfl
  simp only [requestJoinTable, findTable_setDog, husers]
  generalize (json.findValue (str "table_id")).getUInt32 = tableId
  by_cases hlobby : l.mUsers.getPlayerTable srcUuid = lobbyUid
  swap
  · simp only [if_neg hlobby]
    exact iff_of_true trivial fun hc => absurd hc.2.1 hlobby
  simp only [hlobby, true_and]
  cases hfind : l.findTable tableId with
  | none =>
    refine iff_of_true rfl ?_
    rintro ⟨rfl, -⟩
    have hnone := List.find?_eq_none.mp hfind t ht
    exact absurd (decide_eq_true rfl) hnone
  | some t' =>
    have hmem := List.mem_of_find?_eq_some hfind
    have hid : t'.mId = tableId := by simpa using List.find?_some hfind
    subst hid
    have hevent : ∀ l₁ l₂ : Lobby, l₁.mUsers = l₂.mUsers → l₁.mEvCounter = l₂.mEvCounter →
        (l₁.sendPlayerEvent srcUuid (str "JoinTable")).2 =
          (l₂.sendPlayerEvent srcUuid (str "JoinTable")).2 :=
      fun l₁ l₂ hu hc => sendPlayerEvent_out_congr hu hc _ _
    simp only [Option.map_some]
    by_cases hsame : t'.mId = t.mId
    · obtain rfl := List.inj_on_of_nodup_map h.nodup hmem ht hsame
      have hvalid := PlayingTable.addPlayer_isValid_iff (h.seats t' hmem) srcUuid
      simp only [if_true, PlayingTable.addPlayer_setDog, true_and, ← hvalid]
      split_ifs with hok
      · rw [List.cons.injEq, Reply.mk.injEq]
        have hdog : (t'.addPlayer srcUuid).2.mEngine.mCtx.mDog = t'.mEngine.mCtx.mDog := by
          simp only [PlayingTable.addPlayer]
          split_ifs <;> rfl
        rw [replyJoinTable_setDog, hdog]
        simp only [true_and]
        refine ⟨fun hp _ => hp.1, fun hp => ⟨hp hok, ?_⟩⟩
        exact hevent _ _ rfl rfl
      · exact iff_of_true rfl fun hp => absurd hp hok
    · have hother : (if t'.mId = t.mId then t'.setDog dog else t') = t' := if_neg hsame
      simp only [hother, if_true]
      refine iff_of_true ?_ fun hc => absurd hc.1 hsame
      split_ifs
      · rw [List.cons.injEq]
        exact ⟨rfl, hevent _ _ rfl rfl⟩
      · rfl

/-- A table is asked nothing that depends on the dog of one of the tables. -/
theorem deliverToTable_setDog {l : Lobby} (h : TablesListed l.mTables l.mTableIds)
    {t : PlayingTable} (ht : t ∈ l.mTables) (hopen : t.Open) (h0 : 0 < t.nbPlayers)
    (hseq : t.mEngine.mSequence.isAuction = true) (dog : Deck) (dealer : Dealer)
    (srcUuid destUuid : ℕ) (json : JsonValue)
    (hshow : ¬ ShowsDog (l.deliverToTable dealer srcUuid destUuid json).out) :
    ((l.setDog t.mId dog).deliverToTable dealer srcUuid destUuid json).out =
      (l.deliverToTable dealer srcUuid destUuid json).out := by
  have husers : (l.setDog t.mId dog).mUsers = l.mUsers := rfl
  simp only [deliverToTable, husers] at hshow ⊢
  split_ifs at hshow ⊢
  · have hid : ((fun t' : PlayingTable => decide (t'.mId = destUuid)) ∘
        fun t' => if t'.mId = t.mId then t'.setDog dog else t') =
          fun t' : PlayingTable => decide (t'.mId = destUuid) := by
      funext t'
      simp only [Function.comp_apply]
      split_ifs <;> rfl
    simp only [setDog, updateTables, List.filter_map, hid, List.flatMap_map]
    refine List.flatMap_congr fun t' ht' => ?_
    by_cases hsame : t'.mId = t.mId
    · obtain rfl := List.inj_on_of_nodup_map h.nodup (List.mem_filter.mp ht').1 ht hsame
      rw [if_pos rfl]
      refine PlayingTable.executeRequest_setDog hopen h0 hseq dog dealer srcUuid json ?_
      rintro ⟨reply, hreply, hcmd⟩
      exact hshow ⟨reply, List.mem_flatMap.mpr ⟨t', ht', hreply⟩, hcmd⟩
    · rw [if_neg hsame]
  · rfl

/-- The requests to the lobby that tell nothing of the dog: all but the request to join. -/
theorem deliverToLobby_setDog (l : Lobby) (id : ℕ) (dog : Deck) (srcUuid : ℕ) {json : JsonValue}
    (hcmd : (json.findValue (str "cmd")).getString ≠ str "RequestJoinTable") :
    ((l.setDog id dog).deliverToLobby srcUuid json).out = (l.deliverToLobby srcUuid json).out := by
  have husers : (l.setDog id dog).mUsers = l.mUsers := rfl
  have hids : (l.setDog id dog).mUserIds = l.mUserIds := rfl
  have hcounter : (l.setDog id dog).mEvCounter = l.mEvCounter := rfl
  have hevent : ∀ (users : Users) (event : Str),
      ({ l.setDog id dog with mUsers := users }.sendPlayerEvent srcUuid event).2 =
        ({ l with mUsers := users }.sendPlayerEvent srcUuid event).2 := by
    intro users event
    refine sendPlayerEvent_out_congr ?_ ?_ srcUuid event
    · rfl
    · exact hcounter
  simp only [deliverToLobby]
  split_ifs
  · rfl
  · have hgranted : ∀ l' : Lobby, l'.mTables = l.mTables →
        ({ l' with mTables := (l.setDog id dog).mTables } : Lobby).accessGranted =
          l'.accessGranted := by
      intro l' htables
      have hnames : (l.setDog id dog).mTables.map (fun t => JsonValue.object (JsonObject.ofList
          [(str "name", .string t.mName), (str "uuid", .integer t.mId)])) =
          l.mTables.map fun t => .object (JsonObject.ofList
            [(str "name", .string t.mName), (str "uuid", .integer t.mId)]) := by
        rw [setDog, updateTables, List.map_map]
        refine List.map_congr_left fun t _ => ?_
        rw [Function.comp_apply]
        split_ifs <;> rfl
      simp only [accessGranted, hnames, htables]
      rfl
    simp only [replyLogin, husers, hids]
    split_ifs
    · rw [List.cons.injEq, Reply.mk.injEq]
      exact ⟨⟨rfl, hgranted { l with mUsers := _ } rfl⟩, hevent _ _⟩
    · rfl
    · rfl
  · simp only [requestQuitTable, husers]
    generalize (json.findValue (str "table_id")).getUInt32 = tableId
    have hleave := removePlayerFromTable_out_congr husers hcounter srcUuid tableId
    split_ifs
    · exact hleave
    · rfl
  · simp only [requestChangeNickname, husers]
    split_ifs
    · exact hevent _ _
    · rfl
  · rfl

/-- What the lobby answers when a table of it is in its auction. -/
theorem deliver_setDog_iff {l : Lobby} (hlisted : TablesListed l.mTables l.mTableIds)
    {t : PlayingTable} (ht : t ∈ l.mTables) (hopen : t.Open) (hnb : 0 < t.nbPlayers)
    (hseq : t.mEngine.mSequence.isAuction = true) (dog : Deck) (dealer : Dealer) (req : Request)
    (hshow : ¬ ShowsDog (l.deliver dealer req).out) :
    ((l.setDog t.mId dog).deliver dealer req).out = (l.deliver dealer req).out ↔
      (l.GrantsSeat req t → dog.toString = t.mEngine.mCtx.mDog.toString) := by
  have hids : (l.setDog t.mId dog).mTableIds = l.mTableIds := rfl
  simp only [Lobby.deliver, hids] at hshow ⊢
  cases hparse : JsonReader.parseString req.arg with
  | none =>
    refine iff_of_true rfl ?_
    rintro ⟨⟨-, -, json, hsome, -⟩, -⟩
    rw [hparse] at hsome
    cases hsome
  | some json =>
    simp only [hparse] at hshow ⊢
    split_ifs at hshow ⊢ with htaken hlobby
    · refine iff_of_true ?_ ?_
      · exact deliverToTable_setDog hlisted ht hopen hnb hseq dog dealer _ _ json hshow
      · rintro ⟨⟨-, hdest, -⟩, -⟩
        have := hlisted.used _ ((UniqueId.isTaken_iff _ _).mp htaken)
        rw [hdest, lobbyUid] at this
        omega
    · have hgrants : l.GrantsSeat req t ↔
          (json.findValue (str "cmd")).getString = str "RequestJoinTable" ∧
          (json.findValue (str "table_id")).getUInt32 = t.mId ∧
          l.mUsers.getPlayerTable req.srcUuid = lobbyUid ∧ t.hasFreeSeat = true ∧
          ∀ i < t.nbPlayers, (t.mPlayers i).uuid ≠ req.srcUuid := by
        constructor
        · rintro ⟨⟨-, -, json', hsome, hcmd, hid⟩, hrest⟩
          rw [hparse, Option.some.injEq] at hsome
          exact ⟨hsome ▸ hcmd, hsome ▸ hid, hrest⟩
        · rintro ⟨hcmd, hid, hrest⟩
          exact ⟨⟨rfl, hlobby, json, hparse, hcmd, hid⟩, hrest⟩
      rw [hgrants]
      by_cases hcmd : (json.findValue (str "cmd")).getString = str "RequestJoinTable"
      · have hjoin : ∀ l : Lobby, l.deliverToLobby req.srcUuid json =
            l.requestJoinTable req.srcUuid json := by
          intro l
          rw [deliverToLobby, hcmd]
          rw [if_neg (by decide), if_neg (by decide), if_pos rfl]
        rw [hjoin, hjoin, requestJoinTable_setDog hlisted ht dog]
        exact ⟨fun h hc => h hc.2, fun h hc => h ⟨hcmd, hc⟩⟩
      · exact iff_of_true (deliverToLobby_setDog l t.mId dog _ hcmd) fun hc => absurd hc.1 hcmd
    · refine iff_of_true rfl ?_
      rintro ⟨⟨-, hdest, -⟩, -⟩
      exact absurd hdest hlobby

/-- During the auction of a table, what the lobby answers to a request depends on the dog of that
table, beyond what `ShowDog` shows, exactly when the request seats its sender there. -/
theorem dog_told_iff (adminMode : Bool) (calls : List LobbyCall) {t : PlayingTable}
    (ht : t ∈ (run apply ({ mAdminMode := adminMode } : Lobby) calls).mTables)
    (hseq : t.mEngine.mSequence.isAuction = true) (dog : Deck) (dealer : Dealer) (req : Request)
    (hshow : ¬ ShowsDog
      ((run apply ({ mAdminMode := adminMode } : Lobby) calls).deliver dealer req).out) :
    let l := run apply ({ mAdminMode := adminMode } : Lobby) calls
    ((l.setDog t.mId dog).deliver dealer req).out = (l.deliver dealer req).out ↔
      (l.GrantsSeat req t → dog.toString = t.mEngine.mCtx.mDog.toString) := by
  have hlisted := tables_listed adminMode calls
  obtain ⟨hreachable, hnb⟩ := tables_reachable adminMode calls t ht
  generalize run apply ({ mAdminMode := adminMode } : Lobby) calls = l at ht hshow hlisted
  have h0 : 0 < t.nbPlayers := by omega
  exact deliver_setDog_iff hlisted ht hreachable.open h0 hseq dog dealer req hshow

/-! Two lobbies that differ in a dog. -/

end Lobby

/-- The same deals with this dog. -/
def Dealer.withDog (dealer : Dealer) (dog : Deck) : Dealer := fun nbPlayers distribution =>
  { dealer nbPlayers distribution with mDogDeck := dog }

namespace PlayingTable

theorem newDeal_withDog (dealer : Dealer) (dog : Deck) (t : PlayingTable) :
    (t.newDeal (dealer.withDog dog)).table = (t.newDeal dealer).table.setDog dog := rfl

/-- When the last player is ready, the cards are dealt. -/
theorem executeRequest_lastReady (dealer : Dealer) {t : PlayingTable} {srcUuid : ℕ}
    {json : JsonValue} (hcmd : (json.findValue (str "cmd")).getString = str "Ack")
    (hstep : ackFromString (json.findValue (str "step")).getString = .waitForReady)
    (hplace : t.getPlayerPlace srcUuid ≠ .nowhere)
    (hsync : (t.sync .waitForReady srcUuid).1 = true) :
    t.executeRequest dealer srcUuid json = (t.sync .waitForReady srcUuid).2.newDeal dealer := by
  rw [(request_of_ack dealer t srcUuid json hcmd).1]
  simp only [executeAck, hstep, if_pos hplace, hsync, if_true]
  rfl

theorem removePlayer_setDog (t : PlayingTable) (dog : Deck) (kickedPlayer : ℕ) :
    (t.setDog dog).removePlayer kickedPlayer = (t.removePlayer kickedPlayer).setDog dog := by
  have hplace : (t.setDog dog).getPlayerPlace kickedPlayer = t.getPlayerPlace kickedPlayer := rfl
  have hadmin : (t.setDog dog).mAdmin = t.mAdmin := rfl
  unfold removePlayer
  rw [hplace, hadmin]
  split_ifs
  · rfl
  · rfl
  · rfl

end PlayingTable

namespace Lobby

theorem removePlayerFromTable_setDog (l : Lobby) (id : ℕ) (dog : Deck) (uuid tableId : ℕ) :
    ((l.setDog id dog).removePlayerFromTable uuid tableId).1 =
      (l.removePlayerFromTable uuid tableId).1.setDog id dog := by
  have hevent : ∀ (l : Lobby) (event : Str), ((l.setDog id dog).sendPlayerEvent uuid event).1 =
      (l.sendPlayerEvent uuid event).1.setDog id dog := by
    intro l event
    have husers : (l.setDog id dog).mUsers = l.mUsers := rfl
    unfold sendPlayerEvent
    rw [husers]
    cases l.mUsers.getEntry uuid with
    | none => rfl
    | some entry => rfl
  have hcomm : updateTables tableId (·.removePlayer uuid) (l.setDog id dog).mTables =
      updateTables id (·.setDog dog) (updateTables tableId (·.removePlayer uuid) l.mTables) := by
    simp only [setDog, updateTables, List.map_map]
    refine List.map_congr_left fun t _ => ?_
    simp only [Function.comp_apply]
    by_cases hid : t.mId = id
    · by_cases htable : t.mId = tableId
      · have hremoved : (t.removePlayer uuid).mId = id := by
          rw [PlayingTable.removePlayer_mId, hid]
        rw [if_pos hid, if_pos htable, if_pos hremoved, PlayingTable.setDog_mId, if_pos htable,
          PlayingTable.removePlayer_setDog]
      · rw [if_pos hid, if_neg htable, if_pos hid, PlayingTable.setDog_mId, if_neg htable]
    · by_cases htable : t.mId = tableId
      · have hremoved : (t.removePlayer uuid).mId ≠ id := by
          rwa [PlayingTable.removePlayer_mId]
        rw [if_neg hid, if_pos htable, if_neg hremoved]
      · rw [if_neg hid, if_neg htable, if_neg hid]
  have husers : (l.setDog id dog).mUsers = l.mUsers := rfl
  simp only [removePlayerFromTable, husers, hcomm]
  split_ifs
  · exact hevent { l with mTables := _, mUsers := _ } _
  · exact hevent { l with mTables := _ } _

theorem removeUser_setDog (l : Lobby) (id : ℕ) (dog : Deck) (uuid : ℕ) :
    (l.setDog id dog).removeUser uuid = (l.removeUser uuid).setDog id dog := by
  have husers : (l.setDog id dog).mUsers = l.mUsers := rfl
  simp only [removeUser, husers]
  split_ifs
  · rw [removePlayerFromTable_setDog]
    rfl
  · rfl

/-- The request of a player to a table, as it arrives there. -/
def toTable (srcUuid tableId : ℕ) (data : JsonValue) : Request where
  srcUuid := srcUuid
  destUuid := tableId
  arg := data.toString (-1)

/-- Five users log in, four of them sit down at the only table, and three of these are ready. -/
def nearlyReadyCalls : List LobbyCall :=
  .createTable (str "Local game") {} .south :: (List.range 5).map .addUser ++
    [loginAs 10 (str "a"), loginAs 11 (str "b"), loginAs 12 (str "c"), loginAs 13 (str "d"),
      loginAs 14 (str "e")] ++
    [10, 11, 12, 13].map (fun uuid =>
      .deliver plainDealer (PlayerContext.toLobby uuid (PlayerContext.buildJoinTable 1000))) ++
    [10, 11, 12, 13].map (fun uuid =>
      .deliver plainDealer (toTable uuid 1000 (PlayerContext.sync .waitForPlayers))) ++
    [10, 11, 12].map (fun uuid =>
      .deliver plainDealer (toTable uuid 1000 (PlayerContext.sync .waitForReady)))

/-- The fourth player is ready, gets his cards and goes. -/
def dealtCalls (dealer : Dealer) : List LobbyCall :=
  nearlyReadyCalls ++
    [.deliver dealer (toTable 13 1000 (PlayerContext.sync .waitForReady)), .removeUser 13]

def otherDog : Deck := { mDeck := (plainDealer 4 {}).mDogDeck.mDeck.reverse }

/-- The cards that lie in the dog are all that the lobby knows of its dealer. -/
theorem run_dealtCalls_withDog (dog : Deck) :
    run apply ({} : Lobby) (dealtCalls (plainDealer.withDog dog)) =
      (run apply ({} : Lobby) (dealtCalls plainDealer)).setDog 1000 dog := by
  have htables : ((run apply ({} : Lobby) nearlyReadyCalls).mTables.all fun t =>
      t.mId = 1000 && t.getPlayerPlace 13 ≠ .nowhere && (t.sync .waitForReady 13).1) = true := by
    decide +kernel
  have htaken : (run apply ({} : Lobby) nearlyReadyCalls).mTableIds.isTaken 1000 = true := by
    decide +kernel
  have htable : (run apply ({} : Lobby) nearlyReadyCalls).mUsers.getPlayerTable 13 = 1000 := by
    decide +kernel
  have hparse : ((JsonReader.parseString
      (toTable 13 1000 (PlayerContext.sync .waitForReady)).arg).any fun json =>
        (json.findValue (str "cmd")).getString = str "Ack" &&
          ackFromString (json.findValue (str "step")).getString = .waitForReady) = true := by
    decide +kernel
  rw [dealtCalls, dealtCalls, run_append, run_append]
  generalize run apply ({} : Lobby) nearlyReadyCalls = l at htables htaken htable ⊢
  rw [Option.any_eq_true] at hparse
  obtain ⟨json, hjson, hread⟩ := hparse
  rw [Bool.and_eq_true, decide_eq_true_iff, decide_eq_true_iff] at hread
  have hdeal : ∀ dealer : Dealer, ∀ t ∈ l.mTables,
      t.executeRequest dealer 13 json = (t.sync .waitForReady 13).2.newDeal dealer := by
    intro dealer t ht
    have h := List.all_eq_true.mp htables t ht
    simp only [Bool.and_eq_true, decide_eq_true_iff] at h
    exact PlayingTable.executeRequest_lastReady dealer hread.1 hread.2 h.1.2 h.2
  have hdelivered : ∀ dealer : Dealer,
      l.apply (.deliver dealer (toTable 13 1000 (PlayerContext.sync .waitForReady))) =
        { l with
          mTables := updateTables 1000
            (fun t => ((t.sync .waitForReady 13).2.newDeal dealer).table) l.mTables } := by
    intro dealer
    have hdest : (toTable 13 1000 (PlayerContext.sync .waitForReady)).destUuid = 1000 := rfl
    have hsrc : (toTable 13 1000 (PlayerContext.sync .waitForReady)).srcUuid = 13 := rfl
    have hupdated : updateTables 1000 (fun t => (t.executeRequest dealer 13 json).table) l.mTables =
        updateTables 1000 (fun t => ((t.sync .waitForReady 13).2.newDeal dealer).table)
          l.mTables := by
      refine List.map_congr_left fun t ht => ?_
      dsimp only
      rw [hdeal dealer t ht]
    simp only [apply, deliver, hjson, hdest, hsrc, htaken, if_true, deliverToTable, htable,
      hupdated]
  have hother : l.apply (.deliver (plainDealer.withDog dog)
      (toTable 13 1000 (PlayerContext.sync .waitForReady))) =
        (l.apply (.deliver plainDealer
          (toTable 13 1000 (PlayerContext.sync .waitForReady)))).setDog 1000 dog := by
    rw [hdelivered, hdelivered]
    refine congrArg (fun tables => { l with mTables := tables }) ?_
    simp only [updateTables, List.map_map]
    refine List.map_congr_left fun t ht => ?_
    have h := List.all_eq_true.mp htables t ht
    simp only [Bool.and_eq_true, decide_eq_true_iff] at h
    have hdealt : ((t.sync .waitForReady 13).2.newDeal plainDealer).table.mId = 1000 := by
      rw [PlayingTable.newDeal_mId, PlayingTable.sync_mId, h.1.1]
    rw [Function.comp_apply, if_pos h.1.1, if_pos h.1.1, if_pos hdealt,
      PlayingTable.newDeal_withDog]
  rw [run_cons, run_cons, run_cons, run_cons, hother]
  exact removeUser_setDog _ 1000 dog 13

/-- The user who has no seat yet asks for the one that is free now. -/
def joinRequest : Request := PlayerContext.toLobby 14 (PlayerContext.buildJoinTable 1000)

/-- The table of the run is in its auction, and the next user is about to get a seat there. -/
theorem grantsSeat_dealtCalls :
    ∃ t ∈ (run apply ({} : Lobby) (dealtCalls plainDealer)).mTables, t.mId = 1000 ∧
      t.mEngine.mSequence.isAuction = true ∧
      (run apply ({} : Lobby) (dealtCalls plainDealer)).GrantsSeat joinRequest t ∧
      otherDog.toString ≠ t.mEngine.mCtx.mDog.toString := by
  have htables : ((run apply ({} : Lobby) (dealtCalls plainDealer)).mTables.any fun t =>
      t.mId = 1000 && t.mEngine.mSequence.isAuction && t.hasFreeSeat &&
        (List.range t.nbPlayers).all (fun i => (t.mPlayers i).uuid ≠ 14) &&
        otherDog.toString ≠ t.mEngine.mCtx.mDog.toString) = true := by
    decide +kernel
  have huser : (run apply ({} : Lobby) (dealtCalls plainDealer)).mUsers.getPlayerTable 14 =
      lobbyUid := by decide +kernel
  generalize run apply ({} : Lobby) (dealtCalls plainDealer) = l at htables huser ⊢
  obtain ⟨t, ht, h⟩ := List.any_eq_true.mp htables
  simp only [Bool.and_eq_true, decide_eq_true_iff, List.all_eq_true, List.mem_range] at h
  obtain ⟨⟨⟨⟨hid, hseq⟩, hfree⟩, hnone⟩, hdog⟩ := h
  have hasks := asks_buildJoinTable t.mId (by omega) 14
  rw [hid] at hasks
  refine ⟨t, ht, hid, hseq, ⟨?_, huser, hfree, hnone⟩, hdog⟩
  rw [hid]
  exact hasks

/-- Who gets a seat is not shown the dog by a message of that name. -/
theorem joinRequest_shows_nothing :
    ¬ ShowsDog ((run apply ({} : Lobby) (dealtCalls plainDealer)).deliver plainDealer
      joinRequest).out := by
  have hout : (((run apply ({} : Lobby) (dealtCalls plainDealer)).deliver plainDealer
      joinRequest).out.any fun reply =>
        (reply.data.getKey (str "cmd")).getString = str "ShowDog") = false := by
    decide +kernel
  rintro ⟨reply, hreply, hcmd⟩
  have hnone := List.any_eq_false.mp hout reply hreply
  rw [hcmd, decide_eq_true_iff] at hnone
  exact hnone rfl

theorem dog_told_iff_join :
    ∃ t ∈ (run apply ({} : Lobby) (dealtCalls plainDealer)).mTables,
      (((run apply ({} : Lobby) (dealtCalls plainDealer)).setDog t.mId otherDog).deliver
          plainDealer joinRequest).out ≠
        ((run apply ({} : Lobby) (dealtCalls plainDealer)).deliver plainDealer joinRequest).out := by
  obtain ⟨t, ht, -, hseq, hgrants, hdog⟩ := grantsSeat_dealtCalls
  refine ⟨t, ht, fun hsame => hdog ?_⟩
  exact (dog_told_iff false (dealtCalls plainDealer) ht hseq otherDog plainDealer joinRequest
    joinRequest_shows_nothing).mp hsame hgrants

/-- Two runs reach lobbies that differ in the dog of a table alone, and the user who joins there
is told different things. -/
theorem dog_told_to_newcomer :
    ¬ ∀ (calls calls' : List LobbyCall) (dealer : Dealer) (req : Request) (dog : Deck),
      ∀ t ∈ (run apply ({} : Lobby) calls).mTables, t.mEngine.mSequence.isAuction = true →
        run apply ({} : Lobby) calls' = (run apply ({} : Lobby) calls).setDog t.mId dog →
        ¬ ShowsDog ((run apply ({} : Lobby) calls).deliver dealer req).out →
        ((run apply ({} : Lobby) calls').deliver dealer req).out =
          ((run apply ({} : Lobby) calls).deliver dealer req).out := by
  intro h
  have hsame := h (dealtCalls plainDealer) (dealtCalls (plainDealer.withDog otherDog)) plainDealer
    joinRequest otherDog
  rw [run_dealtCalls_withDog] at hsame
  have hlisted := tables_listed false (dealtCalls plainDealer)
  have hreachable := tables_reachable false (dealtCalls plainDealer)
  have hshow := joinRequest_shows_nothing
  have hseat := grantsSeat_dealtCalls
  generalize run apply ({} : Lobby) (dealtCalls plainDealer) = l at hsame hlisted hreachable hshow hseat
  obtain ⟨t, ht, hid, hseq, hgrants, hdog⟩ := hseat
  obtain ⟨hreach, hnb⟩ := hreachable t ht
  have hiff := deliver_setDog_iff hlisted ht hreach.open (by omega) hseq otherDog plainDealer
    joinRequest hshow
  have htold := hsame t ht hseq (by rw [hid]) hshow
  rw [hid] at hiff
  exact hdog (hiff.mp htold hgrants)

end Lobby

end TarotClub
