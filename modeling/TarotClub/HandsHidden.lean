import TarotClub.AlikeDeals
import TarotClub.BotTable
import TarotClub.Unwinding

namespace TarotClub

open Machine

/-- The messages that show more than has been played: the whole context to who joins, the dog to
everybody, and the deal when it is over. -/
def revealing : List Str := [str "ReplyJoinTable", str "ShowDog", str "EndOfDeal", str "EndOfGame"]

/-- What a user is told among the replies, but for these messages. -/
def told (u : ℕ) (out : List Reply) : List JsonObject :=
  (messagesTo u out).filter fun obj => (obj.getKey (str "cmd")).getString ∉ revealing

theorem told_of_revealing (u : ℕ) (dest : List ℕ) {obj : JsonObject} {cmd : Str}
    (hobj : obj.getKey (str "cmd") = .string cmd) (hcmd : cmd ∈ revealing) :
    told u [⟨dest, obj⟩] = [] := by
  unfold told messagesTo
  rw [List.flatMap_singleton, List.filter_eq_nil_iff]
  intro m hm
  rw [(List.mem_replicate.mp hm).2, decide_eq_true_iff, not_not, hobj]
  exact hcmd

/-- Calls that differ at most in the dealer, and in the cards that a player puts aside. -/
inductive Call.Alike : Call → Call → Prop
  | addPlayer (uuid : ℕ) : Alike (.addPlayer uuid) (.addPlayer uuid)
  | removePlayer (uuid : ℕ) : Alike (.removePlayer uuid) (.removePlayer uuid)
  | request (dealer dealer' : Dealer) (srcUuid : ℕ) (json : JsonValue) :
    Alike (.executeRequest dealer srcUuid json) (.executeRequest dealer' srcUuid json)
  | discard (dealer dealer' : Dealer) (srcUuid : ℕ) {json json' : JsonValue}
    (h : (json.findValue (str "cmd")).getString = str "Discard")
    (h' : (json'.findValue (str "cmd")).getString = str "Discard") :
    Alike (.executeRequest dealer srcUuid json) (.executeRequest dealer' srcUuid json')

namespace PlayingTable

/-- The same people sit at the two tables and play the same game; the points may differ. -/
structure SameHall (t t' : PlayingTable) : Prop where
  mPlayers : t'.mPlayers = t.mPlayers
  mAdmin : t'.mAdmin = t.mAdmin
  mId : t'.mId = t.mId
  mGame : t'.mGame = t.mGame
  mAdminMode : t'.mAdminMode = t.mAdminMode
  dealCounter : t'.mScore.dealCounter = t.mScore.dealCounter
  mNumberOfTurns : t'.mScore.mNumberOfTurns = t.mScore.mNumberOfTurns

/-- The two responses tell a user the same. -/
structure SameTold (u : ℕ) (r r' : Response) : Prop where
  hall : r.table.SameHall r'.table
  told : told u r'.out = told u r.out

/-- The same messages besides the same hall. -/
theorem SameTold.of_out {u : ℕ} {t t' : PlayingTable} (h : SameTold u { table := t } { table := t' })
    {out out' : List Reply} (hout : out' = out) :
    SameTold u { table := t, out := out } { table := t', out := out' } :=
  ⟨h.hall, by rw [hout]⟩

variable {t t' : PlayingTable} {u n : ℕ} {plays plays' : List (Card × Place)}

section
variable (h : t.SameHall t')
include h

theorem SameHall.getPlayerPlace (hnb : t'.nbPlayers = t.nbPlayers) (uuid : ℕ) :
    t'.getPlayerPlace uuid = t.getPlayerPlace uuid := by
  simp only [PlayingTable.getPlayerPlace, hnb, h.mPlayers]

theorem SameHall.sendToAllPlayers (hnb : t'.nbPlayers = t.nbPlayers) (obj : JsonObject) :
    t'.sendToAllPlayers obj = t.sendToAllPlayers obj := by
  simp only [PlayingTable.sendToAllPlayers, hnb, h.mPlayers]

/-- A message that everybody gets. -/
theorem SameHall.toAll (hnb : t'.nbPlayers = t.nbPlayers) {obj obj' : JsonObject}
    (hobj : obj' = obj) : SameTold u { table := t, out := t.sendToAllPlayers obj }
      { table := t', out := t'.sendToAllPlayers obj' } := by
  refine ⟨h, ?_⟩
  rw [hobj, h.sendToAllPlayers hnb]

/-- A message that shows more. -/
theorem SameHall.revealed {obj obj' : JsonObject} (cmd : Str)
    (hobj : obj.getKey (str "cmd") = .string cmd) (hobj' : obj'.getKey (str "cmd") = .string cmd)
    (hcmd : cmd ∈ revealing) :
    SameTold u { table := t, out := t.sendToAllPlayers obj }
      { table := t', out := t'.sendToAllPlayers obj' } := by
  refine ⟨h, ?_⟩
  exact (told_of_revealing u _ hobj' hcmd).trans (told_of_revealing u _ hobj hcmd).symm

theorem SameHall.quiet : SameTold u { table := t } { table := t' } := ⟨h, rfl⟩

theorem SameHall.move (e e' : Engine) : ({ t with mEngine := e } : PlayingTable).SameHall
    { t' with mEngine := e' } := { h with }

theorem SameHall.resetAck (hnb : t'.nbPlayers = t.nbPlayers) : t.resetAck.SameHall t'.resetAck :=
  { h with mPlayers := by simp only [PlayingTable.resetAck, hnb, h.mPlayers] }

theorem SameHall.currentDeal : t'.currentDeal = t.currentDeal := by
  simp only [PlayingTable.currentDeal, h.mGame, Score.getCurrentCounter, h.dealCounter]

theorem SameHall.newGame (hnb : t'.nbPlayers = t.nbPlayers) : SameTold u t.newGame t'.newGame := by
  have hnew : ({ t with
        mScore := Score.newGame t.mGame.deals.length
        mEngine := t.mEngine.newGame } : PlayingTable).SameHall
      { t' with
        mScore := Score.newGame t'.mGame.deals.length
        mEngine := t'.mEngine.newGame } :=
    { h with
      dealCounter := rfl
      mNumberOfTurns := by rw [h.mGame] }
  have hreset := hnew.resetAck hnb
  refine hreset.toAll hnb ?_
  change JsonObject.ofList [(str "cmd", .string (str "NewGame")),
    (str "mode", .string t'.mGame.mode.toString)] = _
  rw [h.mGame]
  rfl

theorem SameHall.rollover : t.rollover.SameHall t'.rollover := by
  have hover : (t'.mScore.getCurrentCounter ≥ t'.mGame.deals.length) =
      (t.mScore.getCurrentCounter ≥ t.mGame.deals.length) := by
    rw [h.mGame, Score.getCurrentCounter, Score.getCurrentCounter, h.dealCounter]
  simp only [PlayingTable.rollover, hover]
  split_ifs
  · exact
      { h with
        dealCounter := rfl
        mNumberOfTurns := by rw [h.mGame] }
  · exact h

theorem SameHall.startDeal (he : t.mEngine.Alike t'.mEngine) :
    SameTold u t.startDeal t'.startDeal := by
  have hmove := h.move t.mEngine.startDeal.2 t'.mEngine.startDeal.2
  refine hmove.toAll he.mNbPlayers ?_
  have hmessage : ∀ {deal deal' : Distribution} {first first' taker taker' : Place}
      {contract contract' : Contract} {slam slam' : Bool}, deal' = deal → first' = first →
      taker' = taker → contract' = contract → slam' = slam →
      deal'.toJson (JsonObject.ofList [(str "cmd", .string (str "StartDeal")),
        (str "first_player", .string first'.toString), (str "taker", .string taker'.toString),
        (str "contract", .string contract'.toString), (str "slam", .boolean slam')]) =
      deal.toJson (JsonObject.ofList [(str "cmd", .string (str "StartDeal")),
        (str "first_player", .string first.toString), (str "taker", .string taker.toString),
        (str "contract", .string contract.toString), (str "slam", .boolean slam)]) := by
    rintro _ _ _ _ _ _ _ _ _ _ rfl rfl rfl rfl rfl
    rfl
  exact hmessage hmove.currentDeal he.startDeal_fst he.taker he.contract he.slam

theorem SameHall.sendNextBidSequence (he : t.mEngine.Alike t'.mEngine) :
    SameTold u t.sendNextBidSequence t'.sendNextBidSequence := by
  have hnb : t'.nbPlayers = t.nbPlayers := he.mNbPlayers
  have hseq' := he.mSequence
  have hturn := he.turn
  unfold PlayingTable.sendNextBidSequence
  cases hseq : t.mEngine.mSequence <;> rw [hseq] at hseq' hturn <;> simp only [hseq']
  case waitForBid =>
    refine h.toAll hnb ?_
    rw [hturn rfl, he.contract]
  case waitForKingCall | waitForAllPassed => exact h.toAll hnb rfl
  case waitForStartDeal => exact h.startDeal he
  case waitForShowDog => exact h.revealed (str "ShowDog") rfl rfl (by decide)
  all_goals exact h.quiet

theorem SameHall.gameSequence (he : t.mEngine.Alike t'.mEngine)
    (hon : t.mEngine.playOn.Alike t'.mEngine.playOn) :
    SameTold u t.gameSequence t'.gameSequence := by
  have hlast := he.isLastTrick
  have hnb : t'.mEngine.gameSequence.mCtx.mNbPlayers = t.mEngine.gameSequence.mCtx.mNbPlayers := by
    rw [Engine.gameSequence_mNbPlayers, Engine.gameSequence_mNbPlayers, he.mNbPlayers]
  unfold Engine.playOn at hon
  unfold PlayingTable.gameSequence
  dsimp only
  rw [hlast] at hon ⊢
  by_cases hdone : t.mEngine.gameSequence.isLastTrick = true
  · rw [if_pos hdone, if_pos hdone]
    exact (h.move _ _).revealed (str "EndOfDeal") rfl rfl (by decide)
  · rw [if_neg hdone, if_neg hdone] at hon ⊢
    have hseq' := hon.mSequence
    have hturn := hon.turn
    rcases Engine.gameSequence_mSequence t.mEngine with hseq | hseq | hseq
    · rw [hseq] at hseq' hturn
      simp only [hseq, hseq', hturn rfl]
      exact (h.move _ _).toAll hnb rfl
    · rw [hseq] at hseq' hturn
      simp only [hseq, hseq']
      refine (h.move _ _).quiet.of_out ?_
      simp only [getPlayerUuid, h.mPlayers, hturn rfl]
    · rw [hseq] at hseq' hturn
      simp only [hseq, hseq', hturn rfl]
      exact (h.move _ _).toAll hnb rfl

/-- The cards that a user is dealt are the same. -/
theorem SameHall.newDeal (he : t.mEngine.Alike t'.mEngine) (hn : t.nbPlayers ≤ 5)
    {dealer dealer' : Dealer}
    (hmine : ∀ i < 5, (t.mPlayers i).uuid = u →
      ((t'.nextDeal dealer').mPlayers i).mDeck = ((t.nextDeal dealer).mPlayers i).mDeck) :
    SameTold u (t.newDeal dealer) (t'.newDeal dealer') := by
  have hroll := h.rollover
  refine ⟨{ hroll with }, ?_⟩
  have hnb : ∀ (t : PlayingTable) (dealer : Dealer),
      (t.newDeal dealer).table.nbPlayers = t.nbPlayers := by
    intro t dealer
    rw [nbPlayers, newDeal_mEngine, Engine.newDeal_mNbPlayers]
    rfl
  have hplayers : ∀ (t : PlayingTable) (dealer : Dealer),
      (t.newDeal dealer).table.mPlayers = t.mPlayers := fun t _ => rollover_mPlayers t
  have hdeck : ∀ (t : PlayingTable) (dealer : Dealer), ∀ i < t.nbPlayers,
      ((t.newDeal dealer).table.mEngine.mPlayers i).mDeck =
        ((t.nextDeal dealer).mPlayers i).mDeck := by
    intro t dealer i hi
    rw [newDeal_mEngine, Engine.newDeal_mPlayers t.mEngine _ hi]
  have hout : ∀ (t : PlayingTable) (dealer : Dealer), (t.newDeal dealer).out =
      (List.range (t.newDeal dealer).table.nbPlayers).map fun i =>
        ⟨[(t.newDeal dealer).table.getPlayerUuid (.assign i)], JsonObject.ofList
          [(str "cmd", .string (str "NewDeal")), (str "cards", .string
            ((t.newDeal dealer).table.mEngine.getDeck (.assign i)).toString)]⟩ := fun _ _ => rfl
  unfold told messagesTo
  congr 1
  rw [hout, hout, hnb, hnb, show t'.nbPlayers = t.nbPlayers from he.mNbPlayers, List.flatMap_map,
    List.flatMap_map]
  refine List.flatMap_congr fun i hi => ?_
  have hi' : i < t.nbPlayers := List.mem_range.mp hi
  have hvalue : (Place.assign i).value = i := Place.value_assign (by omega)
  simp only [getPlayerUuid, hplayers, hvalue, h.mPlayers]
  by_cases hu : (t.mPlayers i).uuid = u
  · have hcards : ((t'.newDeal dealer').table.mEngine.getDeck (.assign i)).toString =
        ((t.newDeal dealer).table.mEngine.getDeck (.assign i)).toString := by
      have hlt : (Place.assign i).value < Place.nowhere.value := by
        rw [hvalue]
        exact lt_of_lt_of_le hi' hn
      have hi'' : i < t'.nbPlayers := by
        rw [show t'.nbPlayers = t.nbPlayers from he.mNbPlayers]
        exact hi'
      rw [Engine.getDeck, Engine.getDeck, if_pos hlt, if_pos hlt, hvalue, Deck.toString,
        Deck.toString, hdeck t' dealer' i hi'', hdeck t dealer i hi', hmine i (by omega) hu]
    rw [hcards]
  · rw [List.count_singleton, if_neg (mt beq_iff_eq.mp hu)]
    rfl

theorem SameHall.noteAck (he : t.mEngine.Alike t'.mEngine) (seq : Sequence) (uuid : ℕ) :
    (t.noteAck seq uuid).SameHall (t'.noteAck seq uuid) := by
  have hnb : t'.nbPlayers = t.nbPlayers := he.mNbPlayers
  exact { h with mPlayers := by simp only [PlayingTable.noteAck, hnb, h.mPlayers, he.mSequence] }

theorem SameHall.sync (he : t.mEngine.Alike t'.mEngine) (seq : Sequence) (uuid : ℕ) :
    (t'.sync seq uuid).1 = (t.sync seq uuid).1 ∧
      (t.sync seq uuid).2.SameHall (t'.sync seq uuid).2 := by
  have hnote := h.noteAck he seq uuid
  have hnb : (t'.noteAck seq uuid).nbPlayers = (t.noteAck seq uuid).nbPlayers := he.mNbPlayers
  rw [PlayingTable.sync, PlayingTable.sync, ackFromAllPlayers, ackFromAllPlayers, hnb,
    hnote.mPlayers]
  split_ifs
  · exact ⟨rfl, hnote.resetAck hnb⟩
  · exact ⟨rfl, hnote⟩

theorem SameHall.endOfDeal (he : t.mEngine.Alike t'.mEngine) (hn : t.nbPlayers ≤ 5)
    {dealer dealer' : Dealer}
    (hm : (t.syncedAction dealer .waitForEndOfDeal).Matches (fun i => (t.mPlayers i).uuid = u)
      (t'.syncedAction dealer' .waitForEndOfDeal)) :
    SameTold u (t.endOfDeal dealer) (t'.endOfDeal dealer') := by
  have hscored : ∀ (t : PlayingTable) (points : Points) (bid : Bid) (n : ℕ),
      (t.mScore.addPoints points bid n).2.dealCounter = (t.mScore.dealCounter + 1) % 2 ^ 32 ∧
      (t.mScore.addPoints points bid n).2.mNumberOfTurns = t.mScore.mNumberOfTurns ∧
      (t.mScore.addPoints points bid n).1 =
        decide ((t.mScore.dealCounter + 1) % 2 ^ 32 < t.mScore.mNumberOfTurns) :=
    fun _ _ _ _ => ⟨rfl, rfl, rfl⟩
  obtain ⟨hcounter, hturns, hgo⟩ := hscored t t.mEngine.getCurrentGamePoints t.mEngine.mCtx.mBid
    t.nbPlayers
  obtain ⟨hcounter', hturns', hgo'⟩ := hscored t' t'.mEngine.getCurrentGamePoints
    t'.mEngine.mCtx.mBid t'.nbPlayers
  rw [h.dealCounter, h.mNumberOfTurns] at hgo'
  simp only [syncedAction] at hm
  unfold PlayingTable.endOfDeal
  dsimp only
  generalize t.mScore.addPoints t.mEngine.getCurrentGamePoints t.mEngine.mCtx.mBid
    t.nbPlayers = scored at hcounter hturns hgo hm ⊢
  generalize t'.mScore.addPoints t'.mEngine.getCurrentGamePoints t'.mEngine.mCtx.mBid
    t'.nbPlayers = scored' at hcounter' hturns' hgo' hm ⊢
  have hcount : ({ t with mScore := scored.2 } : PlayingTable).SameHall
      { t' with mScore := scored'.2 } :=
    { h with
      dealCounter := by rw [hcounter, hcounter', h.dealCounter]
      mNumberOfTurns := by rw [hturns, hturns', h.mNumberOfTurns] }
  rw [hgo'.trans hgo.symm] at hm ⊢
  split_ifs at hm ⊢ with hnext
  · exact hcount.newDeal he hn hm.2
  · have hmove : ({ t with
          mScore := scored.2
          mEngine := t.mEngine.newGame } : PlayingTable).SameHall
        { t' with
          mScore := scored'.2
          mEngine := t'.mEngine.newGame } := { hcount with }
    exact hmove.revealed (str "EndOfGame") rfl rfl (by decide)

theorem SameHall.allSynced (he : t.mEngine.Alike t'.mEngine) (hn : t.nbPlayers ≤ 5)
    {dealer dealer' : Dealer} {seq : Sequence} (hseq : t.mEngine.mSequence = seq)
    (hon : t.mEngine.Enabled .gameSequence → t.mEngine.playOn.Alike t'.mEngine.playOn)
    (hm : (t.syncedAction dealer seq).Matches (fun i => (t.mPlayers i).uuid = u)
      (t'.syncedAction dealer' seq)) :
    SameTold u (t.allSynced dealer seq) (t'.allSynced dealer' seq) := by
  have hnb : t'.nbPlayers = t.nbPlayers := he.mNbPlayers
  cases seq with
  | waitForPlayers =>
    simp only [PlayingTable.allSynced, h.mAdminMode]
    split_ifs
    · exact h.quiet
    · exact h.newGame hnb
  | waitForReady | waitForAllPassed => exact h.newDeal he hn hm.2
  | waitForCards | waitForShowBid =>
    refine (h.move _ _).sendNextBidSequence (he.bidSequence ?_)
    rw [hseq]
    rfl
  | waitForShowKingCall =>
    refine (h.move _ _).sendNextBidSequence (he.manageAfterBid ?_)
    rw [hseq]
    rfl
  | waitForShowDog =>
    refine (h.move _ _).quiet.of_out ?_
    simp only [getPlayerUuid, h.mPlayers, Engine.discardSequence, he.taker]
  | waitForStartDeal => exact h.gameSequence he (hon (.inl hseq))
  | waitForShowHandle => exact h.gameSequence he (hon (.inr (.inr (.inl hseq))))
  | waitForShowCard => exact h.gameSequence he (hon (.inr (.inr (.inr (.inl hseq)))))
  | waitForEndOfTrick => exact h.gameSequence he (hon (.inr (.inr (.inr (.inr hseq)))))
  | waitForEndOfDeal =>
    have hend := h.endOfDeal he hn hm
    exact ⟨hend.hall, hend.told⟩
  | _ => exact h.quiet

end

/-- Two tables in the same step of two deals that differ in the cards. -/
structure Abreast (n : ℕ) (t t' : PlayingTable) : Prop where
  hall : t.SameHall t'
  engine : t.mEngine.Alike t'.mEngine
  lead : t.mEngine.SameLead t'.mEngine
  king : t.mEngine.KingAtFive
  inDeal : ∃ plays, t.InDeal n plays
  inDeal' : ∃ plays, t'.InDeal n plays

section
variable (h : Abreast n t t') (hn : n = 3 ∨ n = 4 ∨ n = 5)
include h

theorem Abreast.getPlayerPlace (uuid : ℕ) : t'.getPlayerPlace uuid = t.getPlayerPlace uuid :=
  h.hall.getPlayerPlace h.engine.mNbPlayers uuid

/-- Where the engines move on, they move on together. -/
theorem Abreast.act (hn : n = 3 ∨ n = 4 ∨ n = 5) {a a' : Engine.Action} {mine : ℕ → Prop}
    (ha : t.mEngine.Enabled a) (ha' : t'.mEngine.Enabled a') (hm : a.Matches mine a') :
    (t.mEngine.act a).Alike (t'.mEngine.act a') ∧ (t.mEngine.act a).SameLead (t'.mEngine.act a') := by
  obtain ⟨plays, hdeal⟩ := h.inDeal
  obtain ⟨plays', hdeal'⟩ := h.inDeal'
  exact h.engine.act h.lead hdeal.phase hdeal'.phase hn ha ha' hm

/-- The step of the game, for a table in which the engine is due. -/
theorem Abreast.playOn (hn : n = 3 ∨ n = 4 ∨ n = 5) (ha : t.mEngine.Enabled .gameSequence) :
    t.mEngine.playOn.Alike t'.mEngine.playOn := by
  have ha' : t'.mEngine.Enabled .gameSequence := by
    simp only [Engine.Enabled, h.engine.mSequence]
    exact ha
  have hm : Engine.Action.Matches (fun _ => False) .gameSequence .gameSequence := trivial
  exact (h.act hn ha ha' hm).1

theorem Abreast.executeAck (hn : n = 3 ∨ n = 4 ∨ n = 5) (dealer dealer' : Dealer) (srcUuid : ℕ)
    (json : JsonValue)
    (hm : (t.ackAction dealer srcUuid json).Matches (fun i => (t.mPlayers i).uuid = u)
      (t'.ackAction dealer' srcUuid json)) :
    SameTold u (t.executeAck dealer srcUuid json) (t'.executeAck dealer' srcUuid json) := by
  obtain ⟨plays, hdeal⟩ := h.inDeal
  have hplace := h.getPlayerPlace srcUuid
  unfold ackAction at hm
  unfold PlayingTable.executeAck
  dsimp only at hm ⊢
  rw [hplace] at hm ⊢
  generalize ackFromString (json.findValue (str "step")).getString = seq at hm ⊢
  obtain ⟨hfst, hhall⟩ := h.hall.sync h.engine seq srcUuid
  rw [hfst] at hm ⊢
  by_cases hp : t.getPlayerPlace srcUuid ≠ .nowhere
  swap
  · rw [if_neg hp, if_neg hp]
    exact h.hall.quiet
  rw [if_pos hp, if_pos hp]
  by_cases hbad : seq = .badStep
  · rw [if_pos hbad, if_pos hbad]
    exact h.hall.quiet
  rw [if_neg hbad, if_neg hbad]
  by_cases hsynced : (t.sync seq srcUuid).1 = true
  · rw [if_pos hsynced, if_pos hsynced]
    rw [if_pos ⟨hp, hbad, hsynced⟩, if_pos ⟨hp, hbad, hsynced⟩] at hm
    have h0 : 0 < t.nbPlayers := Nat.zero_lt_of_lt (getPlayerPlace_of_ne hdeal.seats hp).1
    have hseq := hdeal.mSequence_eq h0 hsynced
    have huuid : ∀ i, ((t.sync seq srcUuid).2.mPlayers i).uuid = (t.mPlayers i).uuid := by
      intro i
      rw [sync_of_fst hsynced]
      exact resetAck_uuid t i
    have he : (t.sync seq srcUuid).2.mEngine.Alike (t'.sync seq srcUuid).2.mEngine := by
      rw [sync_mEngine, sync_mEngine]
      exact h.engine
    refine hhall.allSynced he ?_ ?_ ?_ ?_
    · rw [nbPlayers, sync_mEngine]
      exact hdeal.seats
    · rw [sync_mEngine]
      exact hseq
    · rw [sync_mEngine, sync_mEngine]
      exact h.playOn hn
    · simp only [huuid]
      exact hm
  · rw [if_neg hsynced, if_neg hsynced]
    exact hhall.quiet

theorem Abreast.executeNewGame (srcUuid : ℕ) (json : JsonValue) :
    SameTold u (t.executeNewGame srcUuid json) (t'.executeNewGame srcUuid json) := by
  have hadmin : (srcUuid = t'.mAdmin) = (srcUuid = t.mAdmin) := by rw [h.hall.mAdmin]
  simp only [PlayingTable.executeNewGame, hadmin]
  split_ifs
  · exact SameHall.newGame { h.hall with mGame := rfl } h.engine.mNbPlayers
  · exact h.hall.quiet

theorem Abreast.executeReplyBid (srcUuid : ℕ) (json : JsonValue) :
    SameTold u (t.executeReplyBid srcUuid json) (t'.executeReplyBid srcUuid json) := by
  unfold PlayingTable.executeReplyBid
  dsimp only
  rw [h.getPlayerPlace srcUuid, h.engine.mSequence]
  by_cases hseq : t.mEngine.mSequence = .waitForBid
  swap
  · rw [if_neg fun hall => hseq hall.2.2, if_neg fun hall => hseq hall.2.2]
    exact h.hall.quiet
  have hrun : t.mEngine.mSequence.isRunning = true := by
    rw [hseq]
    rfl
  rw [h.engine.turn hrun]
  generalize Contract.ofString (json.findValue (str "contract")).getString = c
  generalize (json.findValue (str "slam")).getBool = slam
  obtain ⟨hcont, hbid⟩ := h.engine.setBid hrun c slam (t.getPlayerPlace srcUuid)
  split_ifs
  · rw [hcont]
    refine (h.hall.move _ _).toAll hbid.mNbPlayers ?_
    rw [hbid.taker, hbid.contract, hbid.slam]
  · exact h.hall.quiet

theorem Abreast.executeDiscard (srcUuid : ℕ) (json json' : JsonValue)
    (hm : (t.discardAction srcUuid json).Matches (fun i => (t.mPlayers i).uuid = u)
      (t'.discardAction srcUuid json')) :
    SameTold u (t.executeDiscard srcUuid json) (t'.executeDiscard srcUuid json') := by
  unfold discardAction at hm
  unfold PlayingTable.executeDiscard
  dsimp only at hm ⊢
  rw [h.getPlayerPlace srcUuid, h.engine.mSequence, h.engine.taker] at hm ⊢
  by_cases hturn : t.mEngine.mSequence = .waitForDiscard ∧
      t.mEngine.mCtx.mBid.taker = t.getPlayerPlace srcUuid
  swap
  · rw [if_neg hturn, if_neg hturn]
    exact h.hall.quiet
  rw [if_pos hturn, if_pos hturn]
  generalize Deck.ofString (json.findValue (str "discard")).getString = cards at hm ⊢
  generalize Deck.ofString (json'.findValue (str "discard")).getString = cards' at hm ⊢
  have hset : ∀ (e : Engine) (cards : Deck), (e.setDiscard cards).1 =
      e.takerDeck.testDiscard cards e.mCtx.mDog e.mCtx.mNbPlayers := by
    intro e cards
    unfold Engine.setDiscard
    split_ifs with htest
    · exact htest.symm
    · exact (Bool.not_eq_true _ ▸ htest).symm
  rw [hset, hset]
  by_cases htest : t.mEngine.takerDeck.testDiscard cards t.mEngine.mCtx.mDog
      t.mEngine.mCtx.mNbPlayers = true
  · rw [if_pos ⟨hturn.1, hturn.2, htest⟩] at hm
    split_ifs at hm with hall
    · have htest' : t'.mEngine.takerDeck.testDiscard cards' t'.mEngine.mCtx.mDog
          t'.mEngine.mCtx.mNbPlayers = true := hall.2.2
      rw [if_pos htest, if_pos htest']
      refine (h.hall.move _ _).startDeal (h.engine.setDiscard ⟨hturn.1, htest⟩ ⟨?_, htest'⟩)
      rw [h.engine.mSequence]
      exact hturn.1
    · exact hm.elim
  · rw [if_neg fun hall => htest hall.2.2] at hm
    split_ifs at hm with hall
    · exact hm.elim
    · have htest' : ¬ t'.mEngine.takerDeck.testDiscard cards' t'.mEngine.mCtx.mDog
          t'.mEngine.mCtx.mNbPlayers = true := fun hcan => hall ⟨hturn.1, hturn.2, hcan⟩
      rw [if_neg htest, if_neg htest']
      exact (h.hall.move _ _).quiet

theorem Abreast.executeReplyKingCall (srcUuid : ℕ) (json : JsonValue)
    (hm : (t.kingCallAction srcUuid json).Matches (fun i => (t.mPlayers i).uuid = u)
      (t'.kingCallAction srcUuid json)) :
    SameTold u (t.executeReplyKingCall srcUuid json) (t'.executeReplyKingCall srcUuid json) := by
  obtain ⟨plays, hdeal⟩ := h.inDeal
  obtain ⟨plays', hdeal'⟩ := h.inDeal'
  unfold kingCallAction at hm
  unfold PlayingTable.executeReplyKingCall
  dsimp only at hm ⊢
  rw [h.getPlayerPlace srcUuid, h.engine.mSequence, h.engine.taker] at hm ⊢
  by_cases hturn : t.mEngine.mSequence = .waitForKingCall ∧
      t.mEngine.mCtx.mBid.taker = t.getPlayerPlace srcUuid
  swap
  · rw [if_neg hturn, if_neg hturn]
    exact h.hall.quiet
  rw [if_pos hturn, if_pos hturn]
  generalize Card.ofString (json.findValue (str "card")).getString = c at hm ⊢
  have hrefused : ∀ e : Engine,
      ¬ TarotContext.checkKingCall c (e.takerDeck.analyzeSuits {}) = true →
        (e.setKingCalled c).1 = false := by
    intro e hcheck
    rw [Engine.setKingCalled, if_neg hcheck]
  by_cases hcheck : TarotContext.checkKingCall c (t.mEngine.takerDeck.analyzeSuits {}) = true
  · rw [if_pos ⟨hturn.1, hturn.2, hcheck⟩] at hm
    split_ifs at hm with hall
    swap
    · exact hm.elim
    have hseq' : t'.mEngine.mSequence = .waitForKingCall := h.engine.mSequence.trans hturn.1
    have hfive : n = 5 := hdeal.players.symm.trans (h.king hturn.1)
    subst hfive
    have hbefore : t.mEngine.BeforeDiscard 5 := by
      have hphase := hdeal.phase
      simp only [Engine.Phase, hturn.1] at hphase
      exact hphase.1
    have hbefore' : t'.mEngine.BeforeDiscard 5 := by
      have hphase := hdeal'.phase
      simp only [Engine.Phase, hseq'] at hphase
      exact hphase.1
    have htaker : t.mEngine.mCtx.mBid.taker.value < 5 := by
      have hlt := hdeal.taken.taker_lt (by rw [hturn.1]; rfl)
      rw [hbefore.players] at hlt
      exact hlt
    have hcalled : (t'.mEngine.setKingCalled c).1 = (t.mEngine.setKingCalled c).1 := by
      rw [hbefore.setKingCalled_fst htaker ⟨hturn.1, hcheck⟩]
      exact hbefore'.setKingCalled_fst (h.engine.taker ▸ htaker) ⟨hseq', hall.2.2⟩
    have hcall := h.engine.setKingCalled (c := c) ⟨hturn.1, hcheck⟩ ⟨hseq', hall.2.2⟩
    rw [hcalled]
    split_ifs
    · exact ((h.hall.move _ _).resetAck hcall.mNbPlayers).toAll hcall.mNbPlayers rfl
    · exact (h.hall.move _ _).quiet
  · rw [if_neg fun hall => hcheck hall.2.2] at hm
    split_ifs at hm with hall
    · exact hm.elim
    · have hcheck' : ¬ TarotContext.checkKingCall c (t'.mEngine.takerDeck.analyzeSuits {}) = true :=
        fun hcan => hall ⟨hturn.1, hturn.2, hcan⟩
      rw [hrefused _ hcheck, hrefused _ hcheck']
      exact (h.hall.move _ _).quiet

theorem Abreast.executeHandle (hn : n = 3 ∨ n = 4 ∨ n = 5) (srcUuid : ℕ) (json : JsonValue)
    (hm : (t.handleAction srcUuid json).Matches (fun i => (t.mPlayers i).uuid = u)
      (t'.handleAction srcUuid json)) :
    SameTold u (t.executeHandle srcUuid json) (t'.executeHandle srcUuid json) := by
  unfold handleAction at hm
  unfold PlayingTable.executeHandle
  dsimp only at hm ⊢
  rw [h.getPlayerPlace srcUuid, h.engine.mSequence] at hm ⊢
  by_cases hseq : t.mEngine.mSequence = .waitForHandle
  swap
  · rw [if_neg fun hall => hseq hall.1, if_neg fun hall => hseq hall.1]
    exact h.hall.quiet
  have hturn' : t'.mEngine.mCurrentPlayer = t.mEngine.mCurrentPlayer := h.engine.turn (by
    rw [hseq]
    rfl)
  rw [hturn'] at hm ⊢
  by_cases hturn : t.mEngine.mSequence = .waitForHandle ∧
      t.mEngine.mCurrentPlayer = t.getPlayerPlace srcUuid
  swap
  · rw [if_neg hturn, if_neg hturn]
    exact h.hall.quiet
  rw [if_pos hturn, if_pos hturn] at hm ⊢
  generalize Deck.ofString (json.findValue (str "handle")).getString = cards at hm ⊢
  have hseq' : t'.mEngine.mSequence = .waitForHandle := h.engine.mSequence.trans hseq
  by_cases htest : (t.mEngine.mPlayers (t.getPlayerPlace srcUuid).value).testHandle cards = true
  · rw [if_pos htest] at hm
    split_ifs at hm with htest'
    swap
    · exact hm.elim
    have ha : t.mEngine.Enabled (.handle cards (t.getPlayerPlace srcUuid)) :=
      ⟨hseq, hturn.2.symm, htest⟩
    have ha' : t'.mEngine.Enabled (.handle cards (t.getPlayerPlace srcUuid)) :=
      ⟨hseq', (hturn'.trans hturn.2).symm, htest'⟩
    have hshow := h.engine.setHandle ha ha' h.lead
    have hset : ∀ e : Engine,
        (e.mPlayers (t.getPlayerPlace srcUuid).value).testHandle cards = true →
          (e.setHandle cards (t.getPlayerPlace srcUuid)).1 = true := by
      intro e hcan
      rw [Engine.setHandle, if_pos hcan]
    rw [if_pos (hset _ htest), if_pos (hset _ htest')]
    exact (h.hall.move _ _).toAll hshow.1.mNbPlayers rfl
  · rw [if_neg htest] at hm
    split_ifs at hm with htest'
    · exact hm.elim
    have hset : ∀ e : Engine,
        ¬ (e.mPlayers (t.getPlayerPlace srcUuid).value).testHandle cards = true →
          e.setHandle cards (t.getPlayerPlace srcUuid) = (false, e) := by
      intro e hcan
      rw [Engine.setHandle, if_neg hcan]
    rw [hset _ htest, hset _ htest']
    exact h.hall.gameSequence h.engine (h.playOn hn (.inr (.inl hseq)))

theorem Abreast.executeCard (srcUuid : ℕ) (json : JsonValue)
    (hm : (t.cardAction srcUuid json).Matches (fun i => (t.mPlayers i).uuid = u)
      (t'.cardAction srcUuid json)) :
    SameTold u (t.executeCard srcUuid json) (t'.executeCard srcUuid json) := by
  unfold cardAction at hm
  unfold PlayingTable.executeCard
  dsimp only at hm ⊢
  rw [h.getPlayerPlace srcUuid, h.engine.mSequence, h.engine.currentTrick] at hm
  rw [h.getPlayerPlace srcUuid, h.engine.mSequence]
  by_cases hseq : t.mEngine.mSequence = .waitForPlayedCard
  swap
  · rw [if_neg fun hall => hseq hall.2.1, if_neg fun hall => hseq hall.2.1]
    exact h.hall.quiet
  have hturn' : t'.mEngine.mCurrentPlayer = t.mEngine.mCurrentPlayer := h.engine.turn (by
    rw [hseq]
    rfl)
  rw [hturn'] at hm ⊢
  generalize Card.ofString (json.findValue (str "card")).getString = c at hm ⊢
  by_cases hturn : c.isValid = true ∧ t.mEngine.mSequence = .waitForPlayedCard ∧
      t.mEngine.mCurrentPlayer = t.getPlayerPlace srcUuid
  swap
  · rw [if_neg hturn, if_neg hturn]
    exact h.hall.quiet
  rw [if_pos hturn, if_pos hturn]
  have hseq' : t'.mEngine.mSequence = .waitForPlayedCard := h.engine.mSequence.trans hseq
  have hset : ∀ e : Engine, (e.setCard c (t.getPlayerPlace srcUuid)).1 =
      (e.mPlayers (t.getPlayerPlace srcUuid).value).canPlayCard c e.currentTrick := by
    intro e
    unfold Engine.setCard
    split_ifs with hplay
    · exact hplay.symm
    · exact (Bool.not_eq_true _ ▸ hplay).symm
  rw [hset, hset, h.engine.currentTrick]
  by_cases hplay : (t.mEngine.mPlayers (t.getPlayerPlace srcUuid).value).canPlayCard c
      t.mEngine.currentTrick = true
  · rw [if_pos ⟨hturn.1, hturn.2.1, hturn.2.2, hplay⟩] at hm
    split_ifs at hm with hall
    swap
    · exact hm.elim
    rw [if_pos hplay, if_pos hall.2.2.2]
    have hplay' : (t'.mEngine.mPlayers (t.getPlayerPlace srcUuid).value).canPlayCard c
        t'.mEngine.currentTrick = true := by
      rw [h.engine.currentTrick]
      exact hall.2.2.2
    have hmove := h.engine.setCard (c := c) (p := t.getPlayerPlace srcUuid)
      ⟨hseq, hturn.2.2.symm, hturn.1, hplay⟩
      ⟨hseq', (hturn'.trans hturn.2.2).symm, hturn.1, hplay'⟩ h.lead
    exact (h.hall.move _ _).toAll hmove.1.mNbPlayers rfl
  · rw [if_neg fun hall => hplay hall.2.2.2] at hm
    split_ifs at hm with hall
    · exact hm.elim
    · rw [if_neg hplay, if_neg fun hcan => hall ⟨hturn.1, hturn.2.1, hturn.2.2, hcan⟩]
      exact (h.hall.move _ _).quiet

/-- The same request is answered alike. -/
theorem Abreast.executeRequest (hn : n = 3 ∨ n = 4 ∨ n = 5) (dealer dealer' : Dealer)
    (srcUuid : ℕ) (json : JsonValue)
    (hm : (t.requestAction dealer srcUuid json).Matches (fun i => (t.mPlayers i).uuid = u)
      (t'.requestAction dealer' srcUuid json)) :
    SameTold u (t.executeRequest dealer srcUuid json) (t'.executeRequest dealer' srcUuid json) := by
  rcases exists_command json with hcmd | hcmd | ⟨step, hcmd⟩ | hnone
  · obtain ⟨hexecute, haction⟩ := request_of_ack dealer t srcUuid json hcmd
    obtain ⟨hexecute', haction'⟩ := request_of_ack dealer' t' srcUuid json hcmd
    rw [haction, haction'] at hm
    rw [hexecute, hexecute']
    exact h.executeAck hn dealer dealer' srcUuid json hm
  · rw [(request_of_newGame dealer t srcUuid json hcmd).1,
      (request_of_newGame dealer' t' srcUuid json hcmd).1]
    exact h.executeNewGame srcUuid json
  · rw [requestAction_of_answers dealer t srcUuid json hcmd,
      requestAction_of_answers dealer' t' srcUuid json hcmd] at hm
    rw [executeRequest_of_answers dealer t srcUuid json hcmd,
      executeRequest_of_answers dealer' t' srcUuid json hcmd]
    generalize (json.findValue (str "cmd")).getString = cmd at hcmd
    cases hcmd with
    | replyBid => exact h.executeReplyBid srcUuid json
    | discard => exact h.executeDiscard srcUuid json json hm
    | replyKingCall => exact h.executeReplyKingCall srcUuid json hm
    | handle => exact h.executeHandle hn srcUuid json hm
    | card => exact h.executeCard srcUuid json hm
  · rw [(hnone dealer t srcUuid).1, (hnone dealer' t' srcUuid).1]
    exact h.hall.quiet

theorem Abreast.addPlayer (uuid : ℕ) :
    (t.addPlayer uuid).2.SameHall (t'.addPlayer uuid).2 ∧
      (t'.addPlayer uuid).1 = (t.addPlayer uuid).1 := by
  have hplace := h.getPlayerPlace uuid
  have hfree : t'.freePlace = t.freePlace := by
    simp only [freePlace, show t'.nbPlayers = t.nbPlayers from h.engine.mNbPlayers, h.hall.mPlayers]
  unfold PlayingTable.addPlayer
  rw [hplace, hfree]
  by_cases hout : t.getPlayerPlace uuid = .nowhere
  · rw [if_pos hout, if_pos hout]
    dsimp only
    by_cases hseat : t.freePlace.value < Place.nowhere.value
    · rw [if_pos hseat, if_pos hseat]
      refine ⟨?_, rfl⟩
      exact
        { h.hall with
          mPlayers := by simp only [h.hall.mPlayers]
          mAdmin := by simp only [h.hall.mAdmin] }
    · rw [if_neg hseat, if_neg hseat]
      exact ⟨h.hall, rfl⟩
  · rw [if_neg hout, if_neg hout]
    exact ⟨h.hall, rfl⟩

theorem Abreast.removePlayer (uuid : ℕ) : (t.removePlayer uuid).SameHall (t'.removePlayer uuid) := by
  have hplace := h.getPlayerPlace uuid
  have hnb : t'.nbPlayers = t.nbPlayers := h.engine.mNbPlayers
  unfold PlayingTable.removePlayer
  rw [hplace]
  by_cases hseated : t.getPlayerPlace uuid ≠ .nowhere
  · rw [if_pos hseated, if_pos hseated]
    exact
      { h.hall with
        mPlayers := by simp only [hnb, h.hall.mPlayers]
        mAdmin := by simp only [hnb, h.hall.mPlayers, h.hall.mAdmin] }
  · rw [if_neg hseated, if_neg hseated]
    exact h.hall

/-- What a call makes the table tell, and who sits behind it. -/
theorem Abreast.call (hn : n = 3 ∨ n = 4 ∨ n = 5) {c c' : Call} (hc : c.Alike c')
    (hm : (t.action c).Matches (fun i => (t.mPlayers i).uuid = u) (t'.action c')) :
    (t.apply c).SameHall (t'.apply c') ∧ told u (t'.sends c') = told u (t.sends c) := by
  cases hc with
  | addPlayer uuid =>
    obtain ⟨hhall, hseat⟩ := h.addPlayer uuid
    refine ⟨hhall, ?_⟩
    simp only [sends, hseat]
    split_ifs
    · exact (told_of_revealing u _ rfl (by decide)).trans (told_of_revealing u _ rfl (by decide)).symm
    · rfl
  | removePlayer uuid => exact ⟨h.removePlayer uuid, rfl⟩
  | request dealer dealer' srcUuid json =>
    have htold := h.executeRequest hn dealer dealer' srcUuid json hm
    exact ⟨htold.hall, htold.told⟩
  | @discard dealer dealer' srcUuid json json' hcmd hcmd' =>
    have hanswers : Answers (json.findValue (str "cmd")).getString .waitForDiscard :=
      hcmd ▸ Answers.discard
    have hanswers' : Answers (json'.findValue (str "cmd")).getString .waitForDiscard :=
      hcmd' ▸ Answers.discard
    have hout := executeRequest_of_answers dealer t srcUuid json hanswers
    have hout' := executeRequest_of_answers dealer' t' srcUuid json' hanswers'
    have hact := requestAction_of_answers dealer t srcUuid json hanswers
    have hact' := requestAction_of_answers dealer' t' srcUuid json' hanswers'
    simp only [action, hact, hact'] at hm
    have htold := h.executeDiscard srcUuid json json' hm
    simp only [sends, apply, respond, hout, hout']
    exact ⟨htold.hall, htold.told⟩

/-- Calls of fair deals, which match, keep the tables abreast. -/
theorem Abreast.apply (hn : n = 3 ∨ n = 4 ∨ n = 5) {c c' : Call} (hc : c.Alike c')
    (hm : (t.action c).Matches (fun i => (t.mPlayers i).uuid = u) (t'.action c'))
    (hfair : t.FairCall n c) (hfair' : t'.FairCall n c') : Abreast n (t.apply c) (t'.apply c') := by
  obtain ⟨plays, hdeal⟩ := h.inDeal
  obtain ⟨plays', hdeal'⟩ := h.inDeal'
  have ha := hdeal.action_enabled c
  have ha' := hdeal'.action_enabled c'
  obtain ⟨hengine, hlead⟩ := h.act hn ha ha' hm
  exact
    { hall := (h.call hn hc hm).1
      engine := by
        rw [apply_mEngine, apply_mEngine]
        exact hengine
      lead := by
        rw [apply_mEngine, apply_mEngine]
        exact hlead
      king := by
        rw [apply_mEngine]
        exact Engine.act_kingAtFive h.king ha
      inDeal := ⟨_, hdeal.apply hn hfair⟩
      inDeal' := ⟨_, hdeal'.apply hn hfair'⟩ }

end

theorem createTable_abreast (t : PlayingTable) (randomPlace : Place) (hn : n = 3 ∨ n = 4 ∨ n = 5) :
    Abreast n (t.createTable n randomPlace) (t.createTable n randomPlace) where
  hall := ⟨rfl, rfl, rfl, rfl, rfl, rfl, rfl⟩
  engine := ⟨rfl, rfl, rfl, rfl, rfl, rfl, rfl, rfl, rfl, rfl, fun _ => rfl⟩
  lead := fun _ => rfl
  king := fun hking => Sequence.noConfusion hking
  inDeal := ⟨[], createTable_inDeal t randomPlace hn⟩
  inDeal' := ⟨[], createTable_inDeal t randomPlace hn⟩

/-- The table takes the same step in both runs, as far as everybody can see, and deals the user the
same cards. -/
def StepsMatch (u : ℕ) (p : PlayingTable × PlayingTable) (c : Call × Call) : Prop :=
  (p.1.action c.1).Matches (fun i => (p.1.mPlayers i).uuid = u) (p.2.action c.2)

instance (u : ℕ) (p : PlayingTable × PlayingTable) (c : Call × Call) :
    Decidable (StepsMatch u p c) :=
  inferInstanceAs (Decidable (Engine.Action.Matches (fun i => (p.1.mPlayers i).uuid = u)
    (p.1.action c.1) (p.2.action c.2)))

end PlayingTable

theorem Call.Alike.namesContract {c c' : Call} (h : c.Alike c') (hc : c.NamesContract) :
    c'.NamesContract := by
  cases h with
  | addPlayer uuid => exact hc
  | removePlayer uuid => exact hc
  | request dealer dealer' srcUuid json => exact hc
  | discard dealer dealer' srcUuid hcmd hcmd' =>
    intro hbid
    exact absurd (hcmd'.symm.trans hbid) (by decide)

namespace PlayingTable

/-- Take two runs of a table with the same requests, over any number of deals. The hands of the other
players, the dogs and the discards may be different, so that the partner and the points may be
different too; but the table accepts the same requests, and a user is dealt the same cards. Then the
user is told the same with every call, but for the message that answers a join, the dog that is shown,
and the results of deals and games. -/
theorem told_of_stepsMatch (t : PlayingTable) (randomPlace : Place) {n : ℕ}
    (hn : n = 3 ∨ n = 4 ∨ n = 5) (u : ℕ) {cs : List (Call × Call)} (hcalls : ∀ c ∈ cs, c.1.Alike c.2)
    (hbids : ∀ c ∈ cs, c.1.NamesContract)
    (hdeals : ∀ c ∈ cs, c.1.DealsFairly n ∧ c.2.DealsFairly n) :
    let s := t.createTable n randomPlace
    Guarded (pair PlayingTable.apply PlayingTable.apply) (StepsMatch u) (s, s) cs →
      labels PlayingTable.apply (fun t c => told u (t.sends c)) s (cs.map Prod.snd) =
        labels PlayingTable.apply (fun t c => told u (t.sends c)) s (cs.map Prod.fst) := by
  intro s hsteps
  have hfst : Guarded PlayingTable.apply (FairCall n) s (cs.map Prod.fst) := by
    refine guarded_fairCall (guarded_bidCounts s ?_) ?_
    · exact List.forall_mem_map.mpr hbids
    · exact List.forall_mem_map.mpr fun c hc => (hdeals c hc).1
  have hsnd : Guarded PlayingTable.apply (FairCall n) s (cs.map Prod.snd) := by
    refine guarded_fairCall (guarded_bidCounts s ?_) ?_
    · exact List.forall_mem_map.mpr fun c hc => (hcalls c hc).namesContract (hbids c hc)
    · exact List.forall_mem_map.mpr fun c hc => (hdeals c hc).2
  have hok := (hsteps.and (guarded_of_forall _ _ _ cs hcalls)).and (guarded_pair hfst hsnd)
  refine hok.labels_eq (Abreast n) ?_ ?_ (createTable_abreast t randomPlace hn)
  · rintro p c habreast ⟨⟨hmatch, halike⟩, hfair, hfair'⟩
    exact habreast.apply hn halike hmatch hfair hfair'
  · rintro p c habreast ⟨⟨hmatch, halike⟩, -⟩
    exact (habreast.call hn halike hmatch).2

/-- The deal of another dealer, with the hands of the second and the third seat exchanged. -/
def exchangingDealer (dealer : Dealer) : Dealer := fun nbPlayers distribution =>
  let deal := dealer nbPlayers distribution
  { deal with mPlayers := fun i => deal.mPlayers (if i = 1 then 2 else if i = 2 then 1 else i) }

theorem exchangingDealer_fair (distribution : Distribution) :
    (exchangingDealer plainDealer 3 distribution).Fair 3 := by
  have hfair := plainDealer_fair (.inl rfl) distribution
  refine ⟨fun i hi => ?_, hfair.dog, ?_⟩
  · refine hfair.hands _ ?_
    split_ifs <;> omega
  · have hcards := hfair.cards
    simp only [Finset.sum_range_succ, Finset.sum_range_zero, zero_add] at hcards ⊢
    rw [← hcards]
    rw [exchangingDealer]
    generalize plainDealer 3 distribution = deal
    change (deal.mPlayers 0).cards + (deal.mPlayers 2).cards + (deal.mPlayers 1).cards +
      deal.mDogDeck.cards = _
    abel

end PlayingTable

/-- The same call, with another dealer behind the table. -/
def Call.withDealer (dealer : Dealer) : Call → Call
  | .executeRequest _ srcUuid json => .executeRequest dealer srcUuid json
  | c => c

theorem Call.alike_withDealer (dealer : Dealer) (c : Call) : c.Alike (c.withDealer dealer) := by
  cases c with
  | addPlayer uuid => exact .addPlayer uuid
  | removePlayer uuid => exact .removePlayer uuid
  | executeRequest dealer' srcUuid json => exact .request dealer' dealer srcUuid json

theorem Call.withDealer_dealsFairly {n : ℕ} {dealer : Dealer}
    (hd : ∀ distribution, (dealer n distribution).Fair n) (c : Call) :
    (c.withDealer dealer).DealsFairly n := by
  cases c with
  | addPlayer | removePlayer => trivial
  | executeRequest => exact hd

namespace PlayingTable

theorem told_of_stepsMatch_exchanged :
    let cs := beginningCalls.map fun c => (c, c.withDealer (exchangingDealer plainDealer))
    let s := ({} : PlayingTable).createTable 3 .south
    labels PlayingTable.apply (fun t c => told 7 (t.sends c)) s (cs.map Prod.snd) =
      labels PlayingTable.apply (fun t c => told 7 (t.sends c)) s (cs.map Prod.fst) := by
  have hdeals := beginningCalls_dealsFairly
  have hbids : ∀ c ∈ beginningCalls, c.NamesContract := by decide +kernel
  refine told_of_stepsMatch {} .south (.inl rfl) 7 ?_ ?_ ?_ (by decide +kernel)
  · exact List.forall_mem_map.mpr fun c _ => Call.alike_withDealer _ c
  · exact List.forall_mem_map.mpr hbids
  · refine List.forall_mem_map.mpr fun c hc => ⟨hdeals c hc, ?_⟩
    exact Call.withDealer_dealsFairly exchangingDealer_fair c

end PlayingTable

end TarotClub
