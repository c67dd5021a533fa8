import TarotClub.BotBids
import TarotClub.BotView
import TarotClub.TurnOrder

namespace TarotClub

/-- The actions whose messages tell nothing about the play, by the step that they lead to. -/
def Engine.Action.tellsNothing (seq : Sequence) : Engine.Action → Bool
  | .newGame | .bid _ _ _ | .kingCall _ | .handle _ _ => true
  | .bidSequence | .manageAfterBid =>
    seq = .waitForBid || seq = .waitForAllPassed || seq = .waitForKingCall
  | .gameSequence => seq = .waitForHandle || seq = .waitForEndOfDeal
  | _ => false

/-- The actions that the play begins with. -/
def Engine.Action.opensPlay : Engine.Action → Bool
  | .bidSequence | .manageAfterBid | .discard _ => true
  | _ => false

/-- What the player on a seat is told when an action has led to this state. Who has no seat is told
nothing. -/
inductive News (e : Engine) (p : Place) : Engine.Action → List JsonObject → Prop
  | stay : News e p .stay []
  | absent {a : Engine.Action} {msgs : List JsonObject} :
    p = .nowhere → (∀ m ∈ msgs, Idle m) → News e p a msgs
  | idle {a : Engine.Action} {msgs : List JsonObject} :
    a.tellsNothing e.mSequence = true → (∀ m ∈ msgs, Idle m) → News e p a msgs
  | newDeal {deal : Deal} {m : JsonObject} : cmdOf m = str "NewDeal" →
    textAt m "cards" = (e.getDeck p).toString → News e p (.newDeal deal) [m]
  | showDog {a : Engine.Action} {m : JsonObject} : a.opensPlay = true →
    (∀ cards, a ≠ .discard cards) → e.mSequence = .waitForShowDog → cmdOf m = str "ShowDog" →
    textAt m "dog" = e.mCtx.mDog.toString → News e p a [m]
  | buildDiscard {m : JsonObject} : p ≠ .nowhere → e.mCtx.mBid.taker = p →
    cmdOf m = str "BuildDiscard" → News e p .discardSequence [m]
  | otherTaker : e.mCtx.mBid.taker ≠ p → News e p .discardSequence []
  | startDeal {a : Engine.Action} {m : JsonObject} : a.opensPlay = true →
    e.mSequence = .waitForStartDeal → cmdOf m = str "StartDeal" → News e p a [m]
  | showCard {c : Card} {q : Place} {m : JsonObject} : cmdOf m = str "ShowCard" →
    textAt m "card" = c.toString → News e p (.card c q) [m]
  | endOfTrick {m : JsonObject} : e.mSequence = .waitForEndOfTrick →
    cmdOf m = str "EndOfTrick" → News e p .gameSequence [m]
  | playCard {m : JsonObject} : p ≠ .nowhere → e.mSequence = .waitForPlayedCard →
    cmdOf m = str "PlayCard" → textAt m "place" = e.mCurrentPlayer.toString →
    News e p .gameSequence [m]

namespace PlayingTable

/-- Where a player sits: on one seat only, or nowhere. -/
inductive Spot (t : PlayingTable) (u : ℕ) : Place → Prop
  | seat {p : Place} : p ≠ .nowhere → p.value < t.nbPlayers → (t.mPlayers p.value).uuid = u →
    (∀ i < t.nbPlayers, (t.mPlayers i).uuid = u → i = p.value) → Spot t u p
  | away : (∀ i < t.nbPlayers, (t.mPlayers i).uuid ≠ u) → Spot t u .nowhere

variable {t t' : PlayingTable} {u : ℕ} {p : Place}

theorem Spot.congr (h : t.Spot u p) (hn : t'.nbPlayers = t.nbPlayers)
    (huuid : ∀ i, (t'.mPlayers i).uuid = (t.mPlayers i).uuid) : t'.Spot u p := by
  cases h with
  | seat hne hp hu honce =>
    refine .seat hne (hn ▸ hp) ((huuid _).trans hu) fun i hi hi' => ?_
    exact honce i (hn ▸ hi) ((huuid i).symm.trans hi')
  | away hnone =>
    refine .away fun i hi => ?_
    rw [huuid]
    exact hnone i (hn ▸ hi)

/-- One of the numbers up to a bound. -/
theorem flatMap_range_ite {α : Type*} (f : ℕ → α) {n k : ℕ} (hk : k < n) :
    (List.range n).flatMap (fun i => if i = k then [f i] else []) = [f k] := by
  induction n with
  | zero => exact absurd hk (Nat.not_lt_zero k)
  | succ n ih =>
    rw [List.range_succ, List.flatMap_append, List.flatMap_singleton]
    rcases Nat.lt_succ_iff_lt_or_eq.mp hk with hlt | rfl
    · rw [ih hlt, if_neg hlt.ne', List.append_nil]
    · rw [if_pos rfl, List.flatMap_eq_nil_iff.mpr, List.nil_append]
      intro i hi
      exact if_neg (List.mem_range.mp hi).ne

theorem messagesTo_singleton (u w : ℕ) (data : JsonObject) :
    messagesTo u [⟨[w], data⟩] = if w = u then [data] else [] := by
  rw [messagesTo, List.flatMap_singleton, List.count_singleton]
  by_cases hw : w = u
  · rw [if_pos hw, if_pos (beq_iff_eq.mpr hw)]
    rfl
  · rw [if_neg hw, if_neg (mt beq_iff_eq.mp hw)]
    rfl

/-- Who sits gets what is sent to all, once. -/
theorem Spot.sendToAllPlayers (h : t.Spot u p) (hu : u ≠ invalidUid) (data : JsonObject) :
    p = .nowhere ∧ messagesTo u (t.sendToAllPlayers data) = [] ∨
      p ≠ .nowhere ∧ messagesTo u (t.sendToAllPlayers data) = [data] := by
  have hmessages : messagesTo u (t.sendToAllPlayers data) = List.replicate
      ((List.range t.nbPlayers).countP fun i => (t.mPlayers i).uuid = u) data := by
    rw [messagesTo, PlayingTable.sendToAllPlayers, List.flatMap_singleton, List.count,
      List.countP_map, List.countP_filter]
    congr 1
    refine List.countP_congr fun i _ => ?_
    simp only [Function.comp_apply, Bool.and_eq_true, beq_iff_eq, decide_eq_true_eq,
      Bool.not_eq_true', Challenger.isFree, decide_eq_false_iff_not]
    exact ⟨fun hi => hi.1, fun hi => ⟨hi, hi ▸ hu⟩⟩
  rw [hmessages]
  cases h with
  | seat hne hp huuid honce =>
    refine .inr ⟨hne, ?_⟩
    have hone : (List.range t.nbPlayers).countP (fun i => (t.mPlayers i).uuid = u) =
        (List.range t.nbPlayers).count p.value := by
      refine List.countP_congr fun i hi => ?_
      rw [decide_eq_true_eq, beq_iff_eq]
      exact ⟨honce i (List.mem_range.mp hi), fun he => he ▸ huuid⟩
    rw [hone, List.count_eq_one_of_mem List.nodup_range (List.mem_range.mpr hp)]
    rfl
  | away hnone =>
    refine .inl ⟨rfl, ?_⟩
    rw [List.countP_eq_zero.mpr]
    · rfl
    · intro i hi
      rw [decide_eq_true_eq]
      exact hnone i (List.mem_range.mp hi)

/-- What is news for everybody who sits. -/
theorem Spot.news (h : t.Spot u p) (hu : u ≠ invalidUid) {e : Engine} {a : Engine.Action}
    {data : JsonObject} (hnews : p ≠ .nowhere → News e p a [data]) :
    News e p a (messagesTo u (t.sendToAllPlayers data)) := by
  rcases h.sendToAllPlayers hu data with ⟨hp, hmessages⟩ | ⟨hp, hmessages⟩
  · rw [hmessages]
    exact .absent hp fun m hm => absurd hm List.not_mem_nil
  · rw [hmessages]
    exact hnews hp

theorem Spot.idle (h : t.Spot u p) (hu : u ≠ invalidUid) {e : Engine} {a : Engine.Action}
    (ha : a.tellsNothing e.mSequence = true) {data : JsonObject} (hdata : Idle data) :
    News e p a (messagesTo u (t.sendToAllPlayers data)) :=
  h.news hu fun _ => .idle ha (List.forall_mem_singleton.mpr hdata)

theorem Spot.newGame (h : t.Spot u p) (hu : u ≠ invalidUid) :
    News t.newGame.table.mEngine p .newGame (messagesTo u t.newGame.out) := by
  have hspot : ({ t with
      mScore := Score.newGame t.mGame.deals.length
      mEngine := t.mEngine.newGame } : PlayingTable).resetAck.Spot u p :=
    h.congr rfl fun i => resetAck_uuid _ i
  exact hspot.idle hu rfl (idle_of_cmd (str "NewGame") rfl (by decide))

/-- Every player is sent the cards of the seat. -/
theorem Spot.newDeal (h : t.Spot u p) (dealer : Dealer) (hn : t.nbPlayers ≤ 5) :
    News (t.newDeal dealer).table.mEngine p (.newDeal (t.nextDeal dealer))
      (messagesTo u (t.newDeal dealer).out) := by
  set t' := (t.newDeal dealer).table with ht'
  have hnb : t'.nbPlayers = t.nbPlayers := by
    rw [ht', nbPlayers, newDeal_mEngine, Engine.newDeal_mNbPlayers]
    rfl
  have hplayers : t'.mPlayers = t.mPlayers := rollover_mPlayers t
  have hspot : t'.Spot u p := h.congr hnb fun i => by rw [hplayers]
  set cards : ℕ → JsonObject := fun i => JsonObject.ofList
    [(str "cmd", .string (str "NewDeal")),
     (str "cards", .string (t'.mEngine.getDeck (.assign i)).toString)]
  have hout : (t.newDeal dealer).out = (List.range t'.nbPlayers).map fun i =>
      ⟨[t'.getPlayerUuid (.assign i)], cards i⟩ := rfl
  have hmessages : messagesTo u (t.newDeal dealer).out =
      (List.range t'.nbPlayers).flatMap fun i =>
        if (t'.mPlayers i).uuid = u then [cards i] else [] := by
    rw [hout, messagesTo, List.flatMap_map]
    refine List.flatMap_congr fun i hi => ?_
    have hi' : i < t.nbPlayers := hnb ▸ List.mem_range.mp hi
    have huuid : t'.getPlayerUuid (.assign i) = (t'.mPlayers i).uuid := by
      rw [getPlayerUuid, Place.value_assign (by omega)]
    have hone := messagesTo_singleton u (t'.getPlayerUuid (.assign i)) (cards i)
    rw [messagesTo, List.flatMap_singleton, huuid] at hone
    rw [← hone, huuid]
  rw [hmessages]
  cases hspot with
  | seat hne hp huuid honce =>
    have hmine : (List.range t'.nbPlayers).flatMap (fun i =>
          if (t'.mPlayers i).uuid = u then [cards i] else []) = [cards p.value] := by
      rw [← flatMap_range_ite cards hp]
      refine List.flatMap_congr fun i hi => if_congr ?_ rfl rfl
      exact ⟨honce i (List.mem_range.mp hi), fun he => he ▸ huuid⟩
    rw [hmine]
    refine .newDeal rfl ?_
    change (t'.mEngine.getDeck (.assign p.value)).toString = _
    rw [Place.assign_value]
  | away hnone =>
    rw [List.flatMap_eq_nil_iff.mpr]
    · exact .absent rfl fun m hm => absurd hm List.not_mem_nil
    · intro i hi
      exact if_neg (hnone i (List.mem_range.mp hi))

theorem Spot.startDeal (h : t.Spot u p) (hu : u ≠ invalidUid) {a : Engine.Action}
    (ha : a.opensPlay = true) (hseq : t.mEngine.mSequence = .waitForStartDeal) :
    News t.startDeal.table.mEngine p a (messagesTo u t.startDeal.out) := by
  have hspot : t.startDeal.table.Spot u p := h.congr rfl fun _ => rfl
  exact hspot.news hu fun _ => .startDeal ha hseq rfl

/-- The steps that an auction leads to. -/
def afterAuction : List Sequence :=
  [.waitForBid, .waitForAllPassed, .waitForKingCall, .waitForShowDog, .waitForStartDeal]

theorem Spot.sendNextBidSequence (h : t.Spot u p) (hu : u ≠ invalidUid) {a : Engine.Action}
    (ha : a = .bidSequence ∨ a = .manageAfterBid) (hseq : t.mEngine.mSequence ∈ afterAuction) :
    News t.sendNextBidSequence.table.mEngine p a (messagesTo u t.sendNextBidSequence.out) := by
  have hopens : a.opensPlay = true := by
    rcases ha with rfl | rfl
    · rfl
    · rfl
  have hnothing : ∀ seq, (seq = .waitForBid ∨ seq = .waitForAllPassed ∨ seq = .waitForKingCall) →
      a.tellsNothing seq = true := by
    intro seq hs
    rcases ha with rfl | rfl <;> rcases hs with rfl | rfl | rfl <;> rfl
  unfold PlayingTable.sendNextBidSequence
  simp only [afterAuction, List.mem_cons, List.not_mem_nil, or_false] at hseq
  rcases hseq with hs | hs | hs | hs | hs
  · simp only [hs]
    exact h.idle hu (hnothing _ (.inl hs)) (idle_of_cmd (str "RequestBid") rfl (by decide))
  · simp only [hs]
    exact h.idle hu (hnothing _ (.inr (.inl hs))) (idle_of_cmd (str "AllPassed") rfl (by decide))
  · simp only [hs]
    exact h.idle hu (hnothing _ (.inr (.inr hs))) (idle_of_cmd (str "RequestKingCall") rfl (by decide))
  · simp only [hs]
    refine h.news hu fun _ => .showDog hopens ?_ hs rfl rfl
    intro cards
    rcases ha with rfl | rfl
    · exact Engine.Action.noConfusion
    · exact Engine.Action.noConfusion
  · simp only [hs]
    exact h.startDeal hu hopens hs

theorem Spot.gameSequence (h : t.Spot u p) (hu : u ≠ invalidUid) :
    News t.gameSequence.table.mEngine p .gameSequence (messagesTo u t.gameSequence.out) := by
  have hspot : ∀ e : Engine, e.mCtx.mNbPlayers = t.mEngine.mCtx.mNbPlayers →
      ({ t with mEngine := e } : PlayingTable).Spot u p := fun e he => h.congr he fun _ => rfl
  have hnb := Engine.gameSequence_mNbPlayers t.mEngine
  have hsteps := Engine.gameSequence_mSequence t.mEngine
  unfold PlayingTable.gameSequence
  dsimp only
  generalize t.mEngine.gameSequence = e at hnb hsteps ⊢
  by_cases hlast : e.isLastTrick = true
  · rw [if_pos hlast]
    exact (hspot e.endOfDeal.2 hnb).idle hu rfl (idle_of_cmd (str "EndOfDeal") rfl (by decide))
  · rw [if_neg hlast]
    rcases hsteps with hs | hs | hs
    · simp only [hs]
      exact (hspot e hnb).news hu fun _ => .endOfTrick hs rfl
    · simp only [hs]
      refine .idle ?_ fun m hm => ?_
      · rw [hs]
        rfl
      · rw [messagesTo_singleton] at hm
        split_ifs at hm
        · rw [List.mem_singleton.mp hm]
          exact idle_of_cmd (str "AskForHandle") rfl (by decide)
        · exact absurd hm List.not_mem_nil
    · simp only [hs]
      exact (hspot e hnb).news hu fun hne => .playCard hne hs rfl rfl

theorem bidSequence_mSequence (e : Engine) : e.bidSequence.mSequence ∈ afterAuction := by
  unfold Engine.bidSequence
  dsimp only
  generalize e.isEndOfTrick = closed
  split_ifs
  · exact (by decide : Sequence.waitForAllPassed ∈ afterAuction)
  · exact (by decide : Sequence.waitForKingCall ∈ afterAuction)
  · rcases Engine.manageAfterBidSequence_mSequence closed.2 with hs | hs
    · rw [hs]
      decide
    · rw [hs]
      decide
  · exact (by decide : Sequence.waitForBid ∈ afterAuction)

theorem manageAfterBidSequence_mem (e : Engine) :
    e.manageAfterBidSequence.mSequence ∈ afterAuction := by
  rcases Engine.manageAfterBidSequence_mSequence e with hs | hs
  · rw [hs]
    decide
  · rw [hs]
    decide

/-- The taker alone is asked for a discard. -/
theorem Spot.discardSequence (h : t.Spot u p)
    (htaker : t.mEngine.mCtx.mBid.taker.value < t.nbPlayers) (data : JsonObject)
    (hdata : cmdOf data = str "BuildDiscard") :
    News t.mEngine.discardSequence p .discardSequence
      (messagesTo u [⟨[t.getPlayerUuid t.mEngine.mCtx.mBid.taker], data⟩]) := by
  rw [messagesTo_singleton]
  cases h with
  | seat hne hp huuid honce =>
    by_cases hmine : t.getPlayerUuid t.mEngine.mCtx.mBid.taker = u
    · rw [if_pos hmine]
      refine .buildDiscard hne ?_ hdata
      exact Place.value_inj.mp (honce _ htaker hmine)
    · rw [if_neg hmine]
      refine .otherTaker fun he => hmine ?_
      rw [show t.mEngine.mCtx.mBid.taker = p from he]
      exact huuid
  | away hnone =>
    have hother : t.getPlayerUuid t.mEngine.mCtx.mBid.taker ≠ u := hnone _ htaker
    rw [if_neg hother]
    exact .absent rfl fun m hm => absurd hm List.not_mem_nil

section
variable (h : t.Spot u p) (hu : u ≠ invalidUid)
include h hu

theorem Spot.allSynced (dealer : Dealer) (hn : t.nbPlayers ≤ 5) (seq : Sequence)
    (htaker : seq = .waitForShowDog → t.mEngine.mCtx.mBid.taker.value < t.nbPlayers) :
    News (t.allSynced dealer seq).table.mEngine p (t.syncedAction dealer seq)
      (messagesTo u (t.allSynced dealer seq).out) := by
  have hspot : ∀ e : Engine, e.mCtx.mNbPlayers = t.mEngine.mCtx.mNbPlayers →
      ({ t with mEngine := e } : PlayingTable).Spot u p := fun e he => h.congr he fun _ => rfl
  cases seq with
  | waitForPlayers =>
    simp only [PlayingTable.allSynced, syncedAction]
    split_ifs
    · exact .stay
    · exact h.newGame hu
  | waitForReady => exact h.newDeal dealer hn
  | waitForAllPassed => exact h.newDeal dealer hn
  | waitForCards | waitForShowBid =>
    refine (hspot _ (Engine.bidSequence_mNbPlayers _)).sendNextBidSequence hu (.inl rfl) ?_
    exact bidSequence_mSequence t.mEngine
  | waitForShowKingCall =>
    refine (hspot _ (Engine.manageAfterBidSequence_mNbPlayers _)).sendNextBidSequence hu
      (.inr rfl) ?_
    exact manageAfterBidSequence_mem t.mEngine
  | waitForShowDog => exact h.discardSequence (htaker rfl) _ rfl
  | waitForStartDeal | waitForShowHandle | waitForShowCard | waitForEndOfTrick =>
    exact h.gameSequence hu
  | waitForEndOfDeal =>
    simp only [PlayingTable.allSynced, syncedAction, endOfDeal]
    generalize t.mScore.addPoints t.mEngine.getCurrentGamePoints t.mEngine.mCtx.mBid
      t.nbPlayers = scored
    have hscored : ({ t with mScore := scored.2 } : PlayingTable).Spot u p :=
      h.congr rfl fun _ => rfl
    split_ifs
    · exact hscored.newDeal dealer hn
    · have hgame : ({ t with
          mScore := scored.2
          mEngine := t.mEngine.newGame } : PlayingTable).Spot u p := h.congr rfl fun _ => rfl
      exact hgame.idle hu rfl (idle_of_cmd (str "EndOfGame") rfl (by decide))
  | _ => exact .stay

theorem Spot.executeAck (ht : t.Open) (dealer : Dealer) (srcUuid : ℕ) (json : JsonValue)
    (htaker : t.mEngine.mSequence = .waitForShowDog →
      t.mEngine.mCtx.mBid.taker.value < t.nbPlayers) :
    News (t.executeAck dealer srcUuid json).table.mEngine p (t.ackAction dealer srcUuid json)
      (messagesTo u (t.executeAck dealer srcUuid json).out) := by
  unfold PlayingTable.executeAck ackAction
  dsimp only
  generalize ackFromString (json.findValue (str "step")).getString = seq
  by_cases hp : t.getPlayerPlace srcUuid ≠ .nowhere
  swap
  · rw [if_neg hp, if_neg fun hall => hp hall.1]
    exact .stay
  rw [if_pos hp]
  by_cases hbad : seq = .badStep
  · rw [if_pos hbad, if_neg fun hall => hall.2.1 hbad]
    exact .stay
  rw [if_neg hbad]
  by_cases hsynced : (t.sync seq srcUuid).1 = true
  · rw [if_pos hsynced, if_pos ⟨hp, hbad, hsynced⟩, sync_of_fst hsynced]
    have h0 : 0 < t.nbPlayers := Nat.zero_lt_of_lt (getPlayerPlace_of_ne ht.seats hp).1
    have hseq := ht.mSequence_eq h0 hsynced
    have hreset : t.resetAck.Spot u p := h.congr rfl fun i => resetAck_uuid t i
    exact hreset.allSynced hu dealer ht.seats seq fun hs => htaker (hseq.trans hs)
  · rw [if_neg hsynced, if_neg fun hall => hsynced hall.2.2]
    dsimp only
    exact .stay

theorem Spot.executeNewGame (srcUuid : ℕ) (json : JsonValue) :
    News (t.executeNewGame srcUuid json).table.mEngine p
      (if srcUuid = t.mAdmin then .newGame else .stay)
      (messagesTo u (t.executeNewGame srcUuid json).out) := by
  unfold PlayingTable.executeNewGame
  split_ifs
  · refine Spot.newGame ?_ hu
    exact h.congr rfl fun _ => rfl
  · exact .stay

theorem Spot.executeReplyBid (srcUuid : ℕ) (json : JsonValue) :
    News (t.executeReplyBid srcUuid json).table.mEngine p (t.bidAction srcUuid json)
      (messagesTo u (t.executeReplyBid srcUuid json).out) := by
  simp only [PlayingTable.executeReplyBid, bidAction]
  split_ifs
  · refine Spot.idle ?_ hu rfl (idle_of_cmd (str "ShowBid") rfl (by decide))
    exact h.congr (Engine.setBid_mNbPlayers t.mEngine _ _ _) fun _ => rfl
  · exact .stay

theorem Spot.executeDiscard (srcUuid : ℕ) (json : JsonValue) :
    News (t.executeDiscard srcUuid json).table.mEngine p (t.discardAction srcUuid json)
      (messagesTo u (t.executeDiscard srcUuid json).out) := by
  unfold PlayingTable.executeDiscard discardAction
  dsimp only
  by_cases hturn : t.mEngine.mSequence = .waitForDiscard ∧
      t.mEngine.mCtx.mBid.taker = t.getPlayerPlace srcUuid
  swap
  · rw [if_neg hturn, if_neg fun hall => hturn ⟨hall.1, hall.2.1⟩]
    exact .stay
  rw [if_pos hturn]
  generalize Deck.ofString (json.findValue (str "discard")).getString = discard
  by_cases htest : t.mEngine.takerDeck.testDiscard discard t.mEngine.mCtx.mDog t.nbPlayers = true
  · obtain ⟨e, hset, hseq, hnb⟩ : ∃ e, t.mEngine.setDiscard discard = (true, e) ∧
        e.mSequence = .waitForStartDeal ∧ e.mCtx.mNbPlayers = t.mEngine.mCtx.mNbPlayers :=
      ⟨_, if_pos htest, rfl, rfl⟩
    have hall : t.mEngine.mSequence = .waitForDiscard ∧
        t.mEngine.mCtx.mBid.taker = t.getPlayerPlace srcUuid ∧
        t.mEngine.takerDeck.testDiscard discard t.mEngine.mCtx.mDog t.nbPlayers = true :=
      ⟨hturn.1, hturn.2, htest⟩
    rw [if_pos hall, hset]
    refine Spot.startDeal ?_ hu rfl hseq
    exact h.congr hnb fun _ => rfl
  · have hset : t.mEngine.setDiscard discard = (false, t.mEngine) := if_neg htest
    rw [hset, if_neg Bool.false_ne_true, if_neg fun hall => htest hall.2.2]
    exact .stay

theorem Spot.executeReplyKingCall (srcUuid : ℕ) (json : JsonValue) :
    News (t.executeReplyKingCall srcUuid json).table.mEngine p (t.kingCallAction srcUuid json)
      (messagesTo u (t.executeReplyKingCall srcUuid json).out) := by
  unfold PlayingTable.executeReplyKingCall kingCallAction
  dsimp only
  by_cases hturn : t.mEngine.mSequence = .waitForKingCall ∧
      t.mEngine.mCtx.mBid.taker = t.getPlayerPlace srcUuid
  swap
  · rw [if_neg hturn, if_neg fun hall => hturn ⟨hall.1, hall.2.1⟩]
    exact .stay
  rw [if_pos hturn]
  generalize Card.ofString (json.findValue (str "card")).getString = c
  by_cases hcheck : TarotContext.checkKingCall c (t.mEngine.takerDeck.analyzeSuits {}) = true
  · have hall : t.mEngine.mSequence = .waitForKingCall ∧
        t.mEngine.mCtx.mBid.taker = t.getPlayerPlace srcUuid ∧
        TarotContext.checkKingCall c (t.mEngine.takerDeck.analyzeSuits {}) = true :=
      ⟨hturn.1, hturn.2, hcheck⟩
    obtain ⟨held, e, hset, hnb⟩ : ∃ held e, t.mEngine.setKingCalled c = (held, e) ∧
        e.mCtx.mNbPlayers = t.mEngine.mCtx.mNbPlayers := ⟨_, _, if_pos hcheck, rfl⟩
    rw [if_pos hall, hset]
    cases held with
    | true =>
      refine Spot.idle ?_ hu rfl (idle_of_cmd (str "ShowKingCall") rfl (by decide))
      exact h.congr hnb fun i => resetAck_uuid _ i
    | false => exact .idle rfl fun m hm => absurd hm List.not_mem_nil
  · have hset : t.mEngine.setKingCalled c = (false, t.mEngine) := if_neg hcheck
    rw [hset, if_neg Bool.false_ne_true, if_neg fun hall => hcheck hall.2.2]
    exact .stay

theorem Spot.executeHandle (srcUuid : ℕ) (json : JsonValue) :
    News (t.executeHandle srcUuid json).table.mEngine p (t.handleAction srcUuid json)
      (messagesTo u (t.executeHandle srcUuid json).out) := by
  unfold PlayingTable.executeHandle handleAction
  dsimp only
  by_cases hturn : t.mEngine.mSequence = .waitForHandle ∧
      t.mEngine.mCurrentPlayer = t.getPlayerPlace srcUuid
  swap
  · rw [if_neg hturn, if_neg hturn]
    exact .stay
  rw [if_pos hturn, if_pos hturn]
  generalize Deck.ofString (json.findValue (str "handle")).getString = cards
  by_cases htest : (t.mEngine.mPlayers (t.getPlayerPlace srcUuid).value).testHandle cards = true
  · obtain ⟨e, hset, hnb⟩ : ∃ e,
        t.mEngine.setHandle cards (t.getPlayerPlace srcUuid) = (true, e) ∧
          e.mCtx.mNbPlayers = t.mEngine.mCtx.mNbPlayers := by
      refine ⟨_, if_pos htest, ?_⟩
      dsimp only [TarotContext.setHandle]
      split_ifs
      · rfl
      · rfl
    rw [hset, if_pos rfl, if_pos htest]
    refine Spot.idle ?_ hu rfl (idle_of_cmd (str "ShowHandle") rfl (by decide))
    exact h.congr hnb fun _ => rfl
  · have hset : t.mEngine.setHandle cards (t.getPlayerPlace srcUuid) = (false, t.mEngine) :=
      if_neg htest
    rw [hset, if_neg Bool.false_ne_true, if_neg htest]
    exact h.gameSequence hu

theorem Spot.executeCard (srcUuid : ℕ) (json : JsonValue) :
    News (t.executeCard srcUuid json).table.mEngine p (t.cardAction srcUuid json)
      (messagesTo u (t.executeCard srcUuid json).out) := by
  unfold PlayingTable.executeCard cardAction
  dsimp only
  generalize Card.ofString (json.findValue (str "card")).getString = c
  by_cases hturn : c.isValid = true ∧ t.mEngine.mSequence = .waitForPlayedCard ∧
      t.mEngine.mCurrentPlayer = t.getPlayerPlace srcUuid
  swap
  · rw [if_neg hturn, if_neg fun hall => hturn ⟨hall.1, hall.2.1, hall.2.2.1⟩]
    exact .stay
  rw [if_pos hturn]
  generalize t.getPlayerPlace srcUuid = q at hturn
  by_cases hplay : (t.mEngine.mPlayers q.value).canPlayCard c t.mEngine.currentTrick = true
  · obtain ⟨e, hset, hnb⟩ : ∃ e, t.mEngine.setCard c q = (true, e) ∧
        e.mCtx.mNbPlayers = t.mEngine.mCtx.mNbPlayers := ⟨_, if_pos hplay, rfl⟩
    have hall : c.isValid = true ∧ t.mEngine.mSequence = .waitForPlayedCard ∧
        t.mEngine.mCurrentPlayer = q ∧
        (t.mEngine.mPlayers q.value).canPlayCard c t.mEngine.currentTrick = true :=
      ⟨hturn.1, hturn.2.1, hturn.2.2, hplay⟩
    rw [if_pos hall, hset]
    refine Spot.news ?_ hu fun _ => .showCard rfl rfl
    exact h.congr hnb fun _ => rfl
  · have hset : t.mEngine.setCard c q = (false, t.mEngine) := if_neg hplay
    rw [hset, if_neg Bool.false_ne_true, if_neg fun hall => hplay hall.2.2.2]
    exact .stay

/-- What a request makes the table tell a player. -/
theorem Spot.executeRequest (ht : t.Open) (dealer : Dealer) (srcUuid : ℕ) (json : JsonValue)
    (htaker : t.mEngine.mSequence = .waitForShowDog →
      t.mEngine.mCtx.mBid.taker.value < t.nbPlayers) :
    News (t.executeRequest dealer srcUuid json).table.mEngine p
      (t.requestAction dealer srcUuid json)
      (messagesTo u (t.executeRequest dealer srcUuid json).out) :=
  request_cases (R := fun r a => News r.table.mEngine p a (messagesTo u r.out)) dealer t srcUuid
    json .stay (fun _ => h.executeAck hu ht dealer srcUuid json htaker)
    (fun _ => h.executeNewGame hu srcUuid json) (fun _ => h.executeReplyBid hu srcUuid json)
    (fun _ => h.executeDiscard hu srcUuid json) (fun _ => h.executeReplyKingCall hu srcUuid json)
    (fun _ => h.executeHandle hu srcUuid json) (fun _ => h.executeCard hu srcUuid json)

end

end PlayingTable

end TarotClub
