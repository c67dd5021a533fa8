import TarotClub.Progress
import TarotClub.TurnOrder

/-! How long a deal takes. Every move of the engine uses up a part of what the deal provides for:
each player bids once, plays each card once, and is asked for a handle once. -/
namespace TarotClub

open Machine

namespace Engine

/-- The action is part of a deal. -/
def Action.isMove : Action → Bool
  | .stay | .newGame | .newDeal _ => false
  | _ => true

theorem Action.isRestart_of_isMove {a : Action} (h : a.isMove = true) : a.isRestart = false := by
  cases a <;> first | rfl | cases h

/-- The moves from the start of the play to the end of the deal: a card is played and shown, a trick
is shown before the next one begins, and each player may be asked for a handle and show it. -/
def playLength (n : ℕ) : ℕ :=
  2 * (n * numberOfCardsInHand n) + (numberOfCardsInHand n - 1) + 2 * n + 1

/-- The moves behind the auction: five players also call a king. -/
def contractLength (n : ℕ) : ℕ := playLength n + if n = 5 then 4 else 2

/-- The moves of a whole deal: the cards are looked at, and each player bids and shows the bid. -/
def dealLength (n : ℕ) : ℕ := contractLength n + 2 * n + 1

/-- The players who have not been asked for a handle yet. -/
def unasked (n : ℕ) (asked : ℕ → Bool) : ℕ := (List.range n).countP fun i => !asked i

/-- The moves that the play still has when a card is awaited. -/
def playToGo (n position trickCounter : ℕ) (asked : ℕ → Bool) : ℕ :=
  2 * (n * (numberOfCardsInHand n - trickCounter) - position) +
    (numberOfCardsInHand n - 1 - trickCounter) +
    if trickCounter = 0 then 2 * unasked n asked else 0

/-- The moves that the deal still has. -/
def toGo (n : ℕ) (e : Engine) : ℕ :=
  let play := playToGo n e.mPosition e.mTrickCounter e.mHandleAsked
  match e.mSequence with
  | .waitForCards => dealLength n
  | .waitForBid => contractLength n + 2 * (n - e.mPosition)
  | .waitForShowBid => contractLength n + 2 * (n - e.mPosition) + 1
  | .waitForKingCall => playLength n + 4
  | .waitForShowKingCall => playLength n + 3
  | .waitForShowDog => playLength n + 2
  | .waitForDiscard => playLength n + 1
  | .waitForStartDeal | .waitForShowHandle | .waitForShowCard | .waitForEndOfTrick => play + 1
  | .waitForHandle => play + 2
  | .waitForPlayedCard => play
  | _ => 0

/-- The bids are counted from the deal on: a bid is awaited from a player who has not bid. -/
def Counted (n : ℕ) (e : Engine) : Prop :=
  match e.mSequence with
  | .waitForCards => e.mPosition = 0 ∧ e.mCtx.mBid.slam = false
  | .waitForBid => e.mPosition < n
  | .waitForShowBid => e.mPosition ≤ n ∧ e.mCurrentPlayer.value < n
  | _ => True

variable {n : ℕ} {plays : List (Card × Place)} {e : Engine}

theorem counted_of_isPastAuction (h : e.mSequence.isPastAuction = true) : e.Counted n := by
  unfold Counted
  cases hseq : e.mSequence <;> simp_all [Sequence.isPastAuction]

/-- Every action keeps the count. -/
theorem Counted.act (h : e.Counted n) (hn : e.mCtx.mNbPlayers = n) (h0 : 0 < n) (hn5 : n ≤ 5)
    {a : Action} (ha : e.Enabled a) : (e.act a).Counted n := by
  by_cases hl : a.isLate = true
  · exact counted_of_isPastAuction (act_isLate_mSequence ha hl)
  cases a with
  | stay => exact h
  | newGame => trivial
  | newDeal deal =>
    exact ⟨newDeal_mPosition e deal, congrArg Bid.slam (newDeal_mBid e deal)⟩
  | bid c slam p =>
    have hpos : e.mPosition < n := by simpa only [Counted, ha.1] using h
    have hu8 : u8 (e.mPosition + 1) = e.mPosition + 1 := Nat.mod_eq_of_lt (by omega)
    constructor
    · calc u8 (e.mPosition + 1) = e.mPosition + 1 := hu8
        _ ≤ n := hpos
    · change (e.mCurrentPlayer.next e.mCtx.mNbPlayers).value < n
      rw [hn]
      exact Place.next_value_lt _ h0
  | bidSequence =>
    rcases act_bidSequence_cases e with ⟨hpos, -, hact⟩ | ⟨-, -, -, -, ⟨-, hs⟩ | ⟨-, hs⟩⟩
    · rw [hact]
      exact hn ▸ hpos
    · simp only [Counted, hs]
    · exact counted_of_isPastAuction hs
  | _ => exact absurd rfl hl

/-! The auction and what follows it. -/

theorem playToGo_le_playLength (n : ℕ) (asked : ℕ → Bool) :
    playToGo n 0 0 asked + 1 ≤ playLength n := by
  have hall : unasked n asked ≤ n := by
    calc unasked n asked ≤ (List.range n).length := List.countP_le_length
      _ = n := List.length_range
  unfold playToGo playLength
  rw [if_pos rfl]
  simp only [Nat.sub_zero]
  omega

/-- The start of the play finds the counters at zero. -/
theorem toGo_startDeal (n : ℕ) (hs : e.mSequence = .waitForStartDeal) :
    e.startDeal.2.toGo n ≤ playLength n := by
  have hseq : e.startDeal.2.mSequence = .waitForStartDeal := hs
  simp only [toGo, hseq]
  exact playToGo_le_playLength n _

theorem toGo_manageAfterBid (n : ℕ) (e : Engine) :
    (e.act .manageAfterBid).toGo n ≤ playLength n + 2 := by
  rw [act]
  rcases manageAfterBidSequence_mSequence e with hs | hs
  · have hseq := (startIfReady_mSequence e.manageAfterBidSequence).trans hs
    simp only [toGo, hseq]
    exact le_rfl
  · rw [startIfReady, if_pos hs]
    exact (toGo_startDeal n hs).trans (Nat.le_add_right _ _)

/-- An auction that is closed has used up its part. -/
theorem toGo_bidSequence (hn : e.mCtx.mNbPlayers = n) :
    (e.mPosition < n ∧ e.act .bidSequence = { e with mSequence := .waitForBid }) ∨
      (e.act .bidSequence).toGo n ≤ contractLength n := by
  rcases act_bidSequence_cases e with ⟨hpos, -, hact⟩ | ⟨hclosed, -, -, -, -⟩
  · exact .inl ⟨hn ▸ hpos, hact⟩
  right
  have hcond : (e.isEndOfTrick.1 || e.mCtx.mBid.slam) = true := by
    unfold isEndOfTrick
    split_ifs with hfull
    · rfl
    · exact hclosed.resolve_left hfull
  have hctx : e.isEndOfTrick.2.mCtx = e.mCtx := by
    unfold isEndOfTrick
    split_ifs <;> rfl
  have hmanage := toGo_manageAfterBid n e.isEndOfTrick.2
  rw [act] at hmanage
  have hle : playLength n + 2 ≤ contractLength n := by
    unfold contractLength
    split_ifs <;> omega
  rw [act, bidSequence]
  simp only [hctx, hcond, if_true, hn]
  split_ifs with hpass hking
  · exact Nat.zero_le _
  · simp only [toGo, startIfReady, reduceCtorEq, if_false, contractLength, hking.1, if_true]
    exact le_rfl
  · exact hmanage.trans hle

/-! The play. -/

/-- A handle is asked for in the first trick, of a player who has not been asked. -/
theorem playOn_handle (h : e.playOn.mSequence = .waitForHandle) :
    e.mTrickCounter = 0 ∧ e.mHandleAsked e.mCurrentPlayer.value = false := by
  have hgs : e.gameSequence.mSequence = .waitForHandle := by
    unfold playOn at h
    split_ifs at h
    · cases h
    · exact h
  simp only [gameSequence, isEndOfTrick] at hgs
  split_ifs at hgs with hfull hend hask
  all_goals simp_all

/-- Who is asked for a handle is not asked again. -/
theorem unasked_update {asked : ℕ → Bool} {i : ℕ} (hi : i < n) (h : asked i = false) :
    unasked n (Function.update asked i true) + 1 = unasked n asked := by
  have hsame : ∀ l : List ℕ, i ∉ l →
      (l.countP fun j => !Function.update asked i true j) = l.countP fun j => !asked j :=
    fun l hl => List.countP_congr fun j hj => by
      have hne : j ≠ i := fun he => hl (he ▸ hj)
      rw [Function.update_of_ne hne]
  have hperm : (List.range n).Perm (i :: (List.range n).erase i) :=
    List.perm_cons_erase (List.mem_range.mpr hi)
  have hnot : i ∉ (List.range n).erase i := List.nodup_range.not_mem_erase
  rw [unasked, unasked, hperm.countP_eq, hperm.countP_eq, List.countP_cons, List.countP_cons,
    hsame _ hnot, Function.update_self, h]
  rfl

/-- The step of the game uses up a part of the play. -/
theorem Playing.toGo_gameSequence (h : e.Playing n plays) (hn : n = 3 ∨ n = 4 ∨ n = 5)
    (hk : e.mTrickCounter < numberOfCardsInHand n) (ha : e.Enabled .gameSequence) :
    (e.act .gameSequence).toGo n < e.toGo n := by
  have hbefore : playToGo n e.mPosition e.mTrickCounter e.mHandleAsked + 1 ≤ e.toGo n := by
    rcases ha with hs | hs | hs | hs | hs <;> simp only [toGo, hs] <;> omega
  refine lt_of_lt_of_le (Nat.lt_succ_of_le ?_) hbefore
  rw [act]
  rcases playOn_cases h.players (sizes hn).2.1 hk with
    ⟨hfull, hact⟩ | ⟨hturn, hact | hact⟩
  · rw [hact]
    split_ifs with hlast
    · exact Nat.zero_le _
    · have hle := h.position
      have hmul : n * (numberOfCardsInHand n - e.mTrickCounter) =
          n * (numberOfCardsInHand n - (e.mTrickCounter + 1)) + n := by
        rw [← Nat.mul_succ]
        congr 1
        omega
      have hstored : e.storeTrick.toGo n =
          playToGo n 0 (e.mTrickCounter + 1) e.mHandleAsked + 1 := rfl
      rw [hstored]
      simp only [playToGo, Nat.succ_ne_zero, if_false]
      omega
  · have hasked := playOn_handle (e := e) (by rw [hact])
    have hlt := (h.turn_spec hn hk hturn).1
    have hcount := unasked_update hlt hasked.2
    rw [hact]
    simp only [toGo, playToGo, hasked.1, if_true]
    omega
  · rw [hact]
    exact le_rfl

/-- A card that is played uses up a part of the play. -/
theorem toGo_card (hpos : e.mPosition < n) (hn5 : n ≤ 5)
    (hk : e.mTrickCounter < numberOfCardsInHand n) {c : Card} {p : Place}
    (ha : e.Enabled (.card c p)) : (e.act (.card c p)).toGo n < e.toGo n := by
  obtain ⟨hseq, -, -, hplay⟩ := ha
  have hu8 : u8 (e.mPosition + 1) = e.mPosition + 1 := Nat.mod_eq_of_lt (by omega)
  have hroom : n ≤ n * (numberOfCardsInHand n - e.mTrickCounter) :=
    Nat.le_mul_of_pos_right n (by omega)
  rw [act, setCard, if_pos hplay, hu8]
  simp only [toGo, hseq, playToGo]
  omega

/-- Every move of a deal brings it nearer to its end. -/
theorem Phase.toGo_lt (h : e.Phase n plays) (hcounted : e.Counted n) (hn : n = 3 ∨ n = 4 ∨ n = 5)
    {a : Action} (ha : e.Enabled a) (hmove : a.isMove = true) :
    (e.act a).toGo n < e.toGo n := by
  have hnb := h.players
  cases a with
  | stay | newGame | newDeal _ => exact absurd hmove Bool.false_ne_true
  | bid c slam p =>
    have hpos : e.mPosition < n := by simpa only [Counted, ha.1] using hcounted
    have hu8 : u8 (e.mPosition + 1) = e.mPosition + 1 := Nat.mod_eq_of_lt (by omega)
    have hact : (e.act (.bid c slam p)).toGo n =
        contractLength n + 2 * (n - (e.mPosition + 1)) + 1 := by
      rw [← hu8]
      rfl
    rw [hact]
    simp only [toGo, ha.1]
    omega
  | bidSequence =>
    rcases ha with hs | hs <;> simp only [Counted, hs] at hcounted <;>
      rcases toGo_bidSequence hnb with ⟨hpos, hact⟩ | hle
    · rw [hact]
      simp only [toGo, hs, dealLength, hcounted.1]
      omega
    · refine hle.trans_lt ?_
      simp only [toGo, hs, dealLength]
      omega
    · rw [hact]
      simp only [toGo, hs]
      omega
    · refine hle.trans_lt ?_
      simp only [toGo, hs]
      omega
  | manageAfterBid =>
    have hle := toGo_manageAfterBid n e
    simp only [toGo, show e.mSequence = _ from ha] at hle ⊢
    omega
  | discardSequence =>
    have hact : (e.act .discardSequence).toGo n = playLength n + 1 := rfl
    rw [hact]
    simp only [toGo, show e.mSequence = _ from ha]
    omega
  | discard cards =>
    have hle := toGo_startDeal (e := (e.setDiscard cards).2) n (by rw [setDiscard, if_pos ha.2])
    rw [Engine.act]
    simp only [toGo, ha.1] at hle ⊢
    omega
  | kingCall c =>
    rw [Engine.act, setKingCalled, if_pos ha.2]
    simp only [toGo, ha.1]
    omega
  | handle cards p =>
    rw [Engine.act, setHandle, if_pos ha.2.2]
    simp only [toGo, ha.1]
    omega
  | gameSequence =>
    have h' : e.Playing n plays ∧ e.mTrickCounter < numberOfCardsInHand n := by
      rcases ha with hs | hs | hs | hs | hs <;> simp only [Phase, hs] at h
      case inr.inr.inr.inl => exact h
      all_goals exact ⟨h.1, h.2.1⟩
    exact h'.1.toGo_gameSequence hn h'.2 ha
  | card c p =>
    simp only [Phase, ha.1] at h
    exact toGo_card h.2.2 (by omega) h.2.1 ha

/-- The moves of a deal are provided for when the cards are given out. -/
theorem Phase.consumes (h : e.Phase n plays) (hcounted : e.Counted n) (hn : n = 3 ∨ n = 4 ∨ n = 5)
    {a : Action} (ha : e.Enabled a) :
    (e.act a).toGo n + (if a.isMove then 1 else 0) ≤
      e.toGo n + if a.isNewDeal then dealLength n else 0 := by
  by_cases hmove : a.isMove = true
  · have hlt := h.toGo_lt hcounted hn ha hmove
    rw [if_pos hmove]
    omega
  · rw [if_neg hmove]
    cases a with
    | stay => exact Nat.le_add_right _ _
    | newGame => exact Nat.zero_le _
    | newDeal deal =>
      have hact : (e.act (.newDeal deal)).toGo n = dealLength n := rfl
      rw [hact]
      simp only [Action.isNewDeal, if_true]
      omega
    | _ => exact absurd rfl hmove

end Engine

namespace PlayingTable

/-- What holds at a table whose deals come to an end. -/
structure Paced (n : ℕ) (t : PlayingTable) : Prop where
  inDeal : ∃ plays, t.InDeal n plays
  counted : t.mEngine.Counted n
  toGo_le : t.mEngine.toGo n ≤ Engine.dealLength n

variable {n : ℕ}

theorem createTable_paced (t : PlayingTable) (randomPlace : Place) (hn : n = 3 ∨ n = 4 ∨ n = 5) :
    (t.createTable n randomPlace).Paced n :=
  ⟨⟨[], createTable_inDeal t randomPlace hn⟩, trivial, Nat.zero_le _⟩

/-- What a call does comes out of what the deal still has, unless it gives out new cards. -/
theorem Paced.consumes {t : PlayingTable} (h : t.Paced n) (hn : n = 3 ∨ n = 4 ∨ n = 5) (c : Call) :
    Consumes PlayingTable.apply action (fun s => s.mEngine.toGo n) Engine.Action.isMove
      Engine.Action.isNewDeal (Engine.dealLength n) t c := by
  obtain ⟨plays, hdeal⟩ := h.inDeal
  have hstep := hdeal.phase.consumes h.counted hn (hdeal.action_enabled c)
  rwa [← apply_mEngine] at hstep

theorem Paced.act {t : PlayingTable} (h : t.Paced n) (hn : n = 3 ∨ n = 4 ∨ n = 5) {c : Call}
    (hbid : t.BidCounts c) (hfair : ∀ deal, t.action c = .newDeal deal → deal.Fair n) :
    (t.apply c).Paced n := by
  obtain ⟨plays, hdeal⟩ := h.inDeal
  refine ⟨⟨_, hdeal.act hn hbid hfair⟩, ?_, ?_⟩
  · rw [apply_mEngine]
    exact h.counted.act hdeal.players (by omega) (by omega) (hdeal.action_enabled c)
  · by_cases hnew : (t.action c).isNewDeal = true
    · obtain ⟨deal, hd⟩ := Engine.Action.eq_newDeal hnew
      rw [apply_mEngine, hd]
      exact le_rfl
    · have hstep := h.consumes hn c
      have hle := h.toGo_le
      rw [Consumes, if_neg hnew] at hstep
      omega

theorem Paced.apply {t : PlayingTable} (h : t.Paced n) (hn : n = 3 ∨ n = 4 ∨ n = 5) {c : Call}
    (hc : t.FairCall n c) : (t.apply c).Paced n := by
  obtain ⟨plays, hdeal⟩ := h.inDeal
  exact h.act hn hc.1 (hdeal.fair hc.2)

/-- From any point of a run on, and as long as no new deal begins: the moves that the table accepts,
with those that the deal still has behind them, are at most those that it had, and a deal never has
more than `dealLength n` of them. -/
theorem deal_moves_le (t : PlayingTable) (randomPlace : Place) (hn : n = 3 ∨ n = 4 ∨ n = 5)
    (before cs : List Call) (hbids : ∀ c ∈ before ++ cs, c.NamesContract)
    (hdeals : ∀ c ∈ before ++ cs, c.DealsFairly n) :
    let s := run PlayingTable.apply (t.createTable n randomPlace) before
    (∀ a ∈ s.actions cs, a.isNewDeal = false) →
      (s.actions cs).countP Engine.Action.isMove +
          (run PlayingTable.apply s cs).mEngine.toGo n ≤ s.mEngine.toGo n ∧
        s.mEngine.toGo n ≤ Engine.dealLength n := by
  intro s hsame
  have hguard := guarded_fairCall (guarded_bidCounts (t.createTable n randomPlace) hbids) hdeals
  obtain ⟨hbefore, hcs⟩ := (guarded_append _ _ _ before cs).mp hguard
  have hpaced : s.Paced n := hbefore.invariant (Paced n) (fun s c hs hc => hs.apply hn hc)
    (createTable_paced t randomPlace hn)
  have hle := hcs.countP_works_le (Paced n) (fun s c hs hc => hs.apply hn hc)
    (fun s c hs _ => hs.consumes hn c) hpaced
  have hnone : (s.actions cs).countP Engine.Action.isNewDeal = 0 :=
    List.countP_eq_zero.mpr fun a ha => Bool.eq_false_iff.mp (hsame a ha)
  rw [← actions, hnone, Nat.mul_zero, Nat.add_zero] at hle
  exact ⟨hle, hpaced.toGo_le⟩

/-- The taker has bid, and the player who begins has been asked for a handle: nine moves since the
cards have been given out, and at most 171 to go. -/
theorem deal_moves_le_beginning :
    let s := run PlayingTable.apply (({} : PlayingTable).createTable 3 .south)
      (beginningCalls.take 9)
    let moves := (s.actions (beginningCalls.drop 9)).countP Engine.Action.isMove
    let toGo := (run PlayingTable.apply s (beginningCalls.drop 9)).mEngine.toGo 3
    s.mEngine.toGo 3 = 183 ∧ moves = 9 ∧ toGo = 171 ∧ moves + toGo ≤ s.mEngine.toGo 3 := by
  have hcalls : beginningCalls.take 9 ++ beginningCalls.drop 9 = beginningCalls :=
    List.take_append_drop 9 beginningCalls
  refine ⟨by decide +kernel, by decide +kernel, by decide +kernel, ?_⟩
  exact (deal_moves_le {} .south (.inl rfl) (beginningCalls.take 9) (beginningCalls.drop 9)
    (by rw [hcalls]; decide +kernel)
    (by rw [hcalls]; exact beginningCalls_dealsFairly) (by decide +kernel)).1

end PlayingTable

end TarotClub
