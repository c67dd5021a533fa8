import TarotClub.CardConservation

namespace TarotClub

open Machine

/-- The play has begun. -/
def Sequence.isPlay : Sequence → Bool
  | .waitForStartDeal | .waitForHandle | .waitForShowHandle | .waitForPlayedCard
  | .waitForShowCard | .waitForEndOfTrick | .waitForEndOfDeal => true
  | _ => false

/-- What is written down in the course of a deal: the cards that `SetCard` accepts with the
seats they come from, and the seats that `SetTrick` returns. -/
structure Course where
  plays : List (Card × Place) := []
  winners : List Place := []

namespace Engine

open TarotContext (seatAfter turnOf seated)

def noteWinner (e : Engine) (a : Action) (winners : List Place) : List Place :=
  match a with
  | .newDeal _ => []
  | .gameSequence =>
    if e.mCtx.mNbPlayers ≤ e.mPosition then
      winners ++ [(e.mCtx.setTrick e.currentTrick (u8 (e.mTrickCounter + 1))).1]
    else winners
  | _ => winners

variable {n : ℕ} {plays : List (Card × Place)} {winners : List Place} {e : Engine}

/-- The pieces of a list that is put together from pieces of one length. -/
theorem length_flatMap_range {α : Type*} {f : ℕ → List α} {n k : ℕ}
    (hf : ∀ j < k, (f j).length = n) : ((List.range k).flatMap f).length = k * n := by
  rw [List.length_flatMap, List.map_congr_left fun i hi => hf i (List.mem_range.mp hi),
    List.map_const', List.length_range, List.sum_replicate_nat]

theorem take_drop_flatMap {α : Type*} {f : ℕ → List α} {n k : ℕ} (rest : List α)
    (hf : ∀ j < k, (f j).length = n) {j : ℕ} (hj : j < k) :
    (((List.range k).flatMap f ++ rest).drop (j * n)).take n = f j := by
  obtain ⟨m, rfl⟩ : ∃ m, k = j + (m + 1) := ⟨k - j - 1, by omega⟩
  have hlen : ((List.range j).flatMap f).length = j * n :=
    length_flatMap_range fun i hi => hf i (by omega)
  rw [List.range_add, List.flatMap_append, List.append_assoc, List.drop_left' hlen,
    List.range_succ_eq_map, List.map_cons, List.flatMap_cons, List.append_assoc]
  exact List.take_left' (hf j hj)

namespace Playing

variable (h : e.Playing n plays) (hn : n = 3 ∨ n = 4 ∨ n = 5)
include h

theorem length_chunk (hn : n = 3 ∨ n = 4 ∨ n = 5) {j : ℕ} (hj : j < e.mTrickCounter) :
    (seated n (e.mCtx.leadOf j) (e.mCtx.mTricks j).mDeck).length = n := by
  have hj24 : j < 24 := by
    have := h.counter
    have := (sizes hn).2.1
    omega
  have hsize := h.tricks j hj24
  rw [if_pos hj] at hsize
  rw [TarotContext.length_seated]
  exact hsize

include hn

/-- The plays of a trick that is stored. -/
theorem plays_of_trick {j : ℕ} (hj : j < e.mTrickCounter) :
    (plays.drop (j * n)).take n = seated n (e.mCtx.leadOf j) (e.mCtx.mTricks j).mDeck := by
  rw [h.plays_eq]
  exact take_drop_flatMap _ (fun i hi => h.length_chunk hn hi) hj

/-- The plays of the trick on the table. -/
theorem plays_of_current : plays.drop (e.mTrickCounter * n) =
    seated n (e.mCtx.leadOf e.mTrickCounter) e.currentTrick.mDeck := by
  conv_lhs => rw [h.plays_eq]
  exact List.drop_left' (length_flatMap_range fun i hi => h.length_chunk hn hi)

theorem length_plays : plays.length = e.mTrickCounter * n + e.mPosition := by
  rw [h.plays_eq, List.length_append, length_flatMap_range fun i hi => h.length_chunk hn hi,
    TarotContext.length_seated, ← h.current]
  rfl

/-- The lead plays the first card of a trick. -/
theorem first_play {j : ℕ} {play : Card × Place} (hplay : plays[j * n]? = some play) :
    j ≤ e.mTrickCounter ∧ play.2 = e.mCtx.leadOf j := by
  have hlt : j * n < e.mTrickCounter * n + e.mPosition := by
    rw [← h.length_plays hn]
    exact (List.getElem?_eq_some_iff.mp hplay).1
  have hj : j < e.mTrickCounter + 1 := by
    refine Nat.lt_of_mul_lt_mul_right (a := n) ?_
    rw [Nat.succ_mul]
    exact lt_of_lt_of_le hlt (Nat.add_le_add_left h.position _)
  have hfirst : ∃ cards, (seated n (e.mCtx.leadOf j) cards)[0]? = some play := by
    rcases Nat.lt_succ_iff_lt_or_eq.mp hj with hj | rfl
    · refine ⟨(e.mCtx.mTricks j).mDeck, ?_⟩
      rw [← h.plays_of_trick hn hj, List.getElem?_take_of_lt (by omega), List.getElem?_drop]
      exact hplay
    · refine ⟨e.currentTrick.mDeck, ?_⟩
      rw [← h.plays_of_current hn, List.getElem?_drop]
      exact hplay
  obtain ⟨cards, hcards⟩ := hfirst
  rw [TarotContext.getElem?_seated] at hcards
  obtain ⟨c, -, rfl⟩ := Option.map_eq_some_iff.mp hcards
  exact ⟨Nat.lt_succ_iff.mp hj, rfl⟩

theorem mTrickCounter_eq_zero (hplays : plays = []) : e.mTrickCounter = 0 := by
  have hlen := h.length_plays hn
  rw [hplays, List.length_nil] at hlen
  rcases Nat.eq_zero_or_pos e.mTrickCounter with h0 | h0
  · exact h0
  · have := Nat.mul_le_mul h0 (show 1 ≤ n by omega)
    omega

/-- The context finds the seat of every card of a stored trick. -/
theorem seated_eq_getOwner {j : ℕ} (hj : j < e.mTrickCounter) :
    seated n (e.mCtx.leadOf j) (e.mCtx.mTricks j).mDeck =
      (e.mCtx.mTricks j).mDeck.map fun c => (c, e.mCtx.getOwner (e.mCtx.leadOf j) c j) := by
  have hlen := h.length_chunk hn hj
  rw [TarotContext.length_seated] at hlen
  have hj24 : j < 24 := by
    have := h.counter
    have := (sizes hn).2.1
    omega
  have hnodup : (e.mCtx.mTricks j).mDeck.Nodup :=
    Multiset.coe_nodup.mp (nodup_of_le_cards h.cards (trick_le_cards e hj24))
  refine List.ext_getElem? fun i => ?_
  rw [TarotContext.getElem?_seated, List.getElem?_map]
  by_cases hi : i < (e.mCtx.mTricks j).mDeck.length
  · rw [List.getElem?_eq_getElem hi, Option.map_some, Option.map_some, TarotContext.getOwner_eq,
      hnodup.idxOf_getElem, Deck.size, hlen, Nat.mod_eq_of_lt (by omega)]
  · rw [List.getElem?_eq_none (not_lt.mp hi), Option.map_none, Option.map_none]

/-- The player in turn has not played to the trick on the table, and has a card left. -/
theorem turn_spec (hk : e.mTrickCounter < numberOfCardsInHand n) (hpos : e.mPosition < n) :
    e.mCurrentPlayer.value < n ∧
      (∀ play ∈ plays.drop (e.mTrickCounter * n), play.2 ≠ e.mCurrentPlayer) ∧
      0 < (e.mPlayers e.mCurrentPlayer.value).size := by
  have hn5 : n ≤ 5 := by omega
  have hturn := TarotContext.turnOf_seatAfter hn5 h.lead hpos
  have hlt : e.mCurrentPlayer.value < n := by
    rw [h.turn]
    exact TarotContext.seatAfter_lt hn5 h.lead _
  refine ⟨hlt, fun play hplay => ?_, ?_⟩
  · rw [h.plays_of_current hn] at hplay
    obtain ⟨i, hi⟩ := List.mem_iff_getElem?.mp hplay
    have hi' : i < e.mPosition := by
      have hlen : i < (seated n (e.mCtx.leadOf e.mTrickCounter) e.currentTrick.mDeck).length :=
        (List.getElem?_eq_some_iff.mp hi).1
      rw [TarotContext.length_seated] at hlen
      exact h.current ▸ hlen
    rw [TarotContext.getElem?_seated] at hi
    obtain ⟨c, -, rfl⟩ := Option.map_eq_some_iff.mp hi
    intro hsame
    have hi'' := TarotContext.turnOf_seatAfter hn5 h.lead (hi'.trans hpos)
    rw [show seatAfter (e.mCtx.leadOf e.mTrickCounter) n i = _ from hsame, h.turn, hturn] at hi''
    omega
  · have hhand := h.hands _ hlt
    rw [h.turn] at hhand ⊢
    rw [hturn, if_neg (lt_irrefl _)] at hhand
    omega

end Playing

/-! The seats that `SetTrick` returns are the leads of the tricks. -/

theorem Phase.playing (h : e.Phase n plays) (hs : e.mSequence.isPlay = true) :
    e.Playing n plays := by
  unfold Phase at h
  cases hseq : e.mSequence <;> simp only [hseq, Sequence.isPlay, Bool.false_eq_true] at h hs
  all_goals exact h.1

/-- The actions between the deal and the play. -/
def Action.isEarly : Action → Bool
  | .bid _ _ _ | .bidSequence | .manageAfterBid | .discardSequence | .discard _
  | .kingCall _ => true
  | _ => false

/-- Until the play begins nothing is written down. -/
theorem Phase.plays_eq_nil (h : e.Phase n plays) {a : Action} (ha : e.Enabled a)
    (hl : a.isEarly = true) : plays = [] := by
  unfold Phase at h
  cases a <;> simp only [Action.isEarly, Bool.false_eq_true] at hl
  case bidSequence => rcases ha with hs | hs <;> simp only [hs] at h <;> exact h.2
  case manageAfterBid | discardSequence =>
    simp only [show e.mSequence = _ from ha] at h
    exact h.2
  all_goals
    simp only [ha.1] at h
    exact h.2

/-- The seats that `SetTrick` has returned lead the tricks behind the first one. -/
structure Led (plays : List (Card × Place)) (winners : List Place) (e : Engine) : Prop where
  empty : plays = [] → winners = []
  winners : e.mSequence.isPlay = true →
    winners = (List.range e.mTrickCounter).map fun j => e.mCtx.leadOf (j + 1)

/-- The same tricks are stored. -/
theorem Led.congr {e' : Engine} (h : e.Led plays winners) (hs : e.mSequence.isPlay = true)
    (hk : e'.mTrickCounter = e.mTrickCounter) (hlead : e'.mCtx.leadOf = e.mCtx.leadOf) :
    e'.Led plays winners :=
  ⟨h.empty, fun _ => by rw [hk, hlead]; exact h.winners hs⟩

theorem Led.gameSequence (h : e.Led plays winners) (hp : e.Playing n plays)
    (hn : n = 3 ∨ n = 4 ∨ n = 5) (hs : e.mSequence.isPlay = true)
    (hk : e.mTrickCounter < numberOfCardsInHand n) :
    (e.act .gameSequence).Led plays (e.noteWinner .gameSequence winners) := by
  have hk24 : e.mTrickCounter < 24 := lt_of_lt_of_le hk (sizes hn).2.1
  rw [act, noteWinner, hp.players]
  rcases playOn_cases hp.players (sizes hn).2.1 hk with ⟨hpos, hact⟩ | ⟨hpos, hact⟩
  · have hu8 : u8 (e.mTrickCounter + 1) = e.mTrickCounter + 1 := Nat.mod_eq_of_lt (by omega)
    have hstored : e.storeTrick.Led plays (winners ++ [e.storeTrick.mCurrentPlayer]) := by
      refine ⟨fun hnil => ?_, fun _ => ?_⟩
      · have hlen := hp.length_plays hn
        rw [hnil, List.length_nil] at hlen
        omega
      · have hleads : (List.range e.mTrickCounter).map (fun j => e.storeTrick.mCtx.leadOf (j + 1)) =
            (List.range e.mTrickCounter).map fun j => e.mCtx.leadOf (j + 1) :=
          List.map_congr_left fun j hj => storeTrick_leadOf hk24 (List.mem_range.mp hj)
        rw [show e.storeTrick.mTrickCounter = e.mTrickCounter + 1 from rfl, List.range_succ,
          List.map_append, List.map_singleton, storeTrick_leadOf_succ hk24, hleads, h.winners hs]
    have hreturned : (e.mCtx.setTrick e.currentTrick (e.mTrickCounter + 1)).1 =
        e.storeTrick.mCurrentPlayer := rfl
    have hseq : e.storeTrick.mSequence.isPlay = true := rfl
    rw [if_pos hpos, hu8, hreturned, hact]
    generalize e.storeTrick = r at hstored hseq ⊢
    split_ifs
    · exact hstored.congr hseq rfl rfl
    · exact hstored
  · rw [if_neg (not_le.mpr hpos)]
    rcases hact with hact | hact <;> rw [hact] <;> exact h.congr hs rfl rfl

theorem Led.act (h : e.Led plays winners) (hp : e.Phase n plays) (hn : n = 3 ∨ n = 4 ∨ n = 5)
    {a : Action} (ha : e.Enabled a) (hp' : (e.act a).Phase n (e.notePlay a plays)) :
    (e.act a).Led (e.notePlay a plays) (e.noteWinner a winners) := by
  by_cases hl : a.isEarly = true
  · have hnil := hp.plays_eq_nil ha hl
    have hlog : e.notePlay a plays = plays ∧ e.noteWinner a winners = winners := by
      cases a <;> first | exact ⟨rfl, rfl⟩ | exact absurd hl Bool.false_ne_true
    rw [hlog.1] at hp' ⊢
    rw [hlog.2]
    refine ⟨h.empty, fun hs => ?_⟩
    rw [(hp'.playing hs).mTrickCounter_eq_zero hn hnil]
    exact h.empty hnil
  cases a with
  | stay => exact h
  | newGame => exact ⟨h.empty, fun hs => absurd hs Bool.false_ne_true⟩
  | newDeal deal => exact ⟨fun _ => rfl, fun hs => absurd hs Bool.false_ne_true⟩
  | handle cards p =>
    have hs : e.mSequence.isPlay = true := by rw [ha.1]; rfl
    rw [Engine.act, setHandle, if_pos ha.2.2]
    refine h.congr hs rfl ?_
    dsimp only [TarotContext.setHandle]
    split_ifs <;> rfl
  | card c p =>
    have hs : e.mSequence.isPlay = true := by rw [ha.1]; rfl
    have hk : (e.act (.card c p)).mTrickCounter = e.mTrickCounter := by
      rw [Engine.act, setCard, if_pos ha.2.2.2]
    have hlead : (e.act (.card c p)).mCtx.leadOf = e.mCtx.leadOf := by
      rw [Engine.act, setCard, if_pos ha.2.2.2]
    refine ⟨fun hnil => ?_, fun _ => by rw [hk, hlead]; exact h.winners hs⟩
    simp [notePlay] at hnil
  | gameSequence =>
    have h' : e.Playing n plays ∧ e.mTrickCounter < numberOfCardsInHand n ∧
        e.mSequence.isPlay = true := by
      rcases ha with hs | hs | hs | hs | hs <;> simp only [Phase, hs] at hp <;>
        exact ⟨hp.1, by tauto, by rw [hs]; rfl⟩
    exact h.gameSequence h'.1 hn h'.2.2 h'.2.1
  | _ => exact absurd rfl hl

end Engine

namespace PlayingTable

/-- The recorder of a table. -/
def noteTurns (t : PlayingTable) (c : Call) (course : Course) : Course :=
  { plays := t.notePlay c course.plays
    winners := t.mEngine.noteWinner (t.action c) course.winners }

/-- In every run of a table with `n` seats, and in every step of the play: the cards accepted
by `SetCard` in a trick came from the seats that `GetOwner` computes for them; who plays the
first card of another trick was returned by `SetTrick`; and a player who is asked for a card
sits at the table, has not played to the trick yet and has a card left. -/
theorem turn_trackers_agree (t : PlayingTable) (randomPlace : Place) {n : ℕ}
    (hn : n = 3 ∨ n = 4 ∨ n = 5) {cs : List Call}
    (hbids : Guarded PlayingTable.apply BidCounts (t.createTable n randomPlace) cs)
    (hdeals : ∀ c ∈ cs, c.DealsFairly n) :
    let s := run (observe PlayingTable.apply noteTurns) (t.createTable n randomPlace, {}) cs
    let e := s.1.mEngine
    let course := s.2
    (e.mSequence.isPlay = true →
      (∀ j < e.mTrickCounter, (e.mCtx.mTricks j).size = n ∧
        (course.plays.drop (j * n)).take n =
          (e.mCtx.mTricks j).mDeck.map fun c => (c, e.mCtx.getOwner (e.mCtx.leadOf j) c j)) ∧
      course.winners.length = e.mTrickCounter ∧
      ∀ j play, course.plays[(j + 1) * n]? = some play →
        course.winners[j]? = some play.2) ∧
    (e.mSequence = .waitForPlayedCard → e.mCurrentPlayer.value < n ∧
      (∀ play ∈ course.plays.drop (e.mTrickCounter * n), play.2 ≠ e.mCurrentPlayer) ∧
      0 < (e.mPlayers e.mCurrentPlayer.value).size) := by
  intro s e course
  have hinv : s.1.InDeal n course.plays ∧ e.Led course.plays course.winners := by
    refine (guarded_observe noteTurns (p := (t.createTable n randomPlace, {}))
      (guarded_fairCall hbids hdeals)).invariant (fun q : PlayingTable × Course =>
        q.1.InDeal n q.2.plays ∧ q.1.mEngine.Led q.2.plays q.2.winners) ?_
      ⟨createTable_inDeal t randomPlace hn, fun _ => rfl, fun hs => absurd hs Bool.false_ne_true⟩
    rintro q c ⟨hdeal, hled⟩ hc
    have hnext := hdeal.apply hn hc
    refine ⟨hnext, ?_⟩
    have hphase := hnext.phase
    simp only [observe, noteTurns]
    rw [apply_mEngine] at hphase ⊢
    exact hled.act hdeal.phase hn (hdeal.action_enabled c) hphase
  obtain ⟨hdeal, hled⟩ := hinv
  refine ⟨fun hs => ?_, fun hs => ?_⟩
  · have hplay := hdeal.phase.playing hs
    have hwinners := hled.winners hs
    refine ⟨fun j hj => ⟨?_, ?_⟩, ?_, fun j play hj => ?_⟩
    · rw [Deck.size, ← TarotContext.length_seated n (e.mCtx.leadOf j)]
      exact hplay.length_chunk hn hj
    · rw [hplay.plays_of_trick hn hj, hplay.seated_eq_getOwner hn hj]
    · rw [hwinners, List.length_map, List.length_range]
    · obtain ⟨hle, hlead⟩ := hplay.first_play hn hj
      rw [hwinners, List.getElem?_map, List.getElem?_range hle, hlead, Option.map_some]
  · have hphase : e.Phase n course.plays := hdeal.phase
    simp only [Engine.Phase, hs] at hphase
    exact hphase.1.turn_spec hn hphase.2.1 hphase.2.2

theorem biddingCalls_dealsFairly {n : ℕ} {dealer : Dealer}
    (hd : ∀ distribution, (dealer n distribution).Fair n) (bids : List (ℕ × JsonValue)) :
    ∀ c ∈ biddingCalls dealer bids, c.DealsFairly n := by
  have he := everyone_dealsFairly hd [7, 8, 9]
  simp only [biddingCalls, List.forall_mem_append, List.forall_mem_flatMap, List.forall_mem_cons]
  exact ⟨⟨⟨⟨⟨trivial, trivial, trivial, by simp⟩, he _⟩, he _⟩, he _⟩, fun _ _ => ⟨hd, he _⟩⟩

/-- The player who begins is the taker, and has no handle. -/
def beginningCalls : List Call :=
  biddingCalls plainDealer [(9, PlayerContext.buildReplyBid .guardWithout false),
    (7, PlayerContext.buildReplyBid .pass false), (8, PlayerContext.buildReplyBid .pass false)] ++
  (everyone plainDealer [7, 8, 9] .waitForStartDeal ++
    [.executeRequest plainDealer 9 (PlayerContext.buildHandle {})])

theorem beginningCalls_dealsFairly : ∀ c ∈ beginningCalls, c.DealsFairly 3 := by
  have hdealer : ∀ distribution, (plainDealer 3 distribution).Fair 3 :=
    plainDealer_fair (.inl rfl)
  exact List.forall_mem_append.mpr ⟨biddingCalls_dealsFairly hdealer _,
    List.forall_mem_append.mpr ⟨everyone_dealsFairly hdealer _ _,
      List.forall_mem_singleton.mpr hdealer⟩⟩

/-- A whole deal, and the first card that a player is asked for. -/
theorem turn_trackers_agree_three :
    let played := run (observe PlayingTable.apply noteTurns)
      (({} : PlayingTable).createTable 3 .south, {}) (dealCalls plainDealer)
    let asked := run (observe PlayingTable.apply noteTurns)
      (({} : PlayingTable).createTable 3 .south, {}) beginningCalls
    (played.1.mEngine.mSequence = .waitForEndOfDeal ∧ played.2.winners.length = 24 ∧
        ∀ j < 24, (played.1.mEngine.mCtx.mTricks j).size = 3) ∧
      asked.1.mEngine.mSequence = .waitForPlayedCard ∧
        asked.1.mEngine.mCurrentPlayer.value < 3 := by
  have hasked := turn_trackers_agree {} .south (.inl rfl)
    (guarded_bidCounts _ (by decide +kernel)) beginningCalls_dealsFairly
  refine ⟨?_, by decide +kernel, (hasked.2 (by decide +kernel)).1⟩
  have hends := playedThree_ends
  have hdeals := dealCalls_dealsFairly (plainDealer_fair (.inl rfl))
  generalize plainDealer = dealer at hends hdeals ⊢
  have hplayed := turn_trackers_agree {} .south (.inl rfl)
    (guarded_bidCounts _ (dealCalls_named dealer)) hdeals
  have hrun : (run (observe PlayingTable.apply noteTurns)
      (({} : PlayingTable).createTable 3 .south, {}) (dealCalls dealer)).1 = playedThree dealer :=
    (run_observe_fst _ _ _ _).trans (run_dealCalls dealer)
  generalize run (observe PlayingTable.apply noteTurns) _ (dealCalls dealer) = s
    at hplayed hrun ⊢
  rw [← hrun] at hends
  obtain ⟨hend, hcounter⟩ := hends
  obtain ⟨htricks, hwinners, -⟩ := hplayed.1 (by rw [hend]; rfl)
  rw [hcounter] at htricks hwinners
  exact ⟨hend, hwinners, fun j hj => (htricks j hj).1⟩

end PlayingTable

end TarotClub
