import TarotClub.Autoplay
import TarotClub.Handles
import TarotClub.Refusals

namespace TarotClub

open Machine (run answers play play_eq)

namespace Deck

/-- The number of cards of a rank in a deck. -/
def honours (d : Deck) (value : ℕ) : ℕ :=
  (List.range 4).countP fun suit => (⟨value, suit⟩ : Card) ∈ d.mDeck

/-- The four cards of a rank are in the hand. -/
def HoldsAll (hand : Deck) (value : ℕ) : Prop :=
  ∀ suit < 4, (⟨value, suit⟩ : Card) ∈ hand.mDeck

theorem honours_eq_four {d : Deck} {value : ℕ} : d.honours value = 4 ↔ d.HoldsAll value := by
  have hall := List.countP_eq_length (p := fun suit => (⟨value, suit⟩ : Card) ∈ d.mDeck)
    (l := List.range 4)
  simpa [honours, HoldsAll] using hall

/-- A card of a suit is counted once at most. -/
theorem countP_suit {d : Deck} (hnodup : d.mDeck.Nodup) (value suit : ℕ) :
    (d.mDeck.filter fun c => c.mSuit = suit).countP (fun c => c.mValue = value) =
      if (⟨value, suit⟩ : Card) ∈ d.mDeck then 1 else 0 := by
  have hcard : ∀ c : Card, (decide (c.mValue = value) && decide (c.mSuit = suit)) =
      (c == ⟨value, suit⟩) := fun c => by
    cases c
    simp [Bool.beq_eq_decide_eq]
  rw [List.countP_filter, ← hnodup.count, List.count]
  simp only [hcard]

/-- The honours are counted suit by suit. -/
theorem analyzeSuits_honours {d : Deck} (hnodup : d.mDeck.Nodup) :
    let stats := d.analyzeSuits {}
    stats.kings = d.honours Card.king ∧ stats.queens = d.honours Card.queen ∧
      stats.knights = d.honours Card.knight ∧ stats.jacks = d.honours Card.jack := by
  have hsum : ∀ value, d.honours value = u8 (u8 (u8 (u8 (0 +
      (d.mDeck.filter fun c => c.mSuit = 0).countP (fun c => c.mValue = value)) +
      (d.mDeck.filter fun c => c.mSuit = 1).countP (fun c => c.mValue = value)) +
      (d.mDeck.filter fun c => c.mSuit = 2).countP (fun c => c.mValue = value)) +
      (d.mDeck.filter fun c => c.mSuit = 3).countP (fun c => c.mValue = value)) := by
    intro value
    have hle : ∀ suit, (if (⟨value, suit⟩ : Card) ∈ d.mDeck then 1 else 0) ≤ 1 := fun suit => by
      split_ifs <;> omega
    have h0 := hle 0
    have h1 := hle 1
    have h2 := hle 2
    have h3 := hle 3
    simp only [countP_suit hnodup, honours, show List.range 4 = [0, 1, 2, 3] from rfl,
      List.countP_cons, List.countP_nil, decide_eq_true_eq, u8]
    omega
  exact ⟨(hsum _).symm, (hsum _).symm, (hsum _).symm, (hsum _).symm⟩

/-- The ranks that the owner of the hand may call. -/
def MayCall (hand : Deck) (value : ℕ) : Prop :=
  value = Card.king ∨ (value = Card.queen ∧ hand.HoldsAll Card.king) ∨
    (value = Card.knight ∧ hand.HoldsAll Card.king ∧ hand.HoldsAll Card.queen) ∨
    (value = Card.jack ∧ hand.HoldsAll Card.king ∧ hand.HoldsAll Card.queen ∧
      hand.HoldsAll Card.knight)

/-- Sixteen honours do not fit into a hand of fifteen cards. -/
theorem not_all_honours {hand : Deck} (hsize : hand.size = 15) (hking : hand.HoldsAll Card.king)
    (hqueen : hand.HoldsAll Card.queen) (hknight : hand.HoldsAll Card.knight) :
    ¬ hand.HoldsAll Card.jack := by
  intro hjack
  let all : List Card := (List.range 4).flatMap fun suit =>
    [⟨Card.king, suit⟩, ⟨Card.queen, suit⟩, ⟨Card.knight, suit⟩, ⟨Card.jack, suit⟩]
  have hsub : all ⊆ hand.mDeck := by
    intro c hc
    obtain ⟨suit, hsuit, hc⟩ := List.mem_flatMap.mp hc
    have hlt := List.mem_range.mp hsuit
    simp only [List.mem_cons, List.not_mem_nil, or_false] at hc
    rcases hc with rfl | rfl | rfl | rfl
    exacts [hking suit hlt, hqueen suit hlt, hknight suit hlt, hjack suit hlt]
  have hle := (List.subperm_of_subset (show all.Nodup by decide) hsub).length_le
  have hlength : all.length = 16 := rfl
  rw [hlength, ← size, hsize] at hle
  omega

/-- The test looks at the rank of the card alone. -/
theorem checkKingCall_iff {hand : Deck} (hnodup : hand.mDeck.Nodup) (hsize : hand.size = 15)
    (c : Card) :
    TarotContext.checkKingCall c (hand.analyzeSuits {}) = true ↔ hand.MayCall c.mValue := by
  obtain ⟨hkings, hqueens, hknights, hjacks⟩ := analyzeSuits_honours hnodup
  have hall := @not_all_honours hand hsize
  unfold TarotContext.checkKingCall MayCall
  rw [hkings, hqueens, hknights, hjacks]
  by_cases hking : hand.HoldsAll Card.king
  · by_cases hqueen : hand.HoldsAll Card.queen
    · by_cases hknight : hand.HoldsAll Card.knight
      · have hjack := hall hking hqueen hknight
        simp [honours_eq_four, hking, hqueen, hknight, hjack]
      · simp [honours_eq_four, hking, hqueen, hknight]
    · simp [honours_eq_four, hking, hqueen]
  · simp [honours_eq_four, hking]

end Deck

namespace Engine

open TarotContext (seatAfter)

/-- The cards in the hands and in the dog. -/
def dealt (e : Engine) : Deal := { mPlayers := e.mPlayers, mDogDeck := e.mCtx.mDog }

/-- Somebody holds the card, or it is in the dog. -/
def IsHeld (e : Engine) (c : Card) : Prop :=
  c ∈ e.mCtx.mDog.mDeck ∨ ∃ p : Place, p.value < 5 ∧ c ∈ (e.mPlayers p.value).mDeck

/-- The partner that a call makes: the taker itself, or the other seat that holds the card. -/
def IsPartner (e : Engine) (c : Card) (partner : Place) : Prop :=
  if c ∈ e.takerDeck.mDeck ∨ c ∈ e.mCtx.mDog.mDeck then partner = e.mCtx.mBid.taker
  else partner.value < 5 ∧ partner ≠ e.mCtx.mBid.taker ∧
    c ∈ (e.mPlayers partner.value).mDeck ∧
    ∀ q : Place, q.value < 5 → c ∈ (e.mPlayers q.value).mDeck → q = partner

variable {e : Engine} {c : Card}

/-- The search for the partner passes `k` seats. -/
theorem findPartner_spec (e : Engine) (c : Card) (k : ℕ) (p : Place) :
    (∀ q, e.findPartner c k p = some q →
        c ∈ (e.mPlayers q.value).mDeck ∧ ∃ j < k, q = seatAfter p 5 j) ∧
      (e.findPartner c k p = none →
        ∀ j < k, c ∉ (e.mPlayers (seatAfter p 5 j).value).mDeck) := by
  induction k generalizing p with
  | zero => exact ⟨nofun, fun _ j hj => absurd hj (Nat.not_lt_zero j)⟩
  | succ k ih =>
    rw [findPartner]
    by_cases hp : (e.mPlayers p.value).hasCard c = true
    · rw [if_pos hp]
      refine ⟨fun q h => ?_, nofun⟩
      rw [← Option.some.inj h]
      exact ⟨Deck.hasCard_iff.mp hp, 0, Nat.succ_pos k, rfl⟩
    · rw [if_neg hp]
      obtain ⟨hsome, hnone⟩ := ih (p.next 5)
      refine ⟨fun q h => ?_, fun h j hj => ?_⟩
      · obtain ⟨hmem, j, hj, hq⟩ := hsome q h
        exact ⟨hmem, j + 1, Nat.succ_lt_succ hj, hq⟩
      · cases j with
        | zero => exact fun hmem => hp (Deck.hasCard_iff.mpr hmem)
        | succ j => exact hnone h j (Nat.lt_of_succ_lt_succ hj)

/-- The four seats behind the taker are the other ones. -/
theorem other_seats {taker : Place} (htaker : taker.value < 5) (q : Place) :
    (q.value < 5 ∧ q ≠ taker) ↔ ∃ j < 4, q = seatAfter (taker.next 5) 5 j := by
  revert htaker
  cases taker <;> cases q <;> decide

/-- Who becomes the partner, where somebody does. -/
def partnerOf (e : Engine) (c : Card) : Option Place :=
  if e.mCtx.mDog.hasCard c || e.takerDeck.hasCard c then some e.mCtx.mBid.taker
  else e.findPartner c 4 (e.mCtx.mBid.taker.next 5)

/-- A call that passes the test looks for the partner and goes on to the next step. -/
theorem setKingCalled_of_check
    (h : TarotContext.checkKingCall c (e.takerDeck.analyzeSuits {}) = true) :
    (e.setKingCalled c).1 = (e.partnerOf c).isSome ∧
      (e.setKingCalled c).2.mSequence = .waitForShowKingCall ∧
      ∀ p, e.partnerOf c = some p → (e.setKingCalled c).2.mCtx.mBid.partner = p := by
  unfold setKingCalled
  rw [if_pos h, ← partnerOf]
  exact ⟨rfl, rfl, fun p hp => by rw [hp]⟩

theorem partnerOf_spec (htaker : e.mCtx.mBid.taker.value < 5) :
    (∀ p, e.partnerOf c = some p →
        (c ∈ e.takerDeck.mDeck ∨ c ∈ e.mCtx.mDog.mDeck) ∧ p = e.mCtx.mBid.taker ∨
        ¬(c ∈ e.takerDeck.mDeck ∨ c ∈ e.mCtx.mDog.mDeck) ∧ p.value < 5 ∧
          p ≠ e.mCtx.mBid.taker ∧ c ∈ (e.mPlayers p.value).mDeck) ∧
      (e.partnerOf c = none ↔ ¬ e.IsHeld c) := by
  obtain ⟨hsome, hnone⟩ := findPartner_spec e c 4 (e.mCtx.mBid.taker.next 5)
  have hown : (e.mCtx.mDog.hasCard c || e.takerDeck.hasCard c) = true ↔
      c ∈ e.takerDeck.mDeck ∨ c ∈ e.mCtx.mDog.mDeck := by
    rw [Bool.or_eq_true, Deck.hasCard_iff, Deck.hasCard_iff, or_comm]
  unfold partnerOf
  by_cases hmine : c ∈ e.takerDeck.mDeck ∨ c ∈ e.mCtx.mDog.mDeck
  · rw [if_pos (hown.mpr hmine)]
    refine ⟨fun p hp => .inl ⟨hmine, (Option.some.inj hp).symm⟩, ⟨nofun, fun h => absurd ?_ h⟩⟩
    rcases hmine with hhand | hdog
    · exact .inr ⟨_, htaker, hhand⟩
    · exact .inl hdog
  · rw [if_neg (mt hown.mp hmine)]
    constructor
    · intro p hp
      obtain ⟨hmem, hseat⟩ := hsome p hp
      obtain ⟨hlt, hne⟩ := (other_seats htaker p).mpr hseat
      exact .inr ⟨hmine, hlt, hne, hmem⟩
    · constructor
      · rintro hsearch (hdog | ⟨p, hlt, hmem⟩)
        · exact hmine (.inr hdog)
        · by_cases hp : p = e.mCtx.mBid.taker
          · rw [hp] at hmem
            exact hmine (.inl hmem)
          · obtain ⟨j, hj, hseat⟩ := (other_seats htaker p).mp ⟨hlt, hp⟩
            exact hnone hsearch j hj (hseat ▸ hmem)
      · intro hnobody
        cases hsearch : e.findPartner c 4 (e.mCtx.mBid.taker.next 5) with
        | none => rfl
        | some p =>
          obtain ⟨hmem, hseat⟩ := hsome p hsearch
          obtain ⟨hlt, -⟩ := (other_seats htaker p).mpr hseat
          exact absurd (.inr ⟨p, hlt, hmem⟩) hnobody

/-- Whether a call is accepted. -/
theorem setKingCalled_fst (htaker : e.mCtx.mBid.taker.value < 5) :
    (e.setKingCalled c).1 = true ↔
      TarotContext.checkKingCall c (e.takerDeck.analyzeSuits {}) = true ∧ e.IsHeld c := by
  by_cases h : TarotContext.checkKingCall c (e.takerDeck.analyzeSuits {}) = true
  · rw [(setKingCalled_of_check h).1, Option.isSome_iff_ne_none, ne_eq,
      (partnerOf_spec htaker).2, not_not]
    exact (and_iff_right h).symm
  · rw [setKingCalled, if_neg h]
    exact iff_of_false Bool.false_ne_true fun hcheck => h hcheck.1

/-- The partner that is found. -/
theorem setKingCalled_partner (hfair : e.dealt.Fair 5) (htaker : e.mCtx.mBid.taker.value < 5)
    (h : (e.setKingCalled c).1 = true) :
    e.IsPartner c (e.setKingCalled c).2.mCtx.mBid.partner := by
  have hcheck := ((setKingCalled_fst htaker).mp h).1
  obtain ⟨hfst, -, hpartner⟩ := setKingCalled_of_check (e := e) hcheck
  obtain ⟨p, hp⟩ := Option.isSome_iff_exists.mp (hfst.symm.trans h)
  rw [hpartner p hp, IsPartner]
  rcases (partnerOf_spec htaker).1 p hp with ⟨hmine, htak⟩ | ⟨hmine, hlt, hne, hmem⟩
  · rw [if_pos hmine]
    exact htak
  · rw [if_neg hmine]
    refine ⟨hlt, hne, hmem, fun q hq hqmem => ?_⟩
    exact Place.value_inj.mp (hfair.unique_hand hq hlt hqmem hmem)

/-- In a deal of the 78 cards somebody holds each of them. -/
theorem isHeld_iff (hfair : e.dealt.Fair 5) : e.IsHeld c ↔ c.isValid = true := by
  have hseat : (∃ p : Place, p.value < 5 ∧ c ∈ (e.mPlayers p.value).mDeck) ↔
      ∃ i < 5, c ∈ (e.mPlayers i).mDeck := by
    constructor
    · rintro ⟨p, hlt, hmem⟩
      exact ⟨p.value, hlt, hmem⟩
    · rintro ⟨i, hi, hmem⟩
      have hvalue := Place.value_assign hi.le
      exact ⟨.assign i, by rw [hvalue]; exact hi, by rw [hvalue]; exact hmem⟩
  rw [IsHeld, hseat, or_comm]
  exact (hfair.isValid_iff c).symm

/-- The call of a card is accepted exactly for the kings, and below them for the ranks above which
the taker holds everything, unless it is a trump with the number of such a rank; and the partner is
the one who holds the card. -/
theorem king_call (hfair : e.dealt.Fair 5) (htaker : e.mCtx.mBid.taker.value < 5) (c : Card) :
    (((e.setKingCalled c).1 = true ↔ c.mSuit < Card.trumps ∧ e.takerDeck.MayCall c.mValue) ∧
        ((e.setKingCalled c).1 = true →
          e.IsPartner c (e.setKingCalled c).2.mCtx.mBid.partner)) ↔
      ¬ (c.mSuit = Card.trumps ∧ e.takerDeck.MayCall c.mValue) := by
  have hnodup : e.takerDeck.mDeck.Nodup := Multiset.coe_nodup.mp (hfair.hand_nodup htaker)
  have hsize : e.takerDeck.size = 15 := hfair.hands _ htaker
  rw [and_iff_left fun h => setKingCalled_partner hfair htaker h, setKingCalled_fst htaker,
    isHeld_iff hfair, Deck.checkKingCall_iff hnodup hsize]
  -- the rank decides, and the suit is never looked at
  by_cases hmay : e.takerDeck.MayCall c.mValue
  · have hvalue : 11 ≤ c.mValue ∧ c.mValue ≤ 14 := by
      rcases hmay with h | ⟨h, -⟩ | ⟨h, -⟩ | ⟨h, -⟩ <;> rw [h] <;> decide
    have htrumps : Card.trumps = 4 := rfl
    have hvalid : c.isValid = true ↔ c.mSuit ≤ 4 := by
      unfold Card.isValid
      split_ifs with htrump hplain
      · simp [htrump]
        omega
      · simp [Nat.le_of_lt hplain]
        omega
      · simp
        omega
    simp only [hmay, hvalid, true_and, and_true]
    omega
  · simp [hmay]

/-- The king of spades, called by a player who does not hold it. -/
theorem king_call_spades :
    let e : Engine :=
      { mPlayers := (plainDealer 5 {}).mPlayers
        mSequence := .waitForKingCall
        mCtx :=
          { mNbPlayers := 5
            mBid := { taker := .east, contract := .take }
            mDog := (plainDealer 5 {}).mDogDeck } }
    (e.setKingCalled ⟨14, Card.spades⟩).1 = true ∧
      (e.setKingCalled ⟨14, Card.spades⟩).2.mCtx.mBid.partner = .south ∧
      e.IsPartner ⟨14, Card.spades⟩ (e.setKingCalled ⟨14, Card.spades⟩).2.mCtx.mBid.partner := by
  intro e
  have hcalled : (e.setKingCalled ⟨14, Card.spades⟩).1 = true ∧
      (e.setKingCalled ⟨14, Card.spades⟩).2.mCtx.mBid.partner = .south := by decide +kernel
  have hfair : e.dealt.Fair 5 := plainDealer_fair (.inr (.inr rfl)) {}
  exact ⟨hcalled.1, hcalled.2,
    ((king_call hfair (by decide) ⟨14, Card.spades⟩).mpr fun h => absurd h.1 (by decide)).2 hcalled.1⟩

/-- The fourteenth trump is called like a king. -/
theorem king_call_trump :
    let e : Engine :=
      { mPlayers := (plainDealer 5 {}).mPlayers
        mSequence := .waitForKingCall
        mCtx :=
          { mNbPlayers := 5
            mBid := { taker := .east, contract := .take }
            mDog := (plainDealer 5 {}).mDogDeck } }
    e.dealt.Fair 5 ∧ Card.ofString (str "14-T") = ⟨14, Card.trumps⟩ ∧
      (e.setKingCalled ⟨14, Card.trumps⟩).1 = true :=
  ⟨plainDealer_fair (.inr (.inr rfl)) {}, by decide, by decide +kernel⟩

end Engine

namespace PlayingTable

/-- A call that the engine refuses leaves it as it was exactly when the rank fails the test, or
when the card is somewhere (and the call would not have been refused). -/
theorem refused_king_call {t : PlayingTable} (hstep : t.mEngine.mSequence = .waitForKingCall)
    (htaker : t.mEngine.mCtx.mBid.taker.value < 5) {srcUuid : ℕ}
    (hsender : t.getPlayerPlace srcUuid = t.mEngine.mCtx.mBid.taker) {json : JsonValue}
    (hcmd : (json.findValue (str "cmd")).getString = str "ReplyKingCall") (dealer : Dealer) :
    let c := Card.ofString (json.findValue (str "card")).getString
    ((t.mEngine.setKingCalled c).1 = false →
        (t.executeRequest dealer srcUuid json).table.mEngine = t.mEngine) ↔
      TarotContext.checkKingCall c (t.mEngine.takerDeck.analyzeSuits {}) = false ∨
        t.mEngine.IsHeld c := by
  intro c
  have hanswers : Answers (json.findValue (str "cmd")).getString .waitForKingCall := by
    rw [hcmd]
    exact .replyKingCall
  have hexecute : t.executeRequest dealer srcUuid json = t.executeReplyKingCall srcUuid json :=
    executeRequest_of_answers dealer t srcUuid json hanswers
  have hengine : (t.mEngine.setKingCalled c).1 = false →
      (t.executeRequest dealer srcUuid json).table.mEngine = (t.mEngine.setKingCalled c).2 := by
    intro hrefused
    rw [hexecute, executeReplyKingCall, if_pos ⟨hstep, hsender.symm⟩]
    change (if (t.mEngine.setKingCalled c).1 = true then _ else _ : Response).table.mEngine = _
    rw [hrefused]
    rfl
  have haccepted := Engine.setKingCalled_fst (e := t.mEngine) (c := c) htaker
  cases hcheck : TarotContext.checkKingCall c (t.mEngine.takerDeck.analyzeSuits {}) with
  | false =>
    refine iff_of_true (fun hrefused => ?_) (.inl rfl)
    rw [hengine hrefused, Engine.setKingCalled, hcheck]
    rfl
  | true =>
    rw [hcheck] at haccepted
    by_cases hheld : t.mEngine.IsHeld c
    · have htrue := haccepted.mpr ⟨rfl, hheld⟩
      refine iff_of_true (fun hrefused => ?_) (.inr hheld)
      rw [htrue] at hrefused
      cases hrefused
    · have hrefused : (t.mEngine.setKingCalled c).1 = false :=
        Bool.eq_false_iff.mpr fun htrue => hheld (haccepted.mp htrue).2
      have hmoved := (Engine.setKingCalled_of_check hcheck).2.1
      refine iff_of_false (fun hsame => ?_) (by simp [hheld])
      rw [← hengine hrefused, hsame hrefused, hstep] at hmoved
      cases hmoved

/-- A table of five players who have just sat down. -/
def fivePlayers : PlayingTable :=
  run apply (({} : PlayingTable).createTable 5 .south)
    [.addPlayer 7, .addPlayer 8, .addPlayer 9, .addPlayer 10, .addPlayer 11]

/-- One of them takes, and is asked for a king. -/
def kingAwaited : PlayingTable :=
  run apply fivePlayers (answers apply (nextCalls plainDealer .take [7, 8, 9, 10, 11]) 13 fivePlayers)

/-- What the taker answers. -/
def replyKingCall (card : Str) : JsonValue :=
  .object (JsonObject.ofList [(str "cmd", .string (str "ReplyKingCall")), (str "card", .string card)])

/-- What is found out about the table that waits for the call. -/
theorem kingAwaited_facts :
    let e := kingAwaited.mEngine
    kingAwaited.nbPlayers = 5 ∧ e.mSequence = .waitForKingCall ∧ e.mCtx.mBid.taker = .north ∧
      kingAwaited.getPlayerPlace 9 = .north ∧
      TarotContext.checkKingCall (Card.ofString (str "01-S")) (e.takerDeck.analyzeSuits {}) =
        false ∧
      (e.setKingCalled (Card.ofString (str "01-S"))).1 = false ∧
      (e.setKingCalled (Card.ofString (str "14-X"))).1 = false ∧
      (kingAwaited.executeRequest plainDealer 9
        (replyKingCall (str "14-X"))).table.mEngine.mSequence = .waitForShowKingCall := by
  refine of_decide_eq_true ?_
  rw [kingAwaited, ← play_eq apply _ _ _ fun t : PlayingTable =>
    decide (t.nbPlayers = 5 ∧ t.mEngine.mSequence = .waitForKingCall ∧
      t.mEngine.mCtx.mBid.taker = .north ∧ t.getPlayerPlace 9 = .north ∧
      TarotContext.checkKingCall (Card.ofString (str "01-S"))
        (t.mEngine.takerDeck.analyzeSuits {}) = false ∧
      (t.mEngine.setKingCalled (Card.ofString (str "01-S"))).1 = false ∧
      (t.mEngine.setKingCalled (Card.ofString (str "14-X"))).1 = false ∧
      (t.executeRequest plainDealer 9
        (replyKingCall (str "14-X"))).table.mEngine.mSequence = .waitForShowKingCall)]
  decide +kernel

/-- A small card is refused, and nothing has changed. -/
theorem refused_king_call_small :
    (kingAwaited.mEngine.setKingCalled (Card.ofString (str "01-S"))).1 = false ∧
      (kingAwaited.executeRequest plainDealer 9 (replyKingCall (str "01-S"))).table.mEngine =
        kingAwaited.mEngine := by
  obtain ⟨-, hstep, htaker, hplace, hcheck, hrefused, -⟩ := kingAwaited_facts
  have hcmd : ((replyKingCall (str "01-S")).findValue (str "cmd")).getString =
      str "ReplyKingCall" := rfl
  generalize kingAwaited = t at *
  exact ⟨hrefused, (refused_king_call hstep (by rw [htaker]; decide) (hplace.trans htaker.symm)
    hcmd plainDealer).mpr (.inl hcheck) hrefused⟩

/-- The fourteenth card of no suit is refused as well, and the table waits for everybody to look at
the call. -/
theorem refused_king_call_nobody :
    kingAwaited.Reachable ∧ kingAwaited.nbPlayers = 5 ∧
      kingAwaited.mEngine.mSequence = .waitForKingCall ∧
      kingAwaited.getPlayerPlace 9 = kingAwaited.mEngine.mCtx.mBid.taker ∧
      (kingAwaited.mEngine.setKingCalled (Card.ofString (str "14-X"))).1 = false ∧
      (kingAwaited.executeRequest plainDealer 9 (replyKingCall (str "14-X"))).table.mEngine ≠
        kingAwaited.mEngine := by
  obtain ⟨hplayers, hstep, htaker, hplace, -, -, hrefused, hmoved⟩ := kingAwaited_facts
  have hreachable : kingAwaited.Reachable :=
    ((Reachable.create {} 5 .south (by decide)).run _).run _
  generalize kingAwaited = t at *
  refine ⟨hreachable, hplayers, hstep, hplace.trans htaker.symm, hrefused, fun hsame => ?_⟩
  rw [hsame, hstep] at hmoved
  cases hmoved

end PlayingTable

end TarotClub
