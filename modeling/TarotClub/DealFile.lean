import Mathlib.Algebra.BigOperators.Ring.Finset
import TarotClub.DeckText
import TarotClub.Replay

namespace TarotClub.TarotContext

variable {n k : ℕ}

/-- The part of a context that storing a trick looks at. -/
def core (ctx : TarotContext) : TarotContext :=
  { mBid := ctx.mBid
    mFirstPlayer := ctx.mFirstPlayer
    mTricks := ctx.mTricks
    mWinner := ctx.mWinner
    mTricksWon := ctx.mTricksWon
    mStatsAttack := ctx.mStatsAttack }

theorem core_creditTrick (ctx : TarotContext) (turn : ℕ) (winner : Place) (foolSwap : Bool) :
    (ctx.creditTrick turn winner foolSwap).core =
      (ctx.core.creditTrick turn winner foolSwap).core := by
  have hbid : ctx.core.mBid = ctx.mBid := rfl
  simp only [creditTrick, hbid]
  by_cases hw : winner = ctx.mBid.taker ∨ winner = ctx.mBid.partner
  · rw [if_pos hw, if_pos hw]
    rfl
  · rw [if_neg hw, if_neg hw]
    rfl

theorem core_setTrick (ctx : TarotContext) (trick : Deck) (trickCounter : ℕ) :
    (ctx.setTrick trick trickCounter).2.core = (ctx.core.setTrick trick trickCounter).2.core := by
  unfold setTrick
  generalize u8 (trickCounter + 255) = turn
  by_cases hturn : turn < 24
  · have hdecide : ({ ctx.core with mTricks := Function.update ctx.core.mTricks turn trick } :
        TarotContext).decideTrick (ctx.core.leadOf turn) turn trickCounter =
          ({ ctx with mTricks := Function.update ctx.mTricks turn trick } :
            TarotContext).decideTrick (ctx.leadOf turn) turn trickCounter := rfl
    simp only [if_pos hturn, hdecide]
    generalize ({ ctx with mTricks := Function.update ctx.mTricks turn trick } :
      TarotContext).decideTrick (ctx.leadOf turn) turn trickCounter = d
    rw [core_creditTrick { ctx with mTricks := Function.update ctx.mTricks turn trick },
      core_creditTrick { ctx.core with mTricks := Function.update ctx.core.mTricks turn trick }]
    rfl
  · simp only [if_neg hturn]
    rfl

theorem core_setTrick_congr {a b : TarotContext} (h : a.core = b.core) (trick : Deck)
    (trickCounter : ℕ) :
    (a.setTrick trick trickCounter).2.core = (b.setTrick trick trickCounter).2.core := by
  rw [core_setTrick, h, ← core_setTrick]

/-- The tricks of a file are played again, and their cards leave the deck. -/
theorem foldl_loadTrick {tricks : List Deck} (ctx base : TarotContext) (hcore : ctx.core = base.core)
    (h : ∀ trick ∈ tricks, IsTrick n trick) (hn : 0 < n) (hk : k + tricks.length ≤ 24)
    (hnodup : ctx.mDiscard.cards.Nodup)
    (hle : (tricks.map Deck.cards).sum ≤ ctx.mDiscard.cards) :
    let r := (tricks.map Deck.toString).foldl (loadTrick n) (true, k + 1, ctx)
    r.1 = true ∧
      r.2.2.core = (base.setTricks k (tricks.map fun trick => trick.setOwner .noTeam)).core ∧
      r.2.2.mDiscard.cards + (tricks.map Deck.cards).sum = ctx.mDiscard.cards ∧
      r.2.2.mAttackHandle = ctx.mAttackHandle ∧ r.2.2.mDefenseHandle = ctx.mDefenseHandle ∧
      r.2.2.mNbPlayers = ctx.mNbPlayers := by
  induction tricks generalizing ctx base k with
  | nil => exact ⟨rfl, hcore, add_zero _, rfl, rfl, rfl⟩
  | cons trick tricks ih =>
    rw [List.map_cons, List.sum_cons] at hle
    rw [List.length_cons] at hk
    have htrick := h trick List.mem_cons_self
    have hread : Deck.ofString trick.toString = trick.setOwner .noTeam :=
      Deck.ofString_toString htrick.valid
    have hsize : (trick.setOwner .noTeam).size > 0 := by
      change trick.size > 0
      rw [htrick.size]
      exact hn
    have hfirst : (trick.setOwner .noTeam).cards ≤ ctx.mDiscard.cards :=
      (Multiset.le_add_right _ _).trans hle
    obtain ⟨hfound, hrest, howner⟩ := Deck.removeDuplicates_of_le hnodup hfirst
    obtain ⟨-, -, -, -, hdiscard, -, hattack, hdefense, hplayers⟩ :=
      setTrick_frame ctx (trick.setOwner .noTeam) (k := k) (by omega)
    have hcounter : u8 (k + 1 + 1) = k + 1 + 1 := Nat.mod_eq_of_lt (by omega)
    have hstep : loadTrick n (true, k + 1, ctx) trick.toString = (true, k + 1 + 1,
        { (ctx.setTrick (trick.setOwner .noTeam) (k + 1)).2 with
          mDiscard := (ctx.mDiscard.removeDuplicates (trick.setOwner .noTeam)).2 }) := by
      simp only [loadTrick, hread, if_pos hsize, hdiscard, hfound, hcounter, Bool.true_and]
      rw [show (trick.setOwner .noTeam).size = n from htrick.size, decide_eq_true rfl]
    rw [List.map_cons, List.foldl_cons, hstep]
    obtain ⟨hret, hreplayed, hcards, hattack', hdefense', hplayers'⟩ :=
      ih (k := k + 1) { (ctx.setTrick (trick.setOwner .noTeam) (k + 1)).2 with
          mDiscard := (ctx.mDiscard.removeDuplicates (trick.setOwner .noTeam)).2 }
        (base.setTrick (trick.setOwner .noTeam) (k + 1)).2
        (core_setTrick_congr hcore _ _)
        (fun t ht => h t (List.mem_cons_of_mem trick ht)) (by omega)
        (Multiset.nodup_of_le (hrest ▸ Multiset.le_add_right _ _) hnodup) (by
          rw [← hrest, Deck.cards_setOwner, add_comm trick.cards] at hle
          exact le_of_add_le_add_right hle)
    refine ⟨hret, hreplayed, ?_, hattack'.trans hattack, hdefense'.trans hdefense,
      hplayers'.trans hplayers⟩
    rw [List.map_cons, List.sum_cons, ← hrest, ← hcards, Deck.cards_setOwner]
    abel

/-- The object holds what is read from it. -/
theorem saveToJson_reads (ctx : TarotContext) :
    let json := JsonValue.object ctx.saveToJson
    json.findValue (str "deal_info:number_of_players") = .integer ctx.mNbPlayers ∧
      json.getStringValue (str "deal_info:taker") = some ctx.mBid.taker.toString ∧
      json.getStringValue (str "deal_info:contract") = some ctx.mBid.contract.toString ∧
      json.getBoolValue (str "deal_info:slam") = some ctx.mBid.slam ∧
      json.getStringValue (str "deal_info:dog") = some ctx.mDog.toString ∧
      json.getStringValue (str "deal_info:attack_handle") = some ctx.mAttackHandle.toString ∧
      json.getStringValue (str "deal_info:defense_handle") = some ctx.mDefenseHandle.toString ∧
      json.getStringValue (str "deal_info:first_trick_lead") = some ctx.mFirstPlayer.toString ∧
      (json.findValue (str "tricks")).getArray.map JsonValue.getString =
        ((List.range (numberOfCardsInHand ctx.mNbPlayers)).map ctx.mTricks).map
          Deck.toString := by
  have htricks : (JsonValue.object ctx.saveToJson).findValue (str "tricks") =
      .array ((List.range (numberOfCardsInHand ctx.mNbPlayers)).map
        fun i => .string (ctx.mTricks i).toString) := rfl
  refine ⟨rfl, rfl, rfl, rfl, rfl, rfl, rfl, rfl, ?_⟩
  rw [htricks, JsonValue.getArray, List.map_map, List.map_map]
  rfl

/-- A played deal of `n` players: every trick is full, and the 78 cards are in the tricks and in the
discard. -/
structure Played (n : ℕ) (ctx : TarotContext) : Prop where
  players : ctx.mNbPlayers = n
  tricks : ∀ j < numberOfCardsInHand n, IsTrick n (ctx.mTricks j)
  cards : ctx.mDiscard.cards + ∑ j ∈ Finset.range (numberOfCardsInHand n),
    (ctx.mTricks j).cards = Deck.tarotDeck.cards
  attackHandle : ∀ c ∈ ctx.mAttackHandle.mDeck, c.isValid = true
  defenseHandle : ∀ c ∈ ctx.mDefenseHandle.mDeck, c.isValid = true

/-- What loading brings back of a deal. -/
structure Restored (n : ℕ) (live loaded : TarotContext) : Prop where
  core : loaded.core = (live.replay (numberOfCardsInHand n)).core
  discard : loaded.mDiscard.cards = live.mDiscard.cards
  owner : loaded.mDiscard.mOwner =
    if live.mBid.contract = .guardAgainst then .defense else .attack
  attackHandle : loaded.mAttackHandle.mDeck = live.mAttackHandle.mDeck
  defenseHandle : loaded.mDefenseHandle.mDeck = live.mDefenseHandle.mDeck
  players : loaded.mNbPlayers = 4

theorem Played.discard_size {ctx : TarotContext} (h : Played n ctx)
    (hn : n = 3 ∨ n = 4 ∨ n = 5) : ctx.mDiscard.size = numberOfDogCards n := by
  have hcard := congrArg Multiset.card h.cards
  have hsizes : ∑ j ∈ Finset.range (numberOfCardsInHand n),
      Multiset.card (ctx.mTricks j).cards = numberOfCardsInHand n * n := by
    simp only [Deck.card_cards]
    rw [Finset.sum_const_nat fun j hj => (h.tricks j (Finset.mem_range.mp hj)).size,
      Finset.card_range]
  rw [Multiset.card_add, Multiset.card_sum, hsizes, Deck.card_cards, Deck.card_cards,
    Deck.tarotDeck_size] at hcard
  rcases hn with rfl | rfl | rfl
  · exact Nat.add_right_cancel hcard
  · exact Nat.add_right_cancel hcard
  · exact Nat.add_right_cancel hcard

theorem setTricks_mBid (ctx : TarotContext) {tricks : List Deck} (hk : k + tricks.length ≤ 24) :
    (ctx.setTricks k tricks).mBid = ctx.mBid := by
  induction tricks generalizing ctx k with
  | nil => rfl
  | cons trick tricks ih =>
    rw [List.length_cons] at hk
    obtain ⟨-, -, hbid, -⟩ := setTrick_frame ctx trick (k := k) (by omega)
    rw [setTricks, ih _ (by omega), hbid]

theorem loadTricks_of_foldl {ctx r : TarotContext} {tricks : List Str} {ret : Bool} {counter : ℕ}
    (hlength : tricks.length = numberOfCardsInHand n)
    (hfold : tricks.foldl (loadTrick n)
      (true, 1, { ctx with mDiscard := ctx.mDiscard.createTarotDeck }) = (ret, counter, r))
    (hsize : r.mDiscard.size = numberOfDogCards n) :
    ctx.loadTricks n tricks = (ret, { r with
      mDiscard := r.mDiscard.setOwner
        (if r.mBid.contract = .guardAgainst then .defense else .attack) }) := by
  rw [TarotContext.loadTricks, if_pos hlength]
  dsimp only
  rw [hfold]
  dsimp only
  rw [if_pos hsize]

/-- The tricks of a deal give the discard back. -/
theorem Played.loadTricks {live : TarotContext} (h : Played n live) (hn : n = 3 ∨ n = 4 ∨ n = 5)
    (ctx : TarotContext) (hcore : ctx.core = live.opening.core) (hplayers : ctx.mNbPlayers = 4)
    (hattack : ctx.mAttackHandle.mDeck = live.mAttackHandle.mDeck)
    (hdefense : ctx.mDefenseHandle.mDeck = live.mDefenseHandle.mDeck) :
    let r := ctx.loadTricks n
      (((List.range (numberOfCardsInHand n)).map live.mTricks).map Deck.toString)
    r.1 = true ∧ Restored n live r.2 := by
  have hT : numberOfCardsInHand n ≤ 24 ∧ 0 < n := by
    rcases hn with rfl | rfl | rfl <;> decide
  have htricks : ∀ trick ∈ (List.range (numberOfCardsInHand n)).map live.mTricks,
      IsTrick n trick := by
    intro trick hmem
    obtain ⟨j, hj, rfl⟩ := List.mem_map.mp hmem
    exact h.tricks j (List.mem_range.mp hj)
  have hsum : (((List.range (numberOfCardsInHand n)).map live.mTricks).map Deck.cards).sum =
      ∑ j ∈ Finset.range (numberOfCardsInHand n), (live.mTricks j).cards := by
    rw [List.map_map]
    rfl
  have hdeck : (ctx.mDiscard.createTarotDeck).cards = Deck.tarotDeck.cards := rfl
  have hfold := foldl_loadTrick (k := 0) { ctx with mDiscard := ctx.mDiscard.createTarotDeck }
    live.opening hcore htricks hT.2 (by simpa using hT.1) Deck.tarotDeck_nodup (by
      rw [hsum, hdeck, ← h.cards]
      exact Multiset.le_add_left _ _)
  have hlength : (((List.range (numberOfCardsInHand n)).map live.mTricks).map Deck.toString).length =
      numberOfCardsInHand n := by simp
  have hreplay : live.opening.setTricks 0 (((List.range (numberOfCardsInHand n)).map
      live.mTricks).map fun trick => trick.setOwner .noTeam) =
        live.replay (numberOfCardsInHand n) := by
    rw [List.map_map]
    rfl
  rw [Nat.zero_add] at hfold
  generalize hfolded : List.foldl (loadTrick n) (true, 1, _) _ = fold at hfold
  obtain ⟨ret, counter, ctx'⟩ := fold
  obtain ⟨hret, hcore', hcards, hattack', hdefense', hplayers'⟩ := hfold
  rw [hsum, hdeck, ← h.cards] at hcards
  have hdiscard := add_right_cancel hcards
  have hsize : ctx'.mDiscard.size = numberOfDogCards n := by
    rw [← Deck.card_cards, hdiscard, Deck.card_cards]
    exact h.discard_size hn
  rw [loadTricks_of_foldl hlength hfolded hsize]
  refine ⟨hret, ?_, hdiscard, ?_, ?_, ?_, hplayers'.trans hplayers⟩
  · exact hcore'.trans (congrArg core hreplay)
  · have hbid : ctx'.mBid = live.opening.mBid :=
      (congrArg mBid hcore').trans (setTricks_mBid live.opening (k := 0) (by simpa using hT.1))
    rw [hbid]
    rfl
  · exact (congrArg Deck.mDeck hattack').trans hattack
  · exact (congrArg Deck.mDeck hdefense').trans hdefense

/-- Loading what was saved succeeds. -/
theorem Played.loadFromJson {live : TarotContext} (h : Played n live)
    (hn : n = 3 ∨ n = 4 ∨ n = 5) :
    let r := ({} : TarotContext).loadFromJson (.object live.saveToJson)
    r.1 = true ∧ Restored n live r.2 := by
  obtain ⟨hplayers, htaker, hcontract, hslam, hdog, hattack, hdefense, hlead, htricks⟩ :=
    saveToJson_reads live
  have hnumber : ((JsonValue.integer live.mNbPlayers).getInteger % 2 ^ 32).toNat = n := by
    rw [h.players]
    rcases hn with rfl | rfl | rfl <;> rfl
  rw [h.players] at htricks
  have hfresh : ({} : TarotContext).initializeContext = {} := by
    simp [initializeContext, Deck.clear]
  rw [TarotContext.loadFromJson, hfresh]
  simp only [hplayers, hnumber, if_pos hn, htaker, hcontract, hslam, hdog, hattack, hdefense, hlead,
    htricks, Option.map_some, Option.getD_some, Deck.setCards_toString _ h.attackHandle,
    Deck.setCards_toString _ h.defenseHandle, Place.ofString_toString,
    Contract.ofString_toString]
  exact h.loadTricks hn _ rfl rfl rfl rfl

end TarotClub.TarotContext
