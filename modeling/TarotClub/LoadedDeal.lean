import TarotClub.DealFile

namespace TarotClub.TarotContext

variable {n k : ℕ}

/-- The tricks of a file that are stored: those with a card. -/
def storedTricks (texts : List Str) : List Deck :=
  (texts.map Deck.ofString).filter fun trick => 0 < trick.size

/-- What the loop has done with the tricks when it has found no fault. -/
structure Stores (n k : ℕ) (tricks : List Deck) (ctx r : TarotContext) : Prop where
  discard : r.mDiscard.mDeck = ctx.mDiscard.mDeck.filter fun c => c ∉ tricks.flatMap Deck.mDeck
  before : ∀ j < k, r.mTricks j = ctx.mTricks j
  stored : ∀ j < tricks.length, (r.mTricks (k + j)).mDeck = (tricks.getD j {}).mDeck
  counted : r.mDiscard.size + tricks.length * n = ctx.mDiscard.size
  full : (tricks.flatMap Deck.mDeck).Nodup → tricks.flatMap Deck.mDeck ⊆ ctx.mDiscard.mDeck →
    ∀ trick ∈ tricks, trick.size = n

theorem storedTricks_cons_pos {text : Str} (h : 0 < (Deck.ofString text).size)
    (texts : List Str) :
    storedTricks (text :: texts) = Deck.ofString text :: storedTricks texts := by
  simp [storedTricks, h]

theorem storedTricks_cons_neg {text : Str} (h : ¬ 0 < (Deck.ofString text).size)
    (texts : List Str) : storedTricks (text :: texts) = storedTricks texts := by
  rw [Nat.pos_iff_ne_zero, not_not] at h
  simp [storedTricks, h]

theorem loadTrick_empty {text : Str} (h : ¬ 0 < (Deck.ofString text).size)
    (acc : Bool × ℕ × TarotContext) : loadTrick n acc text = acc := by
  obtain ⟨ret, counter, ctx⟩ := acc
  simp only [loadTrick, gt_iff_lt, if_neg h]

/-- A trick that is not empty is stored, and its cards leave the deck. -/
theorem loadTrick_stored {text : Str} (h : 0 < (Deck.ofString text).size) (hk : k < 24)
    (ret : Bool) (ctx : TarotContext) :
    ∃ ctx' : TarotContext, loadTrick n (ret, k + 1, ctx) text =
        (ret && decide ((ctx.mDiscard.removeDuplicates (Deck.ofString text)).1 = n), k + 1 + 1,
          ctx') ∧
      ctx'.mDiscard = (ctx.mDiscard.removeDuplicates (Deck.ofString text)).2 ∧
      ∃ owner, ctx'.mTricks =
        Function.update ctx.mTricks k ((Deck.ofString text).setOwner owner) := by
  obtain ⟨htricks, -, -, -, hdiscard, -⟩ := setTrick_frame ctx (Deck.ofString text) hk
  have hcounter : u8 (k + 1 + 1) = k + 1 + 1 := Nat.mod_eq_of_lt (by omega)
  refine ⟨{ (ctx.setTrick (Deck.ofString text) (k + 1)).2 with
    mDiscard := (ctx.mDiscard.removeDuplicates (Deck.ofString text)).2 }, ?_, rfl, _, htricks⟩
  simp only [loadTrick, gt_iff_lt, if_pos h, hdiscard, hcounter]

theorem foldl_loadTrick_stores {texts : List Str} (ret : Bool) (ctx : TarotContext)
    (hk : k + texts.length ≤ 24) (hnodup : ctx.mDiscard.mDeck.Nodup)
    (h : (texts.foldl (loadTrick n) (ret, k + 1, ctx)).1 = true) :
    ret = true ∧
      Stores n k (storedTricks texts) ctx (texts.foldl (loadTrick n) (ret, k + 1, ctx)).2.2 := by
  -- on the tricks left; `k` of them have been stored
  induction texts generalizing ret k ctx with
  | nil =>
    refine ⟨h, ?_, fun _ _ => rfl, fun j hj => absurd hj (Nat.not_lt_zero j), ?_, ?_⟩
    · exact (List.filter_eq_self.mpr fun c _ => by simp [storedTricks]).symm
    · simp [storedTricks]
    · intro _ _ trick htrick
      exact absurd htrick List.not_mem_nil
  | cons text texts ih =>
    rw [List.length_cons] at hk
    rw [List.foldl_cons] at h ⊢
    by_cases hempty : 0 < (Deck.ofString text).size
    · obtain ⟨ctx', hstep, hdiscard, owner, htricks⟩ :=
        loadTrick_stored (n := n) hempty (k := k) (by omega) ret ctx
      rw [hstep] at h ⊢
      have hleft := Deck.removeDuplicates_mDeck ctx.mDiscard (Deck.ofString text)
      have hcount := Deck.removeDuplicates_fst hnodup (Deck.ofString text)
      rw [← hdiscard] at hleft hcount
      obtain ⟨hret, hrest⟩ := ih _ ctx' (by omega) (hleft ▸ hnodup.filter _) h
      generalize (texts.foldl (loadTrick n) (_, k + 1 + 1, ctx')).2.2 = r at hrest ⊢
      obtain ⟨hret, hremoved⟩ := Bool.and_eq_true_iff.mp hret
      rw [decide_eq_true_eq] at hremoved
      rw [storedTricks_cons_pos hempty]
      refine ⟨hret, ?_, fun j hj => ?_, fun j hj => ?_, ?_, ?_⟩
      · rw [hrest.discard, hleft, List.filter_filter]
        refine List.filter_congr fun c _ => ?_
        rw [List.flatMap_cons, ← Bool.decide_and, decide_eq_decide, List.mem_append, not_or,
          and_comm]
      · rw [hrest.before j (by omega), htricks, Function.update_of_ne (by omega)]
      · cases j with
        | zero =>
          rw [Nat.add_zero, hrest.before k k.lt_succ_self, htricks, Function.update_self]
          rfl
        | succ j =>
          have hnext := hrest.stored j (Nat.lt_of_succ_lt_succ hj)
          rwa [show k + 1 + j = k + (j + 1) by omega] at hnext
      · have hcounted := hrest.counted
        rw [List.length_cons, Nat.succ_mul]
        omega
      · intro hcards hsub
        rw [List.flatMap_cons] at hcards hsub
        obtain ⟨htrick, htail, hdisjoint⟩ := List.nodup_append'.mp hcards
        have hle : (Deck.ofString text).cards ≤ ctx.mDiscard.cards :=
          (Multiset.le_iff_subset (Multiset.coe_nodup.mpr htrick)).mpr
            fun c hc => hsub (List.mem_append_left _ hc)
        have hfirst := (Deck.removeDuplicates_of_le (Multiset.coe_nodup.mpr hnodup) hle).1
        rw [List.forall_mem_cons]
        refine ⟨hfirst.symm.trans hremoved, hrest.full htail fun c hc => ?_⟩
        rw [hleft, List.mem_filter]
        exact ⟨hsub (List.mem_append_right _ hc),
          decide_eq_true fun hmem => hdisjoint hmem hc⟩
    · rw [loadTrick_empty hempty] at h ⊢
      rw [storedTricks_cons_neg hempty]
      exact ih ret ctx (by omega) hnodup h

/-- The number of players that a file gives. -/
def playersOf (json : JsonValue) : ℕ :=
  ((json.findValue (str "deal_info:number_of_players")).getInteger % 2 ^ 32).toNat

/-- The texts of the tricks of a file. -/
def trickTexts (json : JsonValue) : List Str :=
  (json.findValue (str "tricks")).getArray.map JsonValue.getString

/-- The cards that the tricks of a file name, one trick after the other. -/
def trickCards (json : JsonValue) : List Card :=
  (trickTexts json).flatMap fun text => (Deck.ofString text).mDeck

/-- The tricks of a deal are full, and with the discard they are the 78 cards. -/
structure Consistent (n : ℕ) (ctx : TarotContext) : Prop where
  sizes : ∀ i < numberOfCardsInHand n, (ctx.mTricks i).size = n
  cards : ∑ i ∈ Finset.range (numberOfCardsInHand n), (ctx.mTricks i).cards + ctx.mDiscard.cards =
    Deck.tarotDeck.cards

variable {json : JsonValue} {ctx : TarotContext}

/-- Loading succeeds when the tricks do, on a context that has the bid of the file. -/
theorem loadFromJson_true (h : (ctx.loadFromJson json).1 = true) :
    (playersOf json = 3 ∨ playersOf json = 4 ∨ playersOf json = 5) ∧
      ∃ start : TarotContext,
        ctx.loadFromJson json = start.loadTricks (playersOf json) (trickTexts json) := by
  revert h
  unfold loadFromJson
  dsimp only
  split_ifs with hn
  · split
    · exact fun _ => ⟨hn, _, rfl⟩
    · intro h
      contradiction
  · intro h
    contradiction

/-- A list of texts that loads holds exactly the tricks of a deal, and what they leave of the deck
is the discard. -/
theorem loadTricks_true (hn : n = 3 ∨ n = 4 ∨ n = 5) {texts : List Str}
    (h : (ctx.loadTricks n texts).1 = true) :
    texts.length = numberOfCardsInHand n ∧ storedTricks texts = texts.map Deck.ofString ∧
      ∃ start : TarotContext, start.mDiscard.mDeck = Deck.tarotDeck.mDeck ∧
        ∃ r, Stores n 0 (storedTricks texts) start r ∧
          (ctx.loadTricks n texts).2.mTricks = r.mTricks ∧
          (ctx.loadTricks n texts).2.mDiscard.mDeck = r.mDiscard.mDeck := by
  have hhand : numberOfCardsInHand n ≤ 24 := by
    rcases hn with rfl | rfl | rfl <;> decide
  unfold loadTricks at h ⊢
  split_ifs at h ⊢ with hlength
  dsimp only at h ⊢
  have hstart : ctx.mDiscard.createTarotDeck.mDeck = Deck.tarotDeck.mDeck := rfl
  have hstores := @foldl_loadTrick_stores n 0 texts true
    { ctx with mDiscard := ctx.mDiscard.createTarotDeck } (by omega)
    (hstart ▸ Multiset.coe_nodup.mp Deck.tarotDeck_nodup)
  rw [Nat.zero_add] at hstores
  generalize texts.foldl (loadTrick n) (true, 1, _) = fold at h hstores ⊢
  obtain ⟨ret, counter, r⟩ := fold
  dsimp only at h hstores ⊢
  by_cases hsize : r.mDiscard.size = numberOfDogCards n
  swap
  · rw [if_neg hsize] at h
    exact absurd h Bool.false_ne_true
  rw [if_pos hsize] at h ⊢
  obtain ⟨-, hr⟩ := hstores h
  have hcounted := hr.counted
  have hdeck : (ctx.mDiscard.createTarotDeck).size = 78 := Deck.tarotDeck_size
  have hall : (storedTricks texts).length = (texts.map Deck.ofString).length := by
    rw [List.length_map, hlength]
    rw [hdeck, hsize] at hcounted
    have hdeal : numberOfDogCards n + numberOfCardsInHand n * n = 78 := by
      rcases hn with rfl | rfl | rfl <;> decide
    exact Nat.eq_of_mul_eq_mul_right (by omega : 0 < n) (by omega)
  have hstored : storedTricks texts = texts.map Deck.ofString :=
    List.filter_sublist.eq_of_length hall
  exact ⟨hlength, hstored, _, hstart, r, hr, rfl, rfl⟩

theorem sum_cards_getD (tricks : List Deck) :
    ∑ i ∈ Finset.range tricks.length, (tricks.getD i {}).cards =
      ((tricks.flatMap Deck.mDeck : List Card) : Multiset Card) := by
  induction tricks with
  | nil => rfl
  | cons trick tricks ih =>
    rw [List.length_cons, Finset.sum_range_succ', List.flatMap_cons, ← Multiset.coe_add, ← ih,
      add_comm]
    rfl

/-- Cards that are all different and what they leave of the deck. -/
theorem nodup_add_filter {cards discard : List Card} (h : cards.Nodup)
    (hvalid : ∀ c ∈ cards, c.isValid = true)
    (hdiscard : discard = Deck.tarotDeck.mDeck.filter fun c => c ∉ cards) :
    (cards : Multiset Card) + (discard : Multiset Card) = Deck.tarotDeck.cards := by
  have hdeck : Deck.tarotDeck.mDeck.Nodup := Multiset.coe_nodup.mp Deck.tarotDeck_nodup
  have hperm : cards.Perm (Deck.tarotDeck.mDeck.filter fun c => c ∈ cards) := by
    rw [List.perm_ext_iff_of_nodup h (hdeck.filter _)]
    intro c
    rw [List.mem_filter, Deck.mem_tarotDeck, decide_eq_true_iff]
    exact ⟨fun hc => ⟨hvalid c hc, hc⟩, And.right⟩
  rw [hdiscard, Multiset.coe_eq_coe.mpr hperm, Multiset.coe_add]
  refine Multiset.coe_eq_coe.mpr ?_
  have hparts := List.filter_append_perm (fun c => decide (c ∈ cards)) Deck.tarotDeck.mDeck
  simpa only [decide_not] using hparts

theorem isValid_of_mem_ofString {text : Str} {c : Card} (h : c ∈ (Deck.ofString text).mDeck) :
    c.isValid = true := (List.mem_filter.mp h).2

/-- A deal that is loaded is one of the 78 cards exactly when its tricks name no card twice. -/
theorem loaded_deal_iff (h : (ctx.loadFromJson json).1 = true) :
    Consistent (playersOf json) (ctx.loadFromJson json).2 ↔ (trickCards json).Nodup := by
  obtain ⟨hn, start, hload⟩ := loadFromJson_true h
  rw [hload] at h ⊢
  obtain ⟨hlength, hstored, deck, hdeck, r, hr, htricks, hdiscard⟩ := loadTricks_true hn h
  rw [hstored] at hr
  have hcount : ((trickTexts json).map Deck.ofString).length =
      numberOfCardsInHand (playersOf json) := by rw [List.length_map, hlength]
  have hcards : trickCards json = ((trickTexts json).map Deck.ofString).flatMap Deck.mDeck :=
    (List.flatMap_map _ _ _).symm
  have hvalid : ∀ c ∈ trickCards json, c.isValid = true := by
    intro c hc
    obtain ⟨text, -, hmem⟩ := List.mem_flatMap.mp hc
    exact isValid_of_mem_ofString hmem
  generalize (trickTexts json).map Deck.ofString = tricks at hr hcount hcards
  rw [hcards] at hvalid ⊢
  generalize start.loadTricks (playersOf json) (trickTexts json) = loaded at htricks hdiscard ⊢
  have htrick : ∀ i < tricks.length, (loaded.2.mTricks i).mDeck = (tricks.getD i {}).mDeck := by
    intro i hi
    rw [htricks, ← hr.stored i hi, Nat.zero_add]
  have hsum : ∑ i ∈ Finset.range (numberOfCardsInHand (playersOf json)),
      (loaded.2.mTricks i).cards = ((tricks.flatMap Deck.mDeck : List Card) : Multiset Card) := by
    rw [← hcount, ← sum_cards_getD]
    exact Finset.sum_congr rfl fun i hi =>
      congrArg Multiset.ofList (htrick i (Finset.mem_range.mp hi))
  constructor
  · intro hconsistent
    have hnodup := Deck.tarotDeck_nodup
    rw [← hconsistent.cards, hsum] at hnodup
    exact Multiset.coe_nodup.mp (Multiset.nodup_of_le (Multiset.le_add_right _ _) hnodup)
  · intro hnodup
    -- every card is still there when its trick is read, so no trick is too long
    have hfull := hr.full hnodup fun c hc => by
      rw [hdeck]
      exact Deck.mem_tarotDeck.mpr (hvalid c hc)
    refine ⟨fun i hi => ?_, ?_⟩
    · have hi : i < tricks.length := hcount ▸ hi
      rw [Deck.size, htrick i hi, List.getD_eq_getElem?_getD, List.getElem?_eq_getElem hi,
        Option.getD_some]
      exact hfull _ (List.getElem_mem hi)
    · rw [hsum]
      refine nodup_add_filter hnodup hvalid ?_
      rw [hdiscard, hr.discard, hdeck]

/-- The file of a deal of three players, who have played the cards of the pack in order; `first` is
added to the text of the first trick. -/
def packFile (first : Str) : JsonValue :=
  .object (JsonObject.ofList
    [(str "deal_info", .object (JsonObject.ofList
      [(str "number_of_players", .integer 3),
       (str "taker", .string (str "South")),
       (str "contract", .string (str "Guard")),
       (str "slam", .boolean false),
       (str "first_trick_lead", .string (str "South")),
       (str "dog", .string []),
       (str "attack_handle", .string []),
       (str "defense_handle", .string [])])),
     (str "tricks", .array ((List.range 24).map fun i =>
       .string ((Deck.tarotDeck.mid (3 * i) 3).toString ++ if i = 0 then first else [])))])

theorem loaded_deal_iff_pack :
    (({} : TarotContext).loadFromJson (packFile [])).1 = true ∧
      Consistent 3 (({} : TarotContext).loadFromJson (packFile [])).2 := by
  obtain ⟨hload, hplayers, hnodup⟩ : (({} : TarotContext).loadFromJson (packFile [])).1 = true ∧
      playersOf (packFile []) = 3 ∧ (trickCards (packFile [])).Nodup := by decide +kernel
  refine ⟨hload, ?_⟩
  have hiff := loaded_deal_iff hload
  rw [hplayers] at hiff
  exact hiff.mpr hnodup

/-- A first trick of three players that names its first card twice is loaded with four cards. -/
theorem loaded_trick_too_long :
    let loaded := ({} : TarotContext).loadFromJson (packFile (str ";01-S"))
    loaded.1 = true ∧ playersOf (packFile (str ";01-S")) = 3 ∧ (loaded.2.mTricks 0).size = 4 ∧
      ¬ Consistent 3 loaded.2 := by
  intro loaded
  obtain ⟨hload, hplayers, hsize⟩ : loaded.1 = true ∧ playersOf (packFile (str ";01-S")) = 3 ∧
      (loaded.2.mTricks 0).size = 4 := by decide +kernel
  refine ⟨hload, hplayers, hsize, fun h => ?_⟩
  have hthree := h.sizes 0 (by decide)
  omega

end TarotClub.TarotContext
