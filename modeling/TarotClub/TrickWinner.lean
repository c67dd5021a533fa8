import TarotClub.Replay

namespace TarotClub

namespace Deck

/-- The card wins against the others: it is the highest trump, or no trump but the Fool has been
played and it is the highest card of the first suit. -/
def Leads (cards : List Card) (c : Card) : Prop :=
  c ≠ Card.fool ∧ (∀ t ∈ cards, t.mSuit = c.mSuit → t.mValue ≤ c.mValue) ∧
    (c.mSuit = Card.trumps ∨
      ((∀ t ∈ cards, t.mSuit = Card.trumps → t = Card.fool) ∧
        (cards.find? fun t => t ≠ Card.fool).map Card.mSuit = some c.mSuit))

/-- The winning card is the one at this index. -/
def WinsAt (cards : List Card) (k : ℕ) : Prop := ∃ c, cards[k]? = some c ∧ Leads cards c

theorem Leads.unique {cards : List Card} {c c' : Card} (hc : c ∈ cards) (hc' : c' ∈ cards)
    (h : Leads cards c) (h' : Leads cards c') : c = c' := by
  have hsuit : c.mSuit = c'.mSuit := by
    rcases h.2.2 with ht | ⟨hno, hled⟩
    · rcases h'.2.2 with ht' | ⟨hno', -⟩
      · exact ht.trans ht'.symm
      · exact absurd (hno' c hc ht) h.1
    · rcases h'.2.2 with ht' | ⟨-, hled'⟩
      · exact absurd (hno c' hc' ht') h'.1
      · exact Option.some.inj (hled.symm.trans hled')
  have hvalue : c.mValue = c'.mValue :=
    le_antisymm (h'.2.1 c hc hsuit) (h.2.1 c' hc' hsuit.symm)
  cases c
  cases c'
  simp_all

theorem WinsAt.unique {cards : List Card} (hnodup : cards.Nodup) {j k : ℕ}
    (hj : WinsAt cards j) (hk : WinsAt cards k) : j = k := by
  obtain ⟨c, hc, hlead⟩ := hj
  obtain ⟨c', hc', hlead'⟩ := hk
  have heq := hlead.unique (List.mem_of_getElem? hc) (List.mem_of_getElem? hc') hlead'
  obtain ⟨hlt, -⟩ := List.getElem?_eq_some_iff.mp hc
  exact (List.getElem?_inj hlt hnodup).mp (hc.trans (heq ▸ hc'.symm))

/-- The loop of `HighestTrump` keeps the value of its card, and no trump is higher. -/
theorem highestTrump_foldl_max (l : List Card) (acc : Card × ℕ) :
    let r := l.foldl (fun (acc : Card × ℕ) c =>
      if c.mSuit = Card.trumps ∧ c.mValue > acc.2 then (c, c.mValue) else acc) acc
    acc.2 ≤ r.2 ∧ (r = acc ∨ r.1.mValue = r.2) ∧
      ∀ t ∈ l, t.mSuit = Card.trumps → t.mValue ≤ r.2 := by
  induction l generalizing acc with
  | nil => exact ⟨le_rfl, .inl rfl, by simp⟩
  | cons c l ih =>
    simp only [List.foldl_cons]
    by_cases hc : c.mSuit = Card.trumps ∧ c.mValue > acc.2
    · rw [if_pos hc]
      obtain ⟨hle, hvalue, hall⟩ := ih (c, c.mValue)
      refine ⟨hc.2.le.trans hle, .inr ?_, List.forall_mem_cons.mpr ⟨fun _ => hle, hall⟩⟩
      rcases hvalue with hr | hr
      · rw [hr]
      · exact hr
    · rw [if_neg hc]
      obtain ⟨hle, hvalue, hall⟩ := ih acc
      refine ⟨hle, hvalue, List.forall_mem_cons.mpr ⟨fun hs => ?_, hall⟩⟩
      exact (not_lt.mp fun hlt => hc ⟨hs, hlt⟩).trans hle

/-- No trump is higher than the one that `HighestTrump` finds. -/
theorem le_highestTrump {d : Deck} (h : d.highestTrump.mSuit = Card.trumps) {t : Card}
    (ht : t ∈ d.mDeck) (hs : t.mSuit = Card.trumps) : t.mValue ≤ d.highestTrump.mValue := by
  obtain ⟨-, hvalue, hmax⟩ := highestTrump_foldl_max d.mDeck ({}, 0)
  have hvalue' : d.highestTrump.mValue = _ := hvalue.resolve_left fun hr => by
    have hdef : d.highestTrump = {} := congrArg Prod.fst hr
    rw [hdef] at h
    cases h
  rw [hvalue']
  exact hmax t ht hs

/-- The loop of `HighestSuit` behind the card that leads. -/
theorem highestSuit_foldl_max (l : List Card) {best : Card} {value suit : ℕ}
    (hsuit : suit ≠ Card.trumps) (hbest : best.mSuit = suit ∧ best.mValue = value) :
    let r := (l.foldl highestSuitStep (best, value, some suit)).1
    r.mSuit = suit ∧ value ≤ r.mValue ∧ ∀ t ∈ l, t.mSuit = suit → t.mValue ≤ r.mValue := by
  induction l generalizing best value with
  | nil => exact ⟨hbest.1, hbest.2.ge, by simp⟩
  | cons c l ih =>
    simp only [List.foldl_cons]
    by_cases hc : c.mSuit = suit ∧ c.mValue > value
    · have hstep : highestSuitStep (best, value, some suit) c = (c, c.mValue, some suit) := by
        simp [highestSuitStep, hc, hsuit]
      rw [hstep]
      obtain ⟨hs, hle, hall⟩ := ih ⟨hc.1, rfl⟩
      exact ⟨hs, hc.2.le.trans hle, List.forall_mem_cons.mpr ⟨fun _ => hle, hall⟩⟩
    · have hstep : highestSuitStep (best, value, some suit) c = (best, value, some suit) := by
        unfold highestSuitStep
        split_ifs with h
        · exact if_neg fun hs => hc ⟨hs, h.2⟩
        · rfl
      rw [hstep]
      obtain ⟨hs, hle, hall⟩ := ih hbest
      refine ⟨hs, hle, List.forall_mem_cons.mpr ⟨fun hcs => ?_, hall⟩⟩
      exact (not_lt.mp fun hlt => hc ⟨hcs, hlt⟩).trans hle

/-- The scan for the leading suit skips the Fool, and takes the first other card. -/
theorem highestSuit_leads {l : List Card} (hvalid : ∀ c ∈ l, c.isValid = true)
    (hno : ∀ t ∈ l, t.mSuit = Card.trumps → t = Card.fool) {first : Card}
    (hfirst : l.find? (fun t => t ≠ Card.fool) = some first) :
    let r := (l.foldl highestSuitStep ({}, 0, none)).1
    r.mSuit = first.mSuit ∧ r.mSuit ≠ Card.trumps ∧
      ∀ t ∈ l, t.mSuit = r.mSuit → t.mValue ≤ r.mValue := by
  induction l with
  | nil => cases hfirst
  | cons c l ih =>
    have hrest : ∀ t ∈ l, t.mSuit = Card.trumps → t = Card.fool := fun t ht =>
      hno t (List.mem_cons_of_mem c ht)
    by_cases hc : c = Card.fool
    · subst hc
      obtain ⟨hs, hne, hall⟩ := ih (fun t ht => hvalid t (List.mem_cons_of_mem _ ht)) hrest
        (by simpa using hfirst)
      refine ⟨hs, hne, List.forall_mem_cons.mpr ⟨fun _ => Nat.zero_le _, hall⟩⟩
    · have heq : c = first := by simpa [hc] using hfirst
      subst heq
      have hplain : c.mSuit ≠ Card.trumps := fun hs => hc (hno c List.mem_cons_self hs)
      have hpos := Card.value_pos (hvalid c List.mem_cons_self) hplain
      have hstep : highestSuitStep ({}, 0, none) c = (c, c.mValue, some c.mSuit) := by
        simp [highestSuitStep, hplain, hpos]
      rw [List.foldl_cons, hstep]
      have hself : c.mSuit = c.mSuit ∧ c.mValue = c.mValue := ⟨rfl, rfl⟩
      obtain ⟨hs, hle, hall⟩ := highestSuit_foldl_max l hplain hself
      dsimp only
      rw [hs]
      exact ⟨rfl, hplain, List.forall_mem_cons.mpr ⟨fun _ => hle, hall⟩⟩

end Deck

namespace TarotContext

variable {n k : ℕ} {trick : Deck} {lead : Place}

/-- The card that `SetTrick` finds is the winning one. -/
theorem IsTrick.trickLeader_leads (h : IsTrick n trick) (h2 : 2 ≤ n) :
    trickLeader trick ∈ trick.mDeck ∧ Deck.Leads trick.mDeck (trickLeader trick) := by
  have hsize : 2 ≤ trick.size := h.size ▸ h2
  obtain ⟨-, hmem⟩ := trickLeader_spec h.valid (Multiset.coe_nodup.mpr h.nodup) hsize
  refine ⟨hmem, ?_⟩
  rcases trick.highestTrump_cases with ⟨hdef, hzero⟩ | ⟨htrump, hsuit, hpos⟩
  · have hleader : trickLeader trick = trick.highestSuit := by
      rw [trickLeader, hdef, Card.isValid_default]
      rfl
    have hno : ∀ t ∈ trick.mDeck, t.mSuit = Card.trumps → t = Card.fool := fun t ht hs => by
      rw [← Card.isFool_iff, Card.isFool, hs, hzero t ht hs]
      rfl
    obtain ⟨c, hc, hne⟩ := Deck.exists_ne_fool (Multiset.coe_nodup.mpr h.nodup) hsize
    obtain ⟨first, hfirst⟩ : ∃ first, trick.mDeck.find? (fun t => t ≠ Card.fool) = some first := by
      rw [← Option.isSome_iff_exists, List.find?_isSome]
      exact ⟨c, hc, decide_eq_true hne⟩
    obtain ⟨hs, hplain, hall⟩ := Deck.highestSuit_leads h.valid hno hfirst
    rw [hleader]
    refine ⟨fun heq => hplain ?_, hall, .inr ⟨hno, ?_⟩⟩
    · change trick.highestSuit.mSuit = _
      rw [heq]
    · rw [hfirst]
      exact congrArg some hs.symm
  · have hleader : trickLeader trick = trick.highestTrump := by
      rw [trickLeader, if_pos (h.valid _ htrump)]
    rw [hleader]
    refine ⟨fun heq => ?_, fun t ht hs => ?_, .inl hsuit⟩
    · rw [heq] at hpos
      exact lt_irrefl 0 hpos
    · exact Deck.le_highestTrump hsuit ht (hs.trans hsuit)

/-- The seats that `SetTrick` returns for the tricks given to it in order when `k` of them are
stored. -/
def returned (ctx : TarotContext) : ℕ → List Deck → List Place
  | _, [] => []
  | k, trick :: tricks =>
    (ctx.setTrick trick (k + 1)).1 :: (ctx.setTrick trick (k + 1)).2.returned (k + 1) tricks

/-- In the last trick, when its side has won all the others, the taker plays the Fool. -/
def FoolSlam (n : ℕ) (bid : Bid) (lead : Place) (earlier : List Place) (trick : Deck) : Prop :=
  earlier.length + 1 = numberOfCardsInHand n ∧ (∀ p ∈ earlier, bid.isAttack p = true) ∧
    ∃ j, trick.mDeck[j]? = some Card.fool ∧ (lead.value + j) % n = bid.taker.value

/-- The winner of a trick behind the winners of the earlier ones, the last of whom leads. -/
def WinnerRule (n : ℕ) (bid : Bid) (first : Place) (earlier : List Place) (trick : Deck)
    (winner : Place) : Prop :=
  let lead := earlier.getLast?.getD first
  (FoolSlam n bid lead earlier trick → winner = bid.taker) ∧
    (¬FoolSlam n bid lead earlier trick →
      ∃ k, winner.value = (lead.value + k) % n ∧ Deck.WinsAt trick.mDeck k ∧
        ∀ j, Deck.WinsAt trick.mDeck j → j = k)

theorem IsTrick.playedBy_value (h : IsTrick n trick) (h5 : n ≤ 5) (hlead : lead.value < n)
    (c : Card) : (playedBy lead trick c).value = (lead.value + trick.mDeck.idxOf c) % n := by
  rw [playedBy, h.size, seatAfter_value h5 hlead]

/-- The seat of the winning card. -/
theorem IsTrick.winnerOf_value (h : IsTrick n trick) (h2 : 2 ≤ n) (h5 : n ≤ 5)
    (hlead : lead.value < n) :
    ∃ k, (winnerOf lead trick).value = (lead.value + k) % n ∧ Deck.WinsAt trick.mDeck k ∧
      ∀ j, Deck.WinsAt trick.mDeck j → j = k := by
  obtain ⟨hmem, hleads⟩ := h.trickLeader_leads h2
  have hwins : Deck.WinsAt trick.mDeck (trick.mDeck.idxOf (trickLeader trick)) :=
    ⟨_, List.getElem?_idxOf hmem, hleads⟩
  exact ⟨_, h.playedBy_value h5 hlead _, hwins, fun j hj => hj.unique h.nodup hwins⟩

/-- The seats returned so far, and the context that they leave. -/
structure Won (n : ℕ) (bid : Bid) (first : Place) (earlier : List Place) (ctx : TarotContext) :
    Prop where
  mBid : ctx.mBid = bid
  mFirstPlayer : ctx.mFirstPlayer = first
  lead : ctx.leadOf earlier.length = earlier.getLast?.getD first
  won : ctx.mTricksWon = (earlier.countP bid.isAttack : ℕ)
  seat : earlier.length < numberOfCardsInHand n → (earlier.getLast?.getD first).value < n

variable {bid : Bid} {first : Place} {earlier : List Place} {ctx : TarotContext}

/-- What the code tests for the Fool of the last trick. -/
theorem Won.foolSlam_iff (h : Won n bid first earlier ctx) (ht : IsTrick n trick) (h5 : n ≤ 5)
    (hk : earlier.length < numberOfCardsInHand n) :
    FoolSlam n bid (earlier.getLast?.getD first) earlier trick ↔
      trick.hasFool = true ∧ numberOfCardsInHand n ≤ earlier.length + 1 ∧
        ctx.mTricksWon = numberOfCardsInHand n - 1 ∧
        playedBy (ctx.leadOf earlier.length) trick Card.fool = ctx.mBid.taker := by
  have hall : ctx.mTricksWon = earlier.length ↔ ∀ p ∈ earlier, bid.isAttack p = true := by
    rw [h.won, Nat.cast_inj, List.countP_eq_length]
  -- the rule speaks of the place of the Fool in the trick, the code of the seat that it finds
  have hplace : ∀ j, trick.mDeck[j]? = some Card.fool →
      ((((earlier.getLast?.getD first).value + j) % n = bid.taker.value) ↔
        playedBy (ctx.leadOf earlier.length) trick Card.fool = ctx.mBid.taker) := by
    intro j hj
    have hmem := List.mem_of_getElem? hj
    obtain ⟨hlt, -⟩ := List.getElem?_eq_some_iff.mp hj
    have hidx : j = trick.mDeck.idxOf Card.fool :=
      (List.getElem?_inj hlt ht.nodup).mp (hj.trans (List.getElem?_idxOf hmem).symm)
    rw [← Place.value_inj, h.lead, ht.playedBy_value h5 (h.seat hk), h.mBid, hidx]
  rw [Deck.hasFool_iff]
  constructor
  · rintro ⟨hlast, hside, j, hj, hseat⟩
    have hwon := hall.mpr hside
    exact ⟨List.mem_of_getElem? hj, hlast.ge, by omega, (hplace j hj).mp hseat⟩
  · rintro ⟨hmem, hlast, hwon, hseat⟩
    have hj := List.getElem?_idxOf hmem
    exact ⟨by omega, hall.mp (by omega), _, hj, (hplace _ hj).mpr hseat⟩

/-- The seat that is returned for a trick. -/
theorem decided_winner (ctx : TarotContext) (n k : ℕ) (lead : Place) (trick : Deck) :
    (ctx.decided n k lead trick).1 =
      if trick.hasFool = true ∧ numberOfCardsInHand n ≤ k + 1 ∧
          ctx.mTricksWon = numberOfCardsInHand n - 1 ∧
          playedBy lead trick Card.fool = ctx.mBid.taker then ctx.mBid.taker
      else winnerOf lead trick := by
  cases hfool : trick.hasFool with
  | false => simp [decided_of_no_fool ctx lead hfool]
  | true =>
    by_cases hlast : numberOfCardsInHand n ≤ k + 1
    · rw [decided_of_last_fool ctx lead hfool hlast]
      simp only [hlast, true_and]
      split_ifs
      · rfl
      · rfl
    · rw [decided_of_fool ctx lead hfool (not_le.mp hlast)]
      simp [hlast]

/-- One more trick. -/
theorem Won.setTrick (h : Won n bid first earlier ctx) (ht : IsTrick n trick)
    (hn : n = 3 ∨ n = 4 ∨ n = 5) (hk : earlier.length < numberOfCardsInHand n) :
    let r := ctx.setTrick trick (earlier.length + 1)
    WinnerRule n bid first earlier trick r.1 ∧ Won n bid first (earlier ++ [r.1]) r.2 := by
  intro r
  have h24 : numberOfCardsInHand n ≤ 24 := by rcases hn with rfl | rfl | rfl <;> decide
  have hseat := h.seat hk
  have hr : r.1 = (ctx.decided n earlier.length (ctx.leadOf earlier.length) trick).1 :=
    congrArg Prod.fst (ht.setTrick_decided ctx (by omega) (by omega) (by omega))
  obtain ⟨-, hwinner, hwon, -⟩ := ht.setTrick_summary ctx (by omega) (by omega)
    (show earlier.length < 24 by omega)
  obtain ⟨-, -, hbid, -, -, hfirst, -⟩ := setTrick_frame ctx trick (show earlier.length < 24 by omega)
  rw [← hr, h.mBid] at hwon
  rw [← hr] at hwinner
  have hslam := h.foolSlam_iff ht (by omega) hk
  rw [decided_winner] at hr
  constructor
  · refine ⟨fun hfool => ?_, fun hfool => ?_⟩
    · rw [hr, if_pos (hslam.mp hfool), h.mBid]
    · rw [hr, if_neg (mt hslam.mpr hfool), h.lead]
      exact ht.winnerOf_value (by omega) (by omega) hseat
  · refine ⟨hbid.trans h.mBid, hfirst.trans h.mFirstPlayer, ?_, ?_, fun hmore => ?_⟩
    · rw [List.length_append, List.length_singleton, List.getLast?_concat, leadOf,
        if_neg (Nat.succ_ne_zero _), Nat.add_sub_cancel, hwinner, Function.update_self]
      rfl
    · rw [hwon, h.won, List.countP_append, List.countP_singleton]
      cases bid.isAttack r.1 <;> simp
    · rw [List.length_append, List.length_singleton] at hmore
      rw [List.getLast?_concat, Option.getD_some, hr, if_neg fun hfool => by omega, h.lead]
      obtain ⟨j, hj, -⟩ := ht.winnerOf_value (by omega) (by omega) hseat
      rw [hj]
      exact Nat.mod_lt _ (by omega)

theorem length_returned (ctx : TarotContext) (k : ℕ) (tricks : List Deck) :
    (ctx.returned k tricks).length = tricks.length := by
  induction tricks generalizing ctx k with
  | nil => rfl
  | cons trick tricks ih => rw [returned, List.length_cons, ih, List.length_cons]

/-- The tricks that are still to come. -/
theorem Won.returned (h : Won n bid first earlier ctx) (hn : n = 3 ∨ n = 4 ∨ n = 5)
    {tricks : List Deck} (ht : ∀ trick ∈ tricks, IsTrick n trick)
    (hlength : earlier.length + tricks.length ≤ numberOfCardsInHand n) :
    let seats := ctx.returned earlier.length tricks
    ∀ i trick winner, tricks[i]? = some trick → seats[i]? = some winner →
      WinnerRule n bid first (earlier ++ seats.take i) trick winner := by
  induction tricks generalizing ctx earlier with
  | nil => exact fun i trick winner hi => by cases hi
  | cons next tricks ih =>
    rw [List.length_cons] at hlength
    obtain ⟨hrule, hwon⟩ := h.setTrick (ht next List.mem_cons_self) hn (by omega)
    intro seats i trick winner htrick hwinner
    cases i with
    | zero =>
      have hnext : next = trick := Option.some.inj htrick
      have hseat : (ctx.setTrick next (earlier.length + 1)).1 = winner := Option.some.inj hwinner
      rw [List.take_zero, List.append_nil, ← hnext, ← hseat]
      exact hrule
    | succ i =>
      have hrest := ih hwon (fun t hmem => ht t (List.mem_cons_of_mem next hmem))
        (by rw [List.length_append, List.length_singleton]; omega) i trick winner
      rw [List.length_append, List.length_singleton] at hrest
      have h' := hrest htrick hwinner
      rw [List.append_assoc] at h'
      exact h'

/-- Each trick of a deal is won by the seat of its highest trump, or else of the highest card of
the suit that was led, as far behind the winner of the trick before as the card; only the taker
can win the last trick with the Fool, to end a slam. -/
theorem trick_winners (ctx : TarotContext) (bid : Bid) {first : Place} (hn : n = 3 ∨ n = 4 ∨ n = 5)
    (hfirst : first.value < n) {tricks : List Deck} (ht : ∀ trick ∈ tricks, IsTrick n trick)
    (hlength : tricks.length ≤ numberOfCardsInHand n) :
    let seats := ({ ctx.initializeContext with mBid := bid, mFirstPlayer := first } :
      TarotContext).returned 0 tricks
    seats.length = tricks.length ∧
      ∀ i trick winner, tricks[i]? = some trick → seats[i]? = some winner →
        WinnerRule n bid first (seats.take i) trick winner := by
  have hstart : Won n bid first []
      { ctx.initializeContext with mBid := bid, mFirstPlayer := first } :=
    ⟨rfl, rfl, rfl, rfl, fun _ => hfirst⟩
  exact ⟨length_returned _ _ _, hstart.returned hn ht (by simpa using hlength)⟩

/-- The king of spades takes the trick behind the Fool. -/
theorem trick_winners_three :
    let trick : Deck := { mDeck := [⟨1, Card.spades⟩, Card.fool, ⟨14, Card.spades⟩] }
    WinnerRule 3 { taker := .east, contract := .take } .east [] trick .south := by
  intro trick
  have htrick : ∀ t ∈ [trick], IsTrick 3 t :=
    List.forall_mem_singleton.mpr ⟨rfl, by decide, by decide⟩
  exact (trick_winners {} { taker := .east, contract := .take } (.inl rfl)
    (by decide : Place.east.value < 3) htrick (by decide)).2 0 trick .south rfl (by decide)

end TarotContext

end TarotClub
