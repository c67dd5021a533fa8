import TarotClub.Cards
import TarotClub.ClientContext

namespace TarotClub

namespace Deck

/-- The suit to be followed: the first card's, or the second one's behind the Fool. -/
def ledSuit : List Card → Option ℕ
  | [] => none
  | c :: cards => if c = Card.fool then cards.head?.map Card.mSuit else some c.mSuit

/-- The value is above that of every trump of the deck. -/
def BeatsTrumps (trick : Deck) (value : ℕ) : Prop :=
  ∀ t ∈ trick.mDeck, t.mSuit = Card.trumps → t.mValue < value

/-- Who cannot follow suit plays a trump if he has one, and a higher one than those of the trick
if he has one. -/
def TrumpRule (hand trick : Deck) (c : Card) : Prop :=
  (∀ x ∈ hand.mDeck, x.mSuit = Card.trumps → x = Card.fool) ∨
    (c.mSuit = Card.trumps ∧
      ((∃ t ∈ trick.mDeck, t.mSuit = Card.trumps) →
        (∃ x ∈ hand.mDeck, x.mSuit = Card.trumps ∧ trick.BeatsTrumps x.mValue) →
          trick.BeatsTrumps c.mValue))

/-- The rule for a card of the hand, by the suit that is led. -/
def FollowRule (hand trick : Deck) (c : Card) : Option ℕ → Prop
  | none => True
  | some suit =>
    c = Card.fool ∨ (suit ≠ Card.trumps ∧ c.mSuit = suit) ∨
      ((suit = Card.trumps ∨ ∀ x ∈ hand.mDeck, x.mSuit ≠ suit) ∧ TrumpRule hand trick c)

/-- The cards that the rule lets the owner of the hand play on the trick. -/
def LegalPlay (hand trick : Deck) (c : Card) : Prop :=
  c ∈ hand.mDeck ∧ FollowRule hand trick c (ledSuit trick.mDeck)

/-- What the statistics say of the cards of a trick and of a hand looked at so far. -/
structure Describes (stats : PlayStats) (suit : ℕ) (trick hand : List Card) : Prop where
  suits : stats.hasSuit = true ↔ ∃ x ∈ hand, x.mSuit ≠ Card.trumps ∧ x.mSuit = suit
  trumps : stats.hasTrump = true ↔ ∃ x ∈ hand, x.mSuit = Card.trumps
  highest : ∀ v, v < stats.highestTrumpValue ↔ ∃ x ∈ hand, x.mSuit = Card.trumps ∧ v < x.mValue
  previous : stats.previousTrump = true ↔ ∃ t ∈ trick, t.mSuit = Card.trumps
  below : ∀ v, v ≤ stats.maxPreviousTrump ↔
    v = 0 ∨ ∃ t ∈ trick, t.mSuit = Card.trumps ∧ v ≤ t.mValue

namespace Describes

theorem start (suit : ℕ) : Describes {} suit [] [] := by
  constructor <;> simp

/-- One more card of the trick. -/
theorem trickCard {suit : ℕ} {trick hand : List Card} {stats : PlayStats}
    (h : Describes stats suit trick hand) (c : Card) :
    Describes (previousCards stats { mDeck := [c] }) suit (trick ++ [c]) hand := by
  by_cases hc : c.mSuit = Card.trumps
  · refine ⟨?_, ?_, ?_, ?_, ?_⟩
    · simpa [previousCards, hc] using h.suits
    · simpa [previousCards, hc] using h.trumps
    · simpa [previousCards, hc] using h.highest
    · simp [previousCards, hc]
    · intro v
      have hbelow := h.below v
      simp only [previousCards, List.foldl_cons, List.foldl_nil, hc, if_true, List.mem_append,
        List.mem_singleton, or_and_right, exists_or, exists_eq_left, true_and, ← or_assoc,
        ← hbelow]
      split_ifs <;> omega
  · have hsame : previousCards stats { mDeck := [c] } = stats := by
      simp [previousCards, hc]
    rw [hsame]
    refine ⟨h.suits, h.trumps, h.highest, ?_, fun v => ?_⟩
    · simpa [hc, or_and_right, exists_or] using h.previous
    · simpa [hc, or_and_right, exists_or] using h.below v

/-- One more card of the hand. -/
theorem handCard {suit : ℕ} {trick hand : List Card} {stats : PlayStats}
    (h : Describes stats suit trick hand) (c : Card) :
    Describes (handCards stats { mDeck := [c] } suit) suit trick (hand ++ [c]) := by
  by_cases hc : c.mSuit = Card.trumps
  · refine ⟨?_, ?_, ?_, ?_, ?_⟩
    · simpa [handCards, hc, or_and_right, exists_or] using h.suits
    · simp [handCards, hc]
    · intro v
      have hhighest := h.highest v
      simp only [handCards, List.foldl_cons, List.foldl_nil, hc, if_true, List.mem_append,
        List.mem_singleton, or_and_right, exists_or, exists_eq_left, true_and, ← hhighest]
      split_ifs <;> omega
    · simpa [handCards, hc] using h.previous
    · simpa [handCards, hc] using h.below
  · by_cases hs : c.mSuit = suit
    · subst hs
      have hstep : handCards stats { mDeck := [c] } c.mSuit = { stats with hasSuit := true } := by
        simp [handCards, hc]
      rw [hstep]
      refine ⟨?_, ?_, ?_, h.previous, h.below⟩
      · simp [hc]
      · simpa [hc, or_and_right, exists_or] using h.trumps
      · simpa [hc, or_and_right, exists_or] using h.highest
    · have hsame : handCards stats { mDeck := [c] } suit = stats := by
        simp [handCards, hc, hs]
      rw [hsame]
      refine ⟨?_, ?_, ?_, h.previous, h.below⟩
      · simpa [hs, or_and_right, exists_or] using h.suits
      · simpa [hc, or_and_right, exists_or] using h.trumps
      · simpa [hc, or_and_right, exists_or] using h.highest

/-- The loop over the trick. -/
theorem trickCards {suit : ℕ} {trick hand : List Card} (l : List Card) {stats : PlayStats}
    (h : Describes stats suit trick hand) :
    Describes (previousCards stats { mDeck := l }) suit (trick ++ l) hand := by
  induction l generalizing stats trick with
  | nil =>
    rw [List.append_nil]
    exact h
  | cons c l ih =>
    rw [List.append_cons]
    exact ih (h.trickCard c)

/-- The loop over the hand. -/
theorem handCards {suit : ℕ} {trick hand : List Card} (l : List Card) {stats : PlayStats}
    (h : Describes stats suit trick hand) :
    Describes (Deck.handCards stats { mDeck := l } suit) suit trick (hand ++ l) := by
  induction l generalizing stats hand with
  | nil =>
    rw [List.append_nil]
    exact h
  | cons c l ih =>
    rw [List.append_cons]
    exact ih (h.handCard c)

end Describes

/-- The statistics of the trick and of the hand. -/
theorem playStats_describes (hand trick : Deck) (suit : ℕ) :
    Describes (handCards (previousCards {} trick) hand suit) suit trick.mDeck hand.mDeck :=
  ((Describes.start suit).trickCards trick.mDeck).handCards hand.mDeck

namespace Describes

variable {hand trick : Deck} {suit : ℕ} {stats : PlayStats}

/-- The highest trump of the trick as a bound for the others. -/
theorem beatsTrumps_iff (h : Describes stats suit trick.mDeck hand.mDeck)
    (hprevious : stats.previousTrump = true) (v : ℕ) :
    trick.BeatsTrumps v ↔ stats.maxPreviousTrump < v := by
  obtain ⟨t, ht, hsuit⟩ := h.previous.mp hprevious
  rw [← not_le, h.below]
  push Not
  constructor
  · intro hall
    exact ⟨(Nat.zero_le _).trans_lt (hall t ht hsuit) |>.ne', hall⟩
  · exact And.right

theorem highest_eq_zero (h : Describes stats suit trick.mDeck hand.mDeck) :
    stats.highestTrumpValue = 0 ↔ ∀ x ∈ hand.mDeck, x.mSuit = Card.trumps → x = Card.fool := by
  rw [← not_iff_not, ← ne_eq, ← Nat.pos_iff_ne_zero, h.highest]
  push Not
  refine exists_congr fun x => and_congr_right fun _ => and_congr_right fun hsuit => ?_
  rw [Nat.pos_iff_ne_zero, ne_eq, not_iff_not, ← Card.isFool_iff, Card.isFool]
  simp [hsuit]

/-- `TestPlayTrump` decides the rule on trumps for a card that is not the Fool. -/
theorem testPlayTrump_iff (h : Describes stats suit trick.mDeck hand.mDeck) {c : Card}
    (hc : c ∈ hand.mDeck) (hfool : c ≠ Card.fool) :
    testPlayTrump c stats = true ↔ TrumpRule hand trick c := by
  unfold testPlayTrump TrumpRule
  rw [← h.highest_eq_zero]
  by_cases ht : c.mSuit = Card.trumps
  · have hpos : stats.highestTrumpValue ≠ 0 := by
      rw [ne_eq, h.highest_eq_zero]
      intro hall
      exact hfool (hall c hc ht)
    simp only [hpos, false_or, ht, true_and, ← h.previous]
    by_cases hprevious : stats.previousTrump = true
    · simp only [hprevious, true_imp_iff, h.beatsTrumps_iff hprevious, if_true]
      rw [← h.highest]
      by_cases hv : stats.maxPreviousTrump < c.mValue <;> simp [hv]
    · simp [hprevious]
  · simp only [ht, false_and, or_false]
    by_cases htrumps : stats.hasTrump = true
    · simp [htrumps]
    · have hzero : stats.highestTrumpValue = 0 := by
        rw [h.highest_eq_zero]
        intro x hx hsuit
        exact absurd (h.trumps.mpr ⟨x, hx, hsuit⟩) htrumps
      simp [htrumps, hzero]

end Describes

/-- The suit that `CanPlayCard` finds behind the tests it begins with. -/
theorem canPlayCard_of_led {hand trick : Deck} {c : Card} {suit : ℕ} (hc : c ∈ hand.mDeck)
    (hfool : c ≠ Card.fool) (hled : ledSuit trick.mDeck = some suit) :
    hand.canPlayCard c trick =
      let stats := handCards (previousCards {} trick) hand suit
      if suit = Card.trumps then testPlayTrump c stats
      else if c.mSuit = suit then true
      else if stats.hasSuit then false
      else testPlayTrump c stats := by
  have hmem : (!hand.hasCard c) = false := by rw [hasCard_iff.mpr hc]; rfl
  have hnotfool : c.isFool = false := Bool.eq_false_iff.mpr fun h => hfool (Card.isFool_iff.mp h)
  obtain ⟨cards, owner⟩ := trick
  cases cards with
  | nil => cases hled
  | cons first rest =>
    unfold canPlayCard
    simp only [hmem, hnotfool, size, at', List.length_cons, List.getD_cons_zero,
      Bool.false_eq_true, if_false, Nat.add_eq_zero_iff, one_ne_zero, and_false]
    rw [ledSuit] at hled
    by_cases hfirst : first = Card.fool
    · rw [if_pos hfirst] at hled
      cases rest with
      | nil => cases hled
      | cons second rest =>
        have hsuit : second.mSuit = suit := Option.some.inj hled
        simp [Card.isFool_iff.mpr hfirst, hsuit]
    · rw [if_neg hfirst] at hled
      have hsuit : first.mSuit = suit := Option.some.inj hled
      have hf : first.isFool = false :=
        Bool.eq_false_iff.mpr fun h => hfirst (Card.isFool_iff.mp h)
      simp [hf, hsuit]

/-- On an empty trick, and behind the Fool alone, the owner of the hand plays what it wants. -/
theorem canPlayCard_of_no_led {hand trick : Deck} {c : Card} (hc : c ∈ hand.mDeck)
    (hled : ledSuit trick.mDeck = none) : hand.canPlayCard c trick = true := by
  obtain ⟨cards, owner⟩ := trick
  have hmem : (!hand.hasCard c) = false := by rw [hasCard_iff.mpr hc]; rfl
  cases cards with
  | nil => simp [canPlayCard, hmem, size]
  | cons first rest =>
    rw [ledSuit] at hled
    split_ifs at hled with hfirst
    rw [Option.map_eq_none_iff, List.head?_eq_none_iff] at hled
    simp [canPlayCard, hmem, size, at', hled, Card.isFool_iff.mpr hfirst]

theorem canPlayCard_fool {hand trick : Deck} (hc : Card.fool ∈ hand.mDeck) :
    hand.canPlayCard Card.fool trick = true := by
  have hmem : (!hand.hasCard Card.fool) = false := by rw [hasCard_iff.mpr hc]; rfl
  have hfool : Card.fool.isFool = true := rfl
  simp [canPlayCard, hmem, hfool]

/-- `CanPlayCard` decides the rule. -/
theorem canPlayCard_iff_legalPlay (hand trick : Deck) (c : Card) :
    hand.canPlayCard c trick = true ↔ LegalPlay hand trick c := by
  unfold LegalPlay
  by_cases hc : c ∈ hand.mDeck
  swap
  · have hmem : (!hand.hasCard c) = true := by
      rw [Bool.eq_false_iff.mpr fun h => hc (hasCard_iff.mp h)]
      rfl
    simp [canPlayCard, hmem, hc]
  simp only [hc, true_and]
  by_cases hfool : c = Card.fool
  · subst hfool
    rw [canPlayCard_fool hc]
    cases ledSuit trick.mDeck <;> simp [FollowRule]
  cases hled : ledSuit trick.mDeck with
  | none => simp [canPlayCard_of_no_led hc hled, FollowRule]
  | some suit =>
    have h := playStats_describes hand trick suit
    rw [canPlayCard_of_led hc hfool hled]
    simp only [FollowRule, hfool, false_or, ← h.testPlayTrump_iff hc hfool]
    by_cases hplain : suit = Card.trumps
    · simp [hplain]
    · have hsuits : (∀ x ∈ hand.mDeck, x.mSuit ≠ suit) ↔
          ¬(handCards (previousCards {} trick) hand suit).hasSuit = true := by
        rw [h.suits]
        push Not
        refine forall₂_congr fun x _ => ?_
        exact ⟨fun hne _ => hne, fun hne hs => hne (hs ▸ hplain) hs⟩
      rw [hsuits]
      by_cases hs : c.mSuit = suit
      · simp [hplain, hs]
      · by_cases hhas : (handCards (previousCards {} trick) hand suit).hasSuit = true <;>
          simp [hplain, hs, hhas]

/-- Only the cards of the hand and of the trick matter. -/
theorem canPlayCard_congr {hand hand' trick trick' : Deck} (hhand : hand.mDeck = hand'.mDeck)
    (htrick : trick.mDeck = trick'.mDeck) (c : Card) :
    hand.canPlayCard c trick = hand'.canPlayCard c trick' := by
  rw [Bool.eq_iff_iff, canPlayCard_iff_legalPlay, canPlayCard_iff_legalPlay]
  simp only [LegalPlay, FollowRule, TrumpRule, BeatsTrumps, hhand, htrick]

/-- A player is never stuck: the hand holds a card of the suit led, or a trump that is high
enough, or may play anything. -/
theorem exists_legalPlay {hand : Deck} (hne : hand.mDeck ≠ []) (trick : Deck) :
    ∃ c, LegalPlay hand trick c := by
  obtain ⟨c, hc⟩ := List.exists_mem_of_ne_nil hand.mDeck hne
  cases hled : ledSuit trick.mDeck with
  | none =>
    refine ⟨c, hc, ?_⟩
    rw [hled]
    trivial
  | some suit =>
    by_cases hfollow : suit ≠ Card.trumps ∧ ∃ x ∈ hand.mDeck, x.mSuit = suit
    · obtain ⟨hplain, x, hx, hs⟩ := hfollow
      refine ⟨x, hx, ?_⟩
      rw [hled]
      exact .inr (.inl ⟨hplain, hs⟩)
    · have hfree : suit = Card.trumps ∨ ∀ x ∈ hand.mDeck, x.mSuit ≠ suit := by
        by_contra hnot
        push Not at hnot
        exact hfollow hnot
      have hfrom : ∀ x ∈ hand.mDeck, TrumpRule hand trick x → ∃ c, LegalPlay hand trick c := by
        intro x hx hrule
        refine ⟨x, hx, ?_⟩
        rw [hled]
        exact .inr (.inr ⟨hfree, hrule⟩)
      by_cases htrump : ∀ x ∈ hand.mDeck, x.mSuit = Card.trumps → x = Card.fool
      · exact hfrom c hc (.inl htrump)
      · push Not at htrump
        obtain ⟨x, hx, hs, -⟩ := htrump
        by_cases hhigh : ∃ y ∈ hand.mDeck, y.mSuit = Card.trumps ∧ trick.BeatsTrumps y.mValue
        · obtain ⟨y, hy, hsy, hbeats⟩ := hhigh
          exact hfrom y hy (.inr ⟨hsy, fun _ _ => hbeats⟩)
        · exact hfrom x hx (.inr ⟨hs, fun _ h => absurd h hhigh⟩)

end Deck

namespace PlayerContext

/-- The first playable card of a hand that holds one. -/
theorem chooseRandomCard_spec {ctx : PlayerContext} (hne : ctx.mDeck.mDeck ≠ []) :
    ctx.chooseRandomCard ∈ ctx.mDeck.mDeck ∧
      ctx.mDeck.canPlayCard ctx.chooseRandomCard ctx.mCurrentTrick = true := by
  obtain ⟨c, hc⟩ := Deck.exists_legalPlay hne ctx.mCurrentTrick
  have hplay : ctx.isValid c = true := (Deck.canPlayCard_iff_legalPlay _ _ c).mpr hc
  obtain ⟨found, hfound⟩ : ∃ x, ctx.mDeck.mDeck.find? ctx.isValid = some x := by
    rw [← Option.isSome_iff_exists, List.find?_isSome]
    exact ⟨c, hc.1, hplay⟩
  have hchoice : ctx.chooseRandomCard = found := by rw [chooseRandomCard, hfound]; rfl
  have hvalid : ctx.isValid found = true := List.find?_some hfound
  rw [hchoice]
  exact ⟨List.mem_of_find?_eq_some hfound, hvalid⟩

/-- The cards that may be played are those of the rule, there always is one, and a player who
plays at random plays one. -/
theorem legal_play (hand trick : Deck) :
    (∀ c, hand.canPlayCard c trick = true ↔ Deck.LegalPlay hand trick c) ∧
      (hand.mDeck ≠ [] → ∃ c ∈ hand.mDeck, hand.canPlayCard c trick = true) ∧
      ∀ ctx : PlayerContext, ctx.mDeck = hand → ctx.mCurrentTrick = trick →
        hand.mDeck ≠ [] → (∀ c ∈ hand.mDeck, c.isValid = true) →
          ctx.chooseRandomCard.isValid = true ∧ ctx.chooseRandomCard ∈ hand.mDeck ∧
            hand.canPlayCard ctx.chooseRandomCard trick = true := by
  refine ⟨Deck.canPlayCard_iff_legalPlay hand trick, fun hne => ?_, ?_⟩
  · obtain ⟨c, hc⟩ := Deck.exists_legalPlay hne trick
    exact ⟨c, hc.1, (Deck.canPlayCard_iff_legalPlay hand trick c).mpr hc⟩
  · intro ctx hhand htrick hne hvalid
    subst hhand htrick
    obtain ⟨hmem, hplay⟩ := chooseRandomCard_spec hne
    exact ⟨hvalid _ hmem, hmem, hplay⟩

/-- Without a heart the hand has to cut the king of hearts. -/
theorem legal_play_cut :
    let hand : Deck := { mDeck := [⟨3, Card.spades⟩, ⟨7, Card.trumps⟩] }
    let trick : Deck := { mDeck := [⟨14, Card.hearts⟩] }
    let ctx : PlayerContext := { mDeck := hand, mCurrentTrick := trick }
    ctx.chooseRandomCard = ⟨7, Card.trumps⟩ ∧ ctx.chooseRandomCard.isValid = true ∧
      ctx.chooseRandomCard ∈ hand.mDeck ∧ hand.canPlayCard ctx.chooseRandomCard trick = true :=
  ⟨by decide, (legal_play _ _).2.2 _ rfl rfl (by decide) (by decide)⟩

end PlayerContext

end TarotClub
