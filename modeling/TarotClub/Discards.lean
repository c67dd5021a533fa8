import TarotClub.Cards
import TarotClub.ClientContext

namespace TarotClub

namespace Deck

/-- `Deck::AutoDiscard`: the dog is added to the hand, and what is put aside is not yet taken out
of it. -/
def autoDiscard (d dog : Deck) (nbPlayers : ℕ) : Deck × Deck :=
  let d := d.append dog
  (PlayerContext.gatherDiscard (numberOfDogCards nbPlayers) {} d.mDeck, d)

/-- The cards that the rules let the taker put aside. -/
def isDiscardable (c : Card) : Bool := c.mSuit ≠ Card.trumps && c.mValue ≠ 14

/-- What remains of the hand and the dog behind a discard. -/
def left (hand dog discard : Deck) : Deck := ((hand.append dog).removeDuplicates discard).2

end Deck

namespace PlayerContext

/-- The loop stops at the first cards that may be put aside. -/
theorem gatherDiscard_eq {enough : ℕ} (l : List Card) {discard : Deck}
    (h : discard.size < enough) :
    (gatherDiscard enough discard l).mDeck =
      discard.mDeck ++ (l.filter Deck.isDiscardable).take (enough - discard.size) := by
  induction l generalizing discard with
  | nil => simp [gatherDiscard]
  | cons c l ih =>
    by_cases hc : Deck.isDiscardable c = true
    · have hc' : c.mSuit ≠ Card.trumps ∧ c.mValue ≠ 14 := by
        simpa [Deck.isDiscardable] using hc
      have hsize : (discard.appendCard c).size = discard.size + 1 := by
        simp [Deck.appendCard, Deck.size]
      rw [gatherDiscard, if_pos hc', List.filter_cons_of_pos hc]
      dsimp only
      by_cases hlast : (discard.appendCard c).size = enough
      · rw [if_pos hlast, show enough - discard.size = 1 by omega]
        rfl
      · rw [if_neg hlast, ih (by omega), hsize,
          show enough - discard.size = enough - (discard.size + 1) + 1 by omega,
          List.take_succ_cons]
        simp [Deck.appendCard]
    · have hc' : ¬(c.mSuit ≠ Card.trumps ∧ c.mValue ≠ 14) := by
        simpa [Deck.isDiscardable] using hc
      rw [gatherDiscard, if_neg hc', List.filter_cons_of_neg hc]
      exact ih h

end PlayerContext

namespace Deck

theorem numberOfDogCards_pos {n : ℕ} (hn : n = 3 ∨ n = 4 ∨ n = 5) : 0 < numberOfDogCards n := by
  rcases hn with rfl | rfl | rfl <;> decide

section
variable (hand dog : Deck) {n : ℕ} (hn : n = 3 ∨ n = 4 ∨ n = 5)
include hn

theorem autoDiscard_mDeck :
    (hand.autoDiscard dog n).1.mDeck =
      ((hand.mDeck ++ dog.mDeck).filter isDiscardable).take (numberOfDogCards n) := by
  rw [autoDiscard]
  dsimp only
  rw [PlayerContext.gatherDiscard_eq _ (numberOfDogCards_pos hn)]
  simp [append, size]

/-- The number of cards put aside. -/
theorem autoDiscard_size :
    (hand.autoDiscard dog n).1.size =
      min (numberOfDogCards n) ((hand.mDeck ++ dog.mDeck).countP isDiscardable) := by
  rw [size, autoDiscard_mDeck hand dog hn, List.length_take, List.countP_eq_length_filter]

theorem autoDiscard_sublist :
    (hand.autoDiscard dog n).1.mDeck.Sublist (hand.mDeck ++ dog.mDeck) := by
  rw [autoDiscard_mDeck hand dog hn]
  exact (List.take_sublist _ _).trans List.filter_sublist

/-- What is put aside is legal, but for the number of cards. -/
theorem testDiscard_autoDiscard (hnodup : (hand.cards + dog.cards).Nodup) :
    hand.testDiscard (hand.autoDiscard dog n).1 dog n = true ↔
      (hand.autoDiscard dog n).1.size = numberOfDogCards n := by
  unfold testDiscard
  split_ifs with hsize
  · refine iff_of_true (List.all_eq_true.mpr fun c hc => ?_) hsize
    have hsub := autoDiscard_sublist hand dog hn
    have hown : c ∈ hand.mDeck ∨ c ∈ dog.mDeck := List.mem_append.mp (hsub.subset hc)
    have hlegal : isDiscardable c = true := by
      rw [autoDiscard_mDeck hand dog hn] at hc
      exact (List.mem_filter.mp (List.mem_of_mem_take hc)).2
    have honce : (hand.autoDiscard dog n).1.count c = 1 :=
      List.count_eq_one_of_mem ((Multiset.coe_nodup.mp hnodup).sublist hsub) hc
    simp only [isDiscardable, Bool.and_eq_true, decide_eq_true_eq] at hlegal
    simp [hown, hlegal, honce]
  · exact iff_of_false not_false hsize

/-- The automatic discard is legal, and leaves a hand of the right size, where the hand and the dog
hold as many plain cards other than kings as have to be put aside. -/
theorem auto_discard (hhand : hand.size = numberOfCardsInHand n)
    (hdog : dog.size = numberOfDogCards n) (hnodup : (hand.cards + dog.cards).Nodup) :
    let discard := (hand.autoDiscard dog n).1
    (hand.testDiscard discard dog n = true ∧
        (hand.left dog discard).size = numberOfCardsInHand n) ↔
      numberOfDogCards n ≤ (hand.mDeck ++ dog.mDeck).countP isDiscardable := by
  intro discard
  have hsize : discard.size = numberOfDogCards n ↔
      numberOfDogCards n ≤ (hand.mDeck ++ dog.mDeck).countP isDiscardable := by
    rw [autoDiscard_size hand dog hn, min_eq_left_iff]
  rw [testDiscard_autoDiscard hand dog hn hnodup, ← hsize]
  refine and_iff_left_of_imp fun h => ?_
  have hle : discard.cards ≤ (hand.append dog).cards :=
    Multiset.coe_le.mpr (autoDiscard_sublist hand dog hn).subperm
  rw [← cards_append] at hnodup
  have hcards := (removeDuplicates_of_le hnodup hle).2.1
  have hcard := congrArg Multiset.card hcards
  rw [Multiset.card_add, cards_append, Multiset.card_add] at hcard
  simp only [card_cards, hhand, hdog] at hcard
  have hsize' : discard.size = numberOfDogCards n := h
  rw [left]
  omega

end

/-- A hand of five players that has enough low cards. -/
theorem auto_discard_five :
    let hand : Deck := { mDeck := (List.range 13).map (⟨· + 1, Card.spades⟩) ++
      [⟨14, Card.hearts⟩, ⟨21, Card.trumps⟩] }
    let dog : Deck := { mDeck := (List.range 3).map (⟨· + 1, Card.clubs⟩) }
    let discard := (hand.autoDiscard dog 5).1
    hand.testDiscard discard dog 5 = true ∧ (hand.left dog discard).size = 15 :=
  (auto_discard _ _ (.inr (.inr rfl)) (by decide) (by decide)
    (Multiset.coe_nodup.mpr (by decide))).mpr (by decide)

/-- Fifteen trumps in the hand and three in the dog: nothing is put aside, and the discard is
refused. -/
theorem auto_discard_trumps :
    let hand : Deck := { mDeck := (List.range 15).map (⟨·, Card.trumps⟩) }
    let dog : Deck := { mDeck := (List.range 3).map (⟨· + 15, Card.trumps⟩) }
    hand.size = numberOfCardsInHand 5 ∧ dog.size = numberOfDogCards 5 ∧
      (hand.mDeck ++ dog.mDeck).Nodup ∧ (∀ c ∈ hand.mDeck ++ dog.mDeck, c.isValid = true) ∧
      (hand.autoDiscard dog 5).1 = {} ∧
      hand.testDiscard (hand.autoDiscard dog 5).1 dog 5 = false := by
  decide +kernel

end Deck

end TarotClub
