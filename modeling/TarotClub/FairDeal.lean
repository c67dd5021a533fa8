import Mathlib.Algebra.Order.BigOperators.Group.Finset
import TarotClub.Cards
import TarotClub.Engine

namespace TarotClub

open Finset (range)

/-- The hands have their full size, and with the dog they are the 78 cards. -/
structure Deal.Fair (n : ℕ) (deal : Deal) : Prop where
  hands : ∀ i < n, (deal.mPlayers i).size = numberOfCardsInHand n
  dog : deal.mDogDeck.size = numberOfDogCards n
  cards : ∑ i ∈ range n, (deal.mPlayers i).cards + deal.mDogDeck.cards = Deck.tarotDeck.cards

namespace Deal.Fair

variable {n : ℕ} {deal : Deal}

theorem nodup (h : deal.Fair n) :
    (∑ i ∈ range n, (deal.mPlayers i).cards + deal.mDogDeck.cards).Nodup :=
  h.cards ▸ Deck.tarotDeck_nodup

theorem hand_nodup (h : deal.Fair n) {i : ℕ} (hi : i < n) : (deal.mPlayers i).cards.Nodup := by
  refine Multiset.nodup_of_le ?_ h.nodup
  exact (Finset.single_le_sum (fun _ _ => Multiset.zero_le _) (Finset.mem_range.mpr hi)).trans
    (Multiset.le_add_right _ _)

/-- No card is in two hands. -/
theorem unique_hand (h : deal.Fair n) {i j : ℕ} (hi : i < n) (hj : j < n) {c : Card}
    (hci : c ∈ (deal.mPlayers i).mDeck) (hcj : c ∈ (deal.mPlayers j).mDeck) : i = j := by
  by_contra hne
  have hmem : j ∈ (range n).erase i := Finset.mem_erase.mpr ⟨Ne.symm hne, Finset.mem_range.mpr hj⟩
  have hle : (deal.mPlayers j).cards ≤ ∑ x ∈ (range n).erase i, (deal.mPlayers x).cards :=
    Finset.single_le_sum (fun _ _ => Multiset.zero_le _) hmem
  have hnodup := h.nodup
  rw [← Finset.add_sum_erase _ _ (Finset.mem_range.mpr hi), add_assoc] at hnodup
  refine Multiset.disjoint_left.mp (Multiset.disjoint_of_nodup_add hnodup)
    (Deck.mem_cards.mpr hci) (Multiset.mem_add.mpr (.inl ?_))
  exact Multiset.mem_of_le hle (Deck.mem_cards.mpr hcj)

/-- The cards of the deal are the valid ones. -/
theorem isValid_iff (h : deal.Fair n) (c : Card) :
    c.isValid = true ↔ (∃ i < n, c ∈ (deal.mPlayers i).mDeck) ∨ c ∈ deal.mDogDeck.mDeck := by
  rw [← Deck.mem_tarotDeck, ← Deck.mem_cards, ← h.cards, Multiset.mem_add, Multiset.mem_sum]
  simp

end Deal.Fair

/-- One attempt of `CreateRandomDeal` with a deck that has been shuffled: the cards go out in
order, and the dog is what remains. -/
def createRandomDeal (shuffled : Deck) : Dealer := fun nbPlayers _ =>
  let n := numberOfCardsInHand nbPlayers
  { mPlayers := fun i => shuffled.mid (i * n) n
    mDogDeck := shuffled.mid (nbPlayers * n) (shuffled.size - nbPlayers * n) }

theorem Deck.mid_mDeck {d : Deck} {fromPos size : ℕ} (h : fromPos < d.size)
    (hs : size ≤ d.size) : (d.mid fromPos size).mDeck = (d.mDeck.drop fromPos).take size := by
  simp only [mid, if_neg (not_le.mpr h), if_neg (not_lt.mpr hs)]

theorem sum_chunks (l : List Card) (n k : ℕ) :
    ∑ i ∈ range k, (((l.drop (i * n)).take n : List Card) : Multiset Card) =
      (l.take (k * n) : List Card) := by
  induction k with
  | zero => simp
  | succ k ih => rw [Finset.sum_range_succ, ih, Multiset.coe_add, ← List.take_add, Nat.succ_mul]

theorem createRandomDeal_fair {shuffled : Deck} (h : shuffled.cards = Deck.tarotDeck.cards)
    {n : ℕ} (hn : n = 3 ∨ n = 4 ∨ n = 5) (distribution : Distribution) :
    (createRandomDeal shuffled n distribution).Fair n := by
  have hsize : shuffled.size = 78 := by
    have hcard := congrArg Multiset.card h
    rwa [Deck.card_cards, Deck.card_cards, Deck.tarotDeck_size] at hcard
  have hlength : shuffled.mDeck.length = 78 := hsize
  have hall : n * numberOfCardsInHand n < 78 := by rcases hn with rfl | rfl | rfl <;> decide
  have hle : ∀ i < n, i * numberOfCardsInHand n + numberOfCardsInHand n ≤
      n * numberOfCardsInHand n := fun i hi => by
    rw [← Nat.succ_mul]
    exact Nat.mul_le_mul_right _ hi
  have hpos : 0 < numberOfCardsInHand n := by rcases hn with rfl | rfl | rfl <;> decide
  have hhand : ∀ i < n, (shuffled.mid (i * numberOfCardsInHand n) (numberOfCardsInHand n)).mDeck =
      (shuffled.mDeck.drop (i * numberOfCardsInHand n)).take (numberOfCardsInHand n) :=
    fun i hi => by
      have := hle i hi
      exact Deck.mid_mDeck (by omega) (by omega)
  have hdog : (shuffled.mid (n * numberOfCardsInHand n)
      (shuffled.size - n * numberOfCardsInHand n)).mDeck =
        shuffled.mDeck.drop (n * numberOfCardsInHand n) := by
    rw [Deck.mid_mDeck (by omega) (by omega)]
    exact List.take_of_length_le (by rw [List.length_drop]; exact le_rfl)
  refine ⟨fun i hi => ?_, ?_, ?_⟩
  · have := hle i hi
    rw [createRandomDeal, Deck.size, hhand i hi, List.length_take, List.length_drop, hlength]
    omega
  · rw [createRandomDeal, Deck.size, hdog, List.length_drop, hlength]
    rcases hn with rfl | rfl | rfl <;> decide
  · have hsum : ∑ i ∈ range n, ((createRandomDeal shuffled n distribution).mPlayers i).cards =
        ((shuffled.mDeck.take (n * numberOfCardsInHand n) : List Card) : Multiset Card) := by
      rw [← sum_chunks]
      exact Finset.sum_congr rfl fun i hi =>
        congrArg Multiset.ofList (hhand i (Finset.mem_range.mp hi))
    rw [hsum, createRandomDeal, Deck.cards, hdog, Multiset.coe_add, List.take_append_drop]
    exact h

/-- The deal of a deck that nobody has shuffled. -/
def plainDealer : Dealer := createRandomDeal Deck.tarotDeck

theorem plainDealer_fair {n : ℕ} (hn : n = 3 ∨ n = 4 ∨ n = 5) (distribution : Distribution) :
    (plainDealer n distribution).Fair n :=
  createRandomDeal_fair rfl hn distribution

end TarotClub
