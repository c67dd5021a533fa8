import Mathlib.Algebra.Order.BigOperators.Group.Finset
import TarotClub.EngineRun
import TarotClub.FairDeal
import TarotClub.Trick

namespace TarotClub.Engine

open Finset (range)
open TarotContext (seatAfter turnOf seated)

/-- The cards put aside: the discard, or the dog as long as there is none. -/
def aside (e : Engine) : Deck :=
  if e.mCtx.mDiscard.mDeck = [] then e.mCtx.mDog else e.mCtx.mDiscard

/-- The cards of all hands, of the trick on the table, of the tricks that are stored, and those
put aside. -/
def cards (e : Engine) : Multiset Card :=
  ∑ i ∈ range e.mCtx.mNbPlayers, (e.mPlayers i).cards + e.currentTrick.cards +
    ∑ j ∈ range 24, (e.mCtx.mTricks j).cards + e.aside.cards

/-- The cards are in the hands and put aside; no card has been played. -/
structure Dealt (n : ℕ) (e : Engine) : Prop where
  players : e.mCtx.mNbPlayers = n
  hands : ∀ i < n, (e.mPlayers i).size = numberOfCardsInHand n
  current : e.currentTrick.mDeck = []
  tricks : ∀ j < 24, (e.mCtx.mTricks j).mDeck = []
  cards : e.cards = Deck.tarotDeck.cards

/-- The dog has not been touched. -/
structure BeforeDiscard (n : ℕ) (e : Engine) : Prop extends Dealt n e where
  dog : e.mCtx.mDog.size = numberOfDogCards n
  discard : e.mCtx.mDiscard.mDeck = []

/-- The deal is being played, and `plays` are the cards played so far with the seats they were
accepted from: `mTrickCounter` tricks are stored, and the seats from the lead on have played
to the current one. -/
structure Playing (n : ℕ) (plays : List (Card × Place)) (e : Engine) : Prop where
  players : e.mCtx.mNbPlayers = n
  lead : (e.mCtx.leadOf e.mTrickCounter).value < n
  counter : e.mTrickCounter ≤ numberOfCardsInHand n
  position : e.mPosition ≤ n
  current : e.currentTrick.size = e.mPosition
  turn : e.mCurrentPlayer = seatAfter (e.mCtx.leadOf e.mTrickCounter) n e.mPosition
  tricks : ∀ j < 24, (e.mCtx.mTricks j).size = if j < e.mTrickCounter then n else 0
  hands : ∀ i < n, (e.mPlayers i).size + e.mTrickCounter +
    (if turnOf (e.mCtx.leadOf e.mTrickCounter) n i < e.mPosition then 1 else 0) =
      numberOfCardsInHand n
  taker : e.mCtx.mBid.taker.value < n
  plays_eq : plays = ((List.range e.mTrickCounter).flatMap fun j =>
      seated n (e.mCtx.leadOf j) (e.mCtx.mTricks j).mDeck) ++
    seated n (e.mCtx.leadOf e.mTrickCounter) e.currentTrick.mDeck
  cards : e.cards = Deck.tarotDeck.cards

/-- What holds in each step of a deal. -/
def Phase (n : ℕ) (plays : List (Card × Place)) (e : Engine) : Prop :=
  match e.mSequence with
  | .waitForCards | .waitForBid | .waitForShowBid | .waitForAllPassed
  | .waitForKingCall | .waitForShowKingCall | .waitForShowDog | .waitForDiscard =>
    e.BeforeDiscard n ∧ plays = []
  | .waitForStartDeal | .waitForHandle | .waitForShowHandle | .waitForPlayedCard
  | .waitForEndOfTrick =>
    e.Playing n plays ∧ e.mTrickCounter < numberOfCardsInHand n ∧ e.mPosition < n
  | .waitForShowCard => e.Playing n plays ∧ e.mTrickCounter < numberOfCardsInHand n
  | .waitForEndOfDeal =>
    e.Playing n plays ∧ e.mTrickCounter = numberOfCardsInHand n ∧ e.mPosition = 0
  | _ => e.mCtx.mNbPlayers = n

/-- The log of the cards that are accepted, begun anew with every deal. -/
def notePlay (_ : Engine) (a : Action) (plays : List (Card × Place)) : List (Card × Place) :=
  match a with
  | .newDeal _ => []
  | .card c p => plays ++ [(c, p)]
  | _ => plays

variable {n : ℕ} {plays : List (Card × Place)} {e e' : Engine}

theorem aside_of_nil (h : e.mCtx.mDiscard.mDeck = []) : e.aside = e.mCtx.mDog := if_pos h

theorem aside_of_size_pos (h : 0 < e.mCtx.mDiscard.size) : e.aside = e.mCtx.mDiscard :=
  if_neg fun hnil => by simp [Deck.size, hnil] at h

/-- Every pile is part of the 78 cards. -/
theorem hand_le_cards (e : Engine) {i : ℕ} (hi : i < e.mCtx.mNbPlayers) :
    (e.mPlayers i).cards ≤ e.cards := by
  calc (e.mPlayers i).cards
      ≤ ∑ j ∈ range e.mCtx.mNbPlayers, (e.mPlayers j).cards :=
        Finset.single_le_sum (fun _ _ => Multiset.zero_le _) (Finset.mem_range.mpr hi)
    _ ≤ e.cards := by
        unfold Engine.cards
        exact (Multiset.le_add_right _ _).trans
          ((Multiset.le_add_right _ _).trans (Multiset.le_add_right _ _))

theorem currentTrick_le_cards (e : Engine) : e.currentTrick.cards ≤ e.cards := by
  unfold Engine.cards
  exact (Multiset.le_add_left _ _).trans
    ((Multiset.le_add_right _ _).trans (Multiset.le_add_right _ _))

theorem trick_le_cards (e : Engine) {j : ℕ} (hj : j < 24) :
    (e.mCtx.mTricks j).cards ≤ e.cards := by
  calc (e.mCtx.mTricks j).cards
      ≤ ∑ j ∈ range 24, (e.mCtx.mTricks j).cards :=
        Finset.single_le_sum (f := fun j => (e.mCtx.mTricks j).cards)
          (fun _ _ => Multiset.zero_le _) (Finset.mem_range.mpr hj)
    _ ≤ e.cards := by
        unfold Engine.cards
        exact (Multiset.le_add_left _ _).trans (Multiset.le_add_right _ _)

theorem nodup_of_le_cards (h : e.cards = Deck.tarotDeck.cards) {s : Multiset Card}
    (hs : s ≤ e.cards) : s.Nodup :=
  Multiset.nodup_of_le (h ▸ hs) Deck.tarotDeck_nodup

theorem valid_of_le_cards (h : e.cards = Deck.tarotDeck.cards) {d : Deck}
    (hd : d.cards ≤ e.cards) : ∀ c ∈ d.mDeck, c.isValid = true :=
  fun _ hc => Deck.mem_tarotDeck.mp (Multiset.mem_of_le (h ▸ hd) hc)

/-- The dog is not empty, and there are at most 24 tricks. -/
theorem sizes (hn : n = 3 ∨ n = 4 ∨ n = 5) :
    0 < numberOfDogCards n ∧ numberOfCardsInHand n ≤ 24 ∧ 0 < numberOfCardsInHand n := by
  rcases hn with rfl | rfl | rfl <;> decide

end TarotClub.Engine
