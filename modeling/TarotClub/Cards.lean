import Mathlib.Algebra.BigOperators.Group.Finset.Basic
import Mathlib.Algebra.Order.Group.Multiset
import Mathlib.Data.Multiset.AddSub
import Mathlib.Tactic.Abel
import TarotClub.Deck

namespace TarotClub

open Finset (range)

/-- Putting another value under one index changes a sum by the difference. -/
theorem sum_update_add {α β : Type*} [AddCommMonoid β] (g : α → β) (f : ℕ → α) {n i : ℕ}
    (hi : i < n) (v : α) :
    ∑ j ∈ range n, g (Function.update f i v j) + g (f i) = ∑ j ∈ range n, g (f j) + g v := by
  have hi' : i ∈ range n := Finset.mem_range.mpr hi
  have hrest : ∑ j ∈ (range n).erase i, g (Function.update f i v j) =
      ∑ j ∈ (range n).erase i, g (f j) :=
    Finset.sum_congr rfl fun j hj => by
      rw [Function.update_of_ne (Finset.ne_of_mem_erase hj)]
  rw [← Finset.add_sum_erase _ _ hi', ← Finset.add_sum_erase _ (fun j => g (f j)) hi', hrest,
    Function.update_self]
  abel

namespace Deck

/-- The cards of a deck, their order forgotten. -/
def cards (d : Deck) : Multiset Card := d.mDeck

@[simp] theorem card_cards (d : Deck) : d.cards.card = d.size := rfl

@[simp] theorem cards_empty : ({} : Deck).cards = 0 := rfl

@[simp] theorem cards_clear (d : Deck) : d.clear.cards = 0 := rfl

@[simp] theorem cards_setOwner (d : Deck) (team : Team) : (d.setOwner team).cards = d.cards := rfl

@[simp] theorem cards_append (d e : Deck) : (d.append e).cards = d.cards + e.cards :=
  (Multiset.coe_add _ _).symm

@[simp] theorem cards_appendCard (d : Deck) (c : Card) :
    (d.appendCard c).cards = d.cards + {c} := (Multiset.coe_add _ _).symm

@[simp] theorem mem_cards {d : Deck} {c : Card} : c ∈ d.cards ↔ c ∈ d.mDeck := Iff.rfl

theorem cards_eq_zero {d : Deck} : d.cards = 0 ↔ d.mDeck = [] := Multiset.coe_eq_zero _

theorem cards_of_nil {d : Deck} (h : d.mDeck = []) : d.cards = 0 := cards_eq_zero.mpr h

theorem size_eq_zero {d : Deck} : d.size = 0 ↔ d.mDeck = [] := List.length_eq_zero_iff

@[simp] theorem hasCard_iff {d : Deck} {c : Card} : d.hasCard c = true ↔ c ∈ d.mDeck := by
  simp [hasCard]

theorem cards_remove {d : Deck} (h : d.cards.Nodup) {c : Card} (hc : c ∈ d.mDeck) :
    (d.remove c).cards + {c} = d.cards := by
  have herase : (d.remove c).mDeck = d.mDeck.erase c := by
    rw [List.Nodup.erase_eq_filter (Multiset.coe_nodup.mp h)]
    exact List.filter_congr fun x _ => by by_cases h : x = c <;> simp [h]
  calc (d.remove c).cards + {c} = (d.mDeck.erase c : List Card) + ({c} : Multiset Card) := by
        rw [cards, herase]
    _ = d.cards := by
        rw [← Multiset.coe_erase, add_comm, Multiset.singleton_add, cards,
          Multiset.cons_erase (Multiset.mem_coe.mpr hc)]

theorem size_remove {d : Deck} (h : d.cards.Nodup) {c : Card} (hc : c ∈ d.mDeck) :
    (d.remove c).size + 1 = d.size := by
  rw [← card_cards d, ← cards_remove h hc, Multiset.card_add, Multiset.card_singleton, card_cards]

theorem removeDuplicates_foldl (l : List Card) {k : ℕ} {d : Deck} (hd : d.cards.Nodup)
    (hle : (l : Multiset Card) ≤ d.cards) :
    (l.foldl removeDuplicatesStep (k, d)).1 = k + l.length ∧
      (l.foldl removeDuplicatesStep (k, d)).2.cards + (l : Multiset Card) = d.cards ∧
      (l.foldl removeDuplicatesStep (k, d)).2.mOwner = d.mOwner := by
  induction l generalizing k d with
  | nil => exact ⟨rfl, add_zero _, rfl⟩
  | cons c l ih =>
    have hc : c ∈ d.mDeck := Multiset.mem_of_le hle (Multiset.mem_cons_self c l)
    have hrem := cards_remove hd hc
    have hle' : (l : Multiset Card) ≤ (d.remove c).cards := by
      rw [← Multiset.cons_coe, ← Multiset.singleton_add, ← hrem, add_comm] at hle
      exact le_of_add_le_add_right hle
    have hd' : (d.remove c).cards.Nodup :=
      Multiset.nodup_of_le (hrem ▸ Multiset.le_add_right _ _) hd
    obtain ⟨hk, hcards, howner⟩ := ih (k := k + 1) hd' hle'
    simp only [List.foldl_cons, removeDuplicatesStep, hasCard_iff.mpr hc, if_true]
    refine ⟨by rw [List.length_cons]; omega, ?_, howner⟩
    rw [← hrem, ← hcards, ← Multiset.cons_coe, ← Multiset.singleton_add]
    abel

/-- Removing cards that are there, each once. -/
theorem removeDuplicates_of_le {d e : Deck} (hd : d.cards.Nodup) (he : e.cards ≤ d.cards) :
    (d.removeDuplicates e).1 = e.size ∧ (d.removeDuplicates e).2.cards + e.cards = d.cards ∧
      (d.removeDuplicates e).2.mOwner = d.mOwner := by
  obtain ⟨hk, hrest⟩ := removeDuplicates_foldl e.mDeck (k := 0) hd he
  exact ⟨hk.trans (Nat.zero_add _), hrest⟩

/-- One card taken out of a deck, if it is there. -/
theorem removeDuplicatesStep_mDeck (acc : ℕ × Deck) (c : Card) :
    (removeDuplicatesStep acc c).2.mDeck = acc.2.mDeck.filter fun x => x ≠ c := by
  unfold removeDuplicatesStep
  by_cases hc : acc.2.hasCard c = true
  · rw [if_pos hc]
    rfl
  · rw [if_neg hc]
    refine (List.filter_eq_self.mpr fun x hx => ?_).symm
    rw [hasCard_iff] at hc
    exact decide_eq_true fun h => hc (h ▸ hx)

/-- What is left of a deck. -/
theorem removeDuplicates_mDeck (d e : Deck) :
    (d.removeDuplicates e).2.mDeck = d.mDeck.filter fun c => c ∉ e.mDeck := by
  have hfold : ∀ (l : List Card) (acc : ℕ × Deck),
      (l.foldl removeDuplicatesStep acc).2.mDeck = acc.2.mDeck.filter fun c => c ∉ l := by
    intro l
    induction l with
    | nil => simp
    | cons c l ih =>
      intro acc
      rw [List.foldl_cons, ih, removeDuplicatesStep_mDeck, List.filter_filter]
      refine List.filter_congr fun x _ => ?_
      simp [Bool.and_comm]
  exact hfold e.mDeck (0, d)

/-- The number counts the cards that are gone, when there is one of each. -/
theorem removeDuplicates_fst {d : Deck} (hd : d.mDeck.Nodup) (e : Deck) :
    (d.removeDuplicates e).1 + (d.removeDuplicates e).2.size = d.size := by
  have hfold : ∀ (l : List Card) (acc : ℕ × Deck), acc.2.mDeck.Nodup →
      (l.foldl removeDuplicatesStep acc).1 + (l.foldl removeDuplicatesStep acc).2.size =
        acc.1 + acc.2.size := by
    intro l
    induction l with
    | nil => exact fun _ _ => rfl
    | cons c l ih =>
      intro acc hacc
      have hnext : (removeDuplicatesStep acc c).2.mDeck.Nodup := by
        rw [removeDuplicatesStep_mDeck]
        exact hacc.filter _
      rw [List.foldl_cons, ih _ hnext]
      unfold removeDuplicatesStep
      by_cases hc : acc.2.hasCard c = true
      · have hsize := size_remove (Multiset.coe_nodup.mpr hacc) (hasCard_iff.mp hc)
        rw [if_pos hc]
        dsimp only
        omega
      · rw [if_neg hc]
  exact (hfold e.mDeck (0, d) hd).trans (Nat.zero_add _)

/-- The 78 cards. -/
def tarotDeck : Deck := ({} : Deck).createTarotDeck

theorem tarotDeck_nodup : tarotDeck.cards.Nodup :=
  Multiset.coe_nodup.mpr (by decide +kernel)

@[simp] theorem tarotDeck_size : tarotDeck.size = 78 := by decide +kernel

/-- The cards of the deck are the valid ones. -/
theorem mem_tarotDeck {c : Card} : c ∈ tarotDeck.mDeck ↔ c.isValid = true := by
  constructor
  · have hall : ∀ c ∈ tarotDeck.mDeck, c.isValid = true := by decide +kernel
    exact hall c
  · intro hvalid
    obtain ⟨hsuit, hvalue⟩ := Card.valid_bounds hvalid
    have hall : ∀ s ≤ 4, ∀ v ≤ 21, Card.isValid ⟨v, s⟩ = true → ⟨v, s⟩ ∈ tarotDeck.mDeck := by
      decide +kernel
    exact hall c.mSuit hsuit c.mValue hvalue hvalid

end Deck

end TarotClub
