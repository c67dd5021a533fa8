import TarotClub.DealGenerator
import TarotClub.FairDeal
import TarotClub.TrickWinner

namespace TarotClub

open Finset (range)

namespace Deck

/-- The highest trump is the 1, and the Fool is not there. -/
def hasOnlyOneOfTrump (d : Deck) : Bool := d.highestTrump.mValue = 1 && !d.hasFool

/-- `shuffle` is what `std::shuffle` does with the generator of a seed. -/
def shuffle (shuffle : ℕ → List Card → List Card) (d : Deck) (seed : ℕ) : Deck :=
  { d with mDeck := shuffle seed d.mDeck }

/-- The trumps of the deck are the 1 alone. -/
def PetitSec (d : Deck) : Prop :=
  (d.mDeck.filter fun c => c.mSuit = Card.trumps) = [⟨1, Card.trumps⟩]

theorem hasOnlyOneOfTrump_iff {d : Deck} (hd : d.mDeck.Nodup) :
    d.hasOnlyOneOfTrump = true ↔ d.PetitSec := by
  have htrumps : ∀ c, c ∈ (d.mDeck.filter fun c => c.mSuit = Card.trumps) ↔
      c ∈ d.mDeck ∧ c.mSuit = Card.trumps := by
    intro c
    rw [List.mem_filter, decide_eq_true_iff]
  simp only [hasOnlyOneOfTrump, Bool.and_eq_true, decide_eq_true_iff, Bool.not_eq_true',
    Bool.eq_false_iff, ne_eq, hasFool_iff]
  rcases d.highestTrump_cases with ⟨hdef, hzero⟩ | ⟨hmem, hsuit, hpos⟩
  · refine iff_of_false (fun h => ?_) fun h => ?_
    · rw [hdef] at h
      exact absurd h.1 (by decide)
    · have hpetit := (htrumps ⟨1, Card.trumps⟩).mp (h ▸ List.mem_singleton_self _)
      exact absurd (hzero _ hpetit.1 hpetit.2) one_ne_zero
  constructor
  · rintro ⟨hone, hfool⟩
    have hpetit : d.highestTrump = ⟨1, Card.trumps⟩ := by
      cases hhigh : d.highestTrump
      simp only [hhigh] at hone hsuit
      rw [hone, hsuit]
    have hall : ∀ c ∈ d.mDeck.filter fun c => c.mSuit = Card.trumps, c = ⟨1, Card.trumps⟩ := by
      rintro ⟨value, suit⟩ hc
      obtain ⟨hmem', hs⟩ := (htrumps _).mp hc
      obtain rfl : suit = Card.trumps := hs
      have hle := le_highestTrump hsuit hmem' rfl
      have hne : value ≠ 0 := by
        rintro rfl
        exact hfool hmem'
      rw [le_antisymm (hone ▸ hle) (Nat.one_le_iff_ne_zero.mpr hne)]
    have hlist := List.eq_replicate_of_mem hall
    have hlength := hd.filter fun c => c.mSuit = Card.trumps
    rw [hlist, List.nodup_replicate] at hlength
    have hpos : 0 < (d.mDeck.filter fun c => c.mSuit = Card.trumps).length :=
      List.length_pos_of_mem ((htrumps _).mpr ⟨hmem, hsuit⟩)
    rw [PetitSec, hlist, le_antisymm hlength hpos]
    rfl
  · intro h
    have honly : ∀ c ∈ d.mDeck, c.mSuit = Card.trumps → c = ⟨1, Card.trumps⟩ := by
      intro c hc hs
      exact List.mem_singleton.mp (h ▸ (htrumps c).mpr ⟨hc, hs⟩)
    refine ⟨by rw [honly _ hmem hsuit], fun hfool => ?_⟩
    exact absurd (honly _ hfool rfl) (by decide)

end Deck

namespace DealGenerator

/-- One turn of the loop over the players. -/
def dealHand (deck : Deck) (n : ℕ) (acc : Bool × DealGenerator) (i : ℕ) : Bool × DealGenerator :=
  let hand := (acc.2.mPlayers i).append (deck.mid (i * n) n)
  (acc.1 && !hand.hasOnlyOneOfTrump,
    { acc.2 with mPlayers := Function.update acc.2.mPlayers i hand })

/-- `CreateRandomDeal`; the seed, which nothing reads afterwards, is not kept. -/
def createRandomDeal (shuffle : ℕ → List Card → List Card) (g : DealGenerator)
    (numberOfPlayers seed : ℕ) : Bool × DealGenerator :=
  let deck := (({} : Deck).createTarotDeck).shuffle shuffle seed
  let g := { g.clear with mNbPlayers := if numberOfPlayers > 5 then 4 else numberOfPlayers }
  let n := numberOfCardsInHand g.mNbPlayers
  let (valid, g) := (List.range g.mNbPlayers).foldl (dealHand deck n) (true, g)
  (valid, { g with mDogDeck := deck.mid (g.mNbPlayers * n) (deck.size - g.mNbPlayers * n) })

/-- The first `k` hands are dealt to an editor whose hands were empty. -/
theorem foldl_dealHand (deck : Deck) (n k : ℕ) {g : DealGenerator}
    (h : ∀ i < k, (g.mPlayers i).mDeck = []) :
    let r := (List.range k).foldl (dealHand deck n) (true, g)
    (r.1 = true ↔ ∀ i < k, (r.2.mPlayers i).hasOnlyOneOfTrump = false) ∧
      (∀ i < k, (r.2.mPlayers i).mDeck = (deck.mid (i * n) n).mDeck) ∧
      (∀ i, k ≤ i → r.2.mPlayers i = g.mPlayers i) ∧ r.2.mNbPlayers = g.mNbPlayers := by
  induction k with
  | zero => simp
  | succ k ih =>
    obtain ⟨hvalid, hhands, hlater, hplayers⟩ := ih fun i hi => h i (by omega)
    rw [List.range_succ, List.foldl_append, List.foldl_cons, List.foldl_nil]
    generalize (List.range k).foldl (dealHand deck n) (true, g) = acc at *
    have hempty : (acc.2.mPlayers k).mDeck = [] := by
      rw [hlater k le_rfl]
      exact h k k.lt_succ_self
    have hcards : ((acc.2.mPlayers k).append (deck.mid (k * n) n)).mDeck =
        (deck.mid (k * n) n).mDeck := by
      rw [Deck.append, hempty, List.nil_append]
    have hbefore : ∀ i < k, (dealHand deck n acc k).2.mPlayers i = acc.2.mPlayers i := fun i hi =>
      Function.update_of_ne (by omega) _ _
    have hnew : (dealHand deck n acc k).2.mPlayers k =
        (acc.2.mPlayers k).append (deck.mid (k * n) n) := Function.update_self _ _ _
    refine ⟨?_, fun i hi => ?_, fun i hi => ?_, hplayers⟩
    · have hfst : (dealHand deck n acc k).1 =
          (acc.1 && !((acc.2.mPlayers k).append (deck.mid (k * n) n)).hasOnlyOneOfTrump) := rfl
      rw [hfst, Bool.and_eq_true, hvalid, Bool.not_eq_true']
      constructor
      · rintro ⟨hall, hlast⟩ i hi
        rcases Nat.lt_succ_iff_lt_or_eq.mp hi with hlt | rfl
        · rw [hbefore i hlt]
          exact hall i hlt
        · rwa [hnew]
      · intro hall
        refine ⟨fun i hi => ?_, ?_⟩
        · rw [← hbefore i hi]
          exact hall i (by omega)
        · rw [← hnew]
          exact hall k k.lt_succ_self
    · rcases Nat.lt_succ_iff_lt_or_eq.mp hi with hlt | rfl
      · rw [hbefore i hlt, hhands i hlt]
      · rw [hnew, hcards]
    · rw [← hlater i (by omega)]
      exact Function.update_of_ne (by omega) _ _

/-- A random deal gives out the pack, and is valid when nobody has the petit as the only trump. -/
theorem random_deal {n : ℕ} (hn : n = 3 ∨ n = 4 ∨ n = 5) (shuffle : ℕ → List Card → List Card)
    (seed : ℕ) (hshuffle : (shuffle seed Deck.tarotDeck.mDeck).Perm Deck.tarotDeck.mDeck)
    (g : DealGenerator) :
    let r := g.createRandomDeal shuffle n seed
    (∀ i < n, (r.2.mPlayers i).size = numberOfCardsInHand n) ∧
      r.2.mDogDeck.size = numberOfDogCards n ∧
      ∑ i ∈ range n, (r.2.mPlayers i).cards + r.2.mDogDeck.cards = Deck.tarotDeck.cards ∧
      (∀ i, n ≤ i → i < 5 → (r.2.mPlayers i).mDeck = []) ∧
      (r.1 = true ↔ ¬ ∃ i < n, (r.2.mPlayers i).PetitSec) := by
  intro r
  set deck := Deck.tarotDeck.shuffle shuffle seed with hdeck
  have hcards : deck.cards = Deck.tarotDeck.cards := Multiset.coe_eq_coe.mpr hshuffle
  have hfair := createRandomDeal_fair hcards hn {}
  have hcount : (if n > 5 then 4 else n) = n := if_neg (by omega)
  have hdealt := foldl_dealHand deck (numberOfCardsInHand n) n
    (g := { g.clear with mNbPlayers := n }) (fun i hi => by
      have hi5 : i < 5 := by omega
      simp only [clear, if_pos hi5, Deck.clear])
  obtain ⟨acc, hacc, hr⟩ : ∃ acc : Bool × DealGenerator,
      (List.range n).foldl (dealHand deck (numberOfCardsInHand n))
        (true, { g.clear with mNbPlayers := n }) = acc ∧
      r = (acc.1, { acc.2 with
        mDogDeck := deck.mid (acc.2.mNbPlayers * numberOfCardsInHand n)
          (deck.size - acc.2.mNbPlayers * numberOfCardsInHand n) }) := by
    refine ⟨_, rfl, ?_⟩
    simp only [r, createRandomDeal, hcount]
    rfl
  rw [hacc] at hdealt
  obtain ⟨hvalid, hhands, hlater, hplayers⟩ := hdealt
  dsimp only at hr hplayers
  rw [hplayers] at hr
  rw [hr]
  have hcards : ∀ i < n, (acc.2.mPlayers i).cards =
      ((TarotClub.createRandomDeal deck n {}).mPlayers i).cards :=
    fun i hi => congrArg Multiset.ofList (hhands i hi)
  have hsize : ∀ i < n, (acc.2.mPlayers i).size = numberOfCardsInHand n := by
    intro i hi
    rw [← Deck.card_cards, hcards i hi]
    exact hfair.hands i hi
  refine ⟨hsize, hfair.dog, ?_, fun i hi hi5 => ?_, ?_⟩
  · rw [Finset.sum_congr rfl fun i hi => hcards i (Finset.mem_range.mp hi)]
    exact hfair.cards
  · rw [hlater i hi]
    simp only [clear, if_pos hi5, Deck.clear]
  · have hnodup : ∀ i < n, (acc.2.mPlayers i).mDeck.Nodup := by
      intro i hi
      have hhand := hfair.hand_nodup hi
      rw [← hcards i hi] at hhand
      exact Multiset.coe_nodup.mp hhand
    rw [hvalid]
    push Not
    refine forall₂_congr fun i hi => ?_
    rw [← Deck.hasOnlyOneOfTrump_iff (hnodup i hi), Bool.not_eq_true]

/-- The pack in its own order, dealt to three players: the third one has only trumps. -/
theorem random_deal_plain :
    let r := ({} : DealGenerator).createRandomDeal (fun _ l => l) 3 7
    r.1 = true ∧ (r.2.mPlayers 2).mDeck.length = 24 ∧
      ∑ i ∈ range 3, (r.2.mPlayers i).cards + r.2.mDogDeck.cards = Deck.tarotDeck.cards := by
  intro r
  obtain ⟨hsizes, -, hcards, -, -⟩ :=
    random_deal (.inl rfl) (fun _ l => l) 7 (List.Perm.refl _) ({} : DealGenerator)
  exact ⟨by decide +kernel, hsizes 2 (by decide), hcards⟩

end DealGenerator

end TarotClub
