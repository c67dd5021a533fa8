import Mathlib.Data.List.GetD
import Mathlib.Data.List.Sort
import TarotClub.Deck
import TarotClub.Hex
import TarotClub.Memory

namespace TarotClub

namespace Sorter

def cDefault : Str := str "TCSDH"

/-- The order that the constructor takes over. -/
def orderOf (sorting : Str) : Str := if sorting.length = 5 then sorting else cDefault

/-- What `SetWeight` writes into `mWeight`: the indices and the weights. -/
def setWeight (order : Str) : List (ℕ × ℕ) :=
  (List.range 5).map fun i => (Card.suitFromName [order.getD (4 - i) 0], 100 * i)

/-- The memory from `mWeight` on, which held something before it was written. -/
def mWeight (held : ℕ → ℕ) (writes : List (ℕ × ℕ)) : ℕ → ℕ := Memory.write held writes

def getWeight (memory : ℕ → ℕ) (c : Card) : ℕ := (memory c.mSuit + c.mValue) % 2 ^ 16

/-- `operator()`: whether the first card goes in front of the second. -/
def inFront (memory : ℕ → ℕ) (c1 c2 : Card) : Bool := getWeight memory c1 > getWeight memory c2

end Sorter

namespace Deck

/-- What `std::sort` may leave of some cards: all of them, and none behind one that it goes in
front of. -/
def Sorted (inFront : Card → Card → Bool) (cards result : List Card) : Prop :=
  result.Perm cards ∧ result.Pairwise fun a b => inFront b a = false

/-- The comparison of a sorter made from a text. -/
def sorter (held : ℕ → ℕ) (order : Str) : Card → Card → Bool :=
  Sorter.inFront (Sorter.mWeight held (Sorter.setWeight (Sorter.orderOf order)))

/-- `Deck::Sort`, with one of the arrangements that `std::sort` may leave. -/
def sort (held : ℕ → ℕ) (d : Deck) (order : Str) : Deck :=
  if d.size ≠ 0 then
    { d with mDeck := d.mDeck.insertionSort fun a b => sorter held order b a = false }
  else d

/-- The letter of a suit. -/
def letter (suit : ℕ) : UInt8 := Card.suits.getD suit 0

/-- The deck is sorted as it should be: only the five weights are written and read, each is written
before the sorter is used, no card is lost, the cards of a suit stand together with the highest in
front, and the suits in the order that the letters give. -/
structure SortsWell (d : Deck) (order : Str) (result : List Card) : Prop where
  writes : d.size ≠ 0 → ∀ w ∈ Sorter.setWeight (Sorter.orderOf order), w.1 < 5
  reads : ∀ c ∈ d.mDeck, c.mSuit < 5
  weights : d.size ≠ 0 →
    ∀ suit < 5, ∃ w ∈ Sorter.setWeight (Sorter.orderOf order), w.1 = suit
  perm : result.Perm d.mDeck
  grouped : ∀ a b c, [a, b, c].Sublist result → a.mSuit = c.mSuit → b.mSuit = a.mSuit
  decreasing : result.Pairwise fun a b => a.mSuit = b.mSuit → b.mValue < a.mValue ∨ b = a
  ordered : order.Perm (str "TCSDH") →
    result.Pairwise fun a b => order.idxOf (letter a.mSuit) ≤ order.idxOf (letter b.mSuit)

end Deck

/-! ### The weights -/

namespace Sorter

theorem inFront_eq_false {memory : ℕ → ℕ} {a b : Card} :
    inFront memory b a = false ↔ getWeight memory b ≤ getWeight memory a := by
  rw [inFront, decide_eq_false_iff_not, not_lt]

/-- The suits and their letters. -/
theorem suit_letter :
    (∀ suit < 5, Card.suitFromName [Deck.letter suit] = suit ∧ Deck.letter suit ∈ str "TCSDH") ∧
      ∀ c ∈ str "TCSDH", Card.suitFromName [c] < 5 := by
  decide +kernel

theorem letter_suitFromName {c : UInt8} (h : Card.suitFromName [c] < 5) :
    Deck.letter (Card.suitFromName [c]) = c := by
  have hall : ∀ c : UInt8, Card.suitFromName [c] < 5 → Deck.letter (Card.suitFromName [c]) = c :=
    forall_byte (by decide +kernel)
  exact hall c h

theorem letter_inj {s t : ℕ} (hs : s < 5) (ht : t < 5) (h : Deck.letter s = Deck.letter t) :
    s = t := by
  rw [← (suit_letter.1 s hs).1, h, (suit_letter.1 t ht).1]

section
variable {order : Str}

theorem getD_mem (h : order.Perm (str "TCSDH")) {p : ℕ} (hp : p < 5) :
    order.getD p 0 ∈ str "TCSDH" := by
  have hlength : order.length = 5 := h.length_eq
  rw [List.getD_eq_getElem _ _ (by omega)]
  exact h.mem_iff.mp (List.getElem_mem _)

theorem idxOf_lt (h : order.Perm (str "TCSDH")) {suit : ℕ} (hsuit : suit < 5) :
    order.idxOf (Deck.letter suit) < order.length := by
  apply List.idxOf_lt_length_of_mem
  exact h.mem_iff.mpr (suit_letter.1 suit hsuit).2

/-- The weight of a suit is written, and falls with the place of its letter. -/
theorem mem_setWeight (h : order.Perm (str "TCSDH")) {suit : ℕ} (hsuit : suit < 5) :
    (suit, 100 * (4 - order.idxOf (Deck.letter suit))) ∈ setWeight order := by
  have hlength : order.length = 5 := h.length_eq
  have hplace := idxOf_lt h hsuit
  have hback : 4 - (4 - order.idxOf (Deck.letter suit)) = order.idxOf (Deck.letter suit) := by
    omega
  refine List.mem_map.mpr ⟨4 - order.idxOf (Deck.letter suit), ?_, ?_⟩
  · rw [List.mem_range]
    omega
  · rw [hback, List.getD_eq_getElem _ _ hplace, List.getElem_idxOf, (suit_letter.1 suit hsuit).1]

theorem mWeight_eq (h : order.Perm (str "TCSDH")) (held : ℕ → ℕ) {suit : ℕ} (hsuit : suit < 5) :
    mWeight held (setWeight order) suit = 100 * (4 - order.idxOf (Deck.letter suit)) := by
  have hlength : order.length = 5 := h.length_eq
  have hnodup : order.Nodup := h.nodup_iff.mpr (by decide)
  apply Memory.write_of_mem _ (mem_setWeight h hsuit)
  rw [setWeight, List.map_map]
  apply List.Nodup.map_on _ List.nodup_range
  intro i hi j hj heq
  rw [List.mem_range] at hi hj
  have hi' := letter_suitFromName (suit_letter.2 _ (getD_mem h (show 4 - i < 5 by omega)))
  have hj' := letter_suitFromName (suit_letter.2 _ (getD_mem h (show 4 - j < 5 by omega)))
  have hsame : order.getD (4 - i) 0 = order.getD (4 - j) 0 := by
    calc order.getD (4 - i) 0 = Deck.letter (Card.suitFromName [order.getD (4 - i) 0]) := hi'.symm
      _ = Deck.letter (Card.suitFromName [order.getD (4 - j) 0]) := congrArg Deck.letter heq
      _ = order.getD (4 - j) 0 := hj'
  rw [List.getD_eq_getElem _ _ (by omega), List.getD_eq_getElem _ _ (by omega),
    hnodup.getElem_inj_iff] at hsame
  omega

end

/-- The weights are all written only by the five letters. -/
theorem perm_of_weights {order : Str} (hlength : order.length = 5)
    (h : ∀ suit < 5, ∃ w ∈ setWeight order, w.1 = suit) : order.Perm (str "TCSDH") := by
  have hsub : str "TCSDH" ⊆ order := by
    intro c hc
    have hsuit := suit_letter.2 c hc
    obtain ⟨w, hw, hname⟩ := h _ hsuit
    obtain ⟨i, hi, rfl⟩ := List.mem_map.mp hw
    rw [List.mem_range] at hi
    dsimp only at hname
    have hsame : order.getD (4 - i) 0 = c := by
      rw [← letter_suitFromName hsuit, ← hname, letter_suitFromName (by rw [hname]; exact hsuit)]
    rw [← hsame, List.getD_eq_getElem _ _ (by omega)]
    exact List.getElem_mem _
  have hsubperm : (str "TCSDH").Subperm order := List.Nodup.subperm (by decide) hsub
  exact (hsubperm.perm_of_length_le hlength.le).symm

theorem orderOf_perm {order : Str} (h : order.length ≠ 5 ∨ order.Perm (str "TCSDH")) :
    (orderOf order).Perm (str "TCSDH") := by
  rw [orderOf]
  split_ifs with hlength
  · exact h.resolve_left (not_not.mpr hlength)
  · exact List.Perm.refl _

end Sorter

/-! ### The sorted deck -/

namespace Deck

theorem sort_sorted (held : ℕ → ℕ) (d : Deck) (order : Str) :
    Sorted (sorter held order) d.mDeck (d.sort held order).mDeck := by
  -- the weights are numbers, whatever has been written: the comparison is a weak order
  have htotal : Std.Total fun a b : Card => sorter held order b a = false := by
    constructor
    intro a b
    rw [sorter, Sorter.inFront_eq_false, Sorter.inFront_eq_false]
    exact Nat.le_total _ _
  have htrans : IsTrans Card fun a b => sorter held order b a = false := by
    constructor
    intro a b c hab hbc
    rw [sorter, Sorter.inFront_eq_false] at hab hbc ⊢
    exact hbc.trans hab
  rw [sort]
  split_ifs with hsize
  · exact ⟨List.perm_insertionSort _ _, List.pairwise_insertionSort _ _⟩
  · rw [not_not, size, List.length_eq_zero_iff] at hsize
    rw [hsize]
    exact ⟨List.Perm.refl _, List.Pairwise.nil⟩

theorem mSuit_lt {c : Card} (h : c.isValid = true) : c.mSuit < 5 :=
  Nat.lt_succ_of_le (Card.valid_bounds h).1

section
variable {o order : Str} {held : ℕ → ℕ}

/-- Of two cards that may stand in this order, the suit of the first has the earlier letter, and in
one suit it is the higher card. -/
theorem order_of_inFront (ho : o.Perm (str "TCSDH")) (horder : Sorter.orderOf order = o) {a b : Card}
    (ha : a.isValid = true) (hb : b.isValid = true) (h : sorter held order b a = false) :
    o.idxOf (letter a.mSuit) ≤ o.idxOf (letter b.mSuit) ∧
      (a.mSuit = b.mSuit → b.mValue < a.mValue ∨ b = a) := by
  have hlength : o.length = 5 := ho.length_eq
  have hweight : ∀ c : Card, c.isValid = true →
      Sorter.getWeight (Sorter.mWeight held (Sorter.setWeight o)) c =
        100 * (4 - o.idxOf (letter c.mSuit)) + c.mValue := by
    intro c hc
    have hvalue := (Card.valid_bounds hc).2
    rw [Sorter.getWeight, Sorter.mWeight_eq ho held (mSuit_lt hc), Nat.mod_eq_of_lt (by omega)]
  have hle : Sorter.getWeight (Sorter.mWeight held (Sorter.setWeight o)) b ≤
      Sorter.getWeight (Sorter.mWeight held (Sorter.setWeight o)) a := by
    rw [← Sorter.inFront_eq_false, ← horder]
    exact h
  rw [hweight a ha, hweight b hb] at hle
  have hva := (Card.valid_bounds ha).2
  have hvb := (Card.valid_bounds hb).2
  have hpa := Sorter.idxOf_lt ho (mSuit_lt ha)
  have hpb := Sorter.idxOf_lt ho (mSuit_lt hb)
  constructor
  · omega
  · intro hsuit
    rw [hsuit] at hle
    rcases Nat.lt_or_eq_of_le (show b.mValue ≤ a.mValue by omega) with hlt | heq
    · exact .inl hlt
    · right
      obtain ⟨value, suit⟩ := a
      obtain ⟨value', suit'⟩ := b
      dsimp only at heq hsuit
      rw [heq, hsuit]

/-- With the five letters, the deck is sorted as it should be. -/
theorem sortsWell_of_perm {d : Deck} (hvalid : ∀ c ∈ d.mDeck, c.isValid = true) {result : List Card}
    (hsorted : Sorted (sorter held order) d.mDeck result)
    (ho : (Sorter.orderOf order).Perm (str "TCSDH")) : SortsWell d order result := by
  obtain ⟨hperm, hpairs⟩ := hsorted
  have hvalid' : ∀ c ∈ result, c.isValid = true := by
    intro c hc
    exact hvalid c (hperm.mem_iff.mp hc)
  have hstand : result.Pairwise fun a b =>
      (Sorter.orderOf order).idxOf (letter a.mSuit) ≤ (Sorter.orderOf order).idxOf (letter b.mSuit) ∧
        (a.mSuit = b.mSuit → b.mValue < a.mValue ∨ b = a) := by
    apply hpairs.imp_of_mem
    intro a b ha hb h
    exact order_of_inFront ho rfl (hvalid' a ha) (hvalid' b hb) h
  constructor
  case writes =>
    intro _ w hw
    obtain ⟨i, hi, rfl⟩ := List.mem_map.mp hw
    exact Sorter.suit_letter.2 _ (Sorter.getD_mem ho (by omega))
  case reads =>
    intro c hc
    exact mSuit_lt (hvalid c hc)
  case weights =>
    intro _ suit hsuit
    exact ⟨_, Sorter.mem_setWeight ho hsuit, rfl⟩
  case perm => exact hperm
  case grouped =>
    intro a b c habc hsuit
    have hmem := habc.subset
    have hpair := hstand.sublist habc
    rw [List.pairwise_cons, List.pairwise_cons] at hpair
    have hab := (hpair.1 b (by simp)).1
    have hbc := (hpair.2.1 c (by simp)).1
    rw [← hsuit] at hbc
    have hplace := Nat.le_antisymm hbc hab
    have hb := mSuit_lt (hvalid' b (hmem (by simp)))
    have ha := mSuit_lt (hvalid' a (hmem (by simp)))
    have hmem' := ho.mem_iff.mpr (Sorter.suit_letter.1 b.mSuit hb).2
    exact Sorter.letter_inj hb ha (List.idxOf_inj hmem' |>.mp hplace)
  case decreasing => exact hstand.imp fun h => h.2
  case ordered =>
    intro hletters
    have hsame : Sorter.orderOf order = order := if_pos hletters.length_eq
    rw [hsame] at hstand
    exact hstand.imp fun h => h.1

end

/-- Whatever `std::sort` does with the comparison, a deck of valid cards is sorted as it should be
exactly when it is empty, or the text does not have five characters (and the default is taken), or
it is made of the five letters. -/
theorem sort_iff {d : Deck} (hvalid : ∀ c ∈ d.mDeck, c.isValid = true) (held : ℕ → ℕ) (order : Str)
    {result : List Card} (hsorted : Sorted (sorter held order) d.mDeck result) :
    SortsWell d order result ↔
      d.size = 0 ∨ order.length ≠ 5 ∨ order.Perm (str "TCSDH") := by
  constructor
  · intro hwell
    by_contra hnot
    obtain ⟨hsize, hnot⟩ := not_or.mp hnot
    obtain ⟨hlength, hperm⟩ := not_or.mp hnot
    rw [not_not] at hlength
    have hsame : Sorter.orderOf order = order := if_pos hlength
    have hweights := hwell.weights hsize
    rw [hsame] at hweights
    exact hperm (Sorter.perm_of_weights hlength hweights)
  · rintro (hsize | horder)
    · obtain rfl : result = [] := by
        rw [size, List.length_eq_zero_iff] at hsize
        rw [hsize] at hsorted
        exact hsorted.1.eq_nil
      have hempty : d.mDeck = [] := List.length_eq_zero_iff.mp hsize
      exact {
        writes := fun hne => absurd hsize hne
        reads := by simp [hempty]
        weights := fun hne => absurd hsize hne
        perm := by rw [hempty]
        grouped := by simp
        decreasing := List.Pairwise.nil
        ordered := fun _ => List.Pairwise.nil }
    · exact sortsWell_of_perm hvalid hsorted (Sorter.orderOf_perm horder)

/-- A hand of three suits, the hearts in front. -/
theorem sort_iff_hearts :
    let d : Deck := { mDeck := [⟨1, Card.spades⟩, ⟨3, Card.hearts⟩, Card.fool, ⟨14, Card.hearts⟩] }
    SortsWell d (str "HTSDC") (d.sort (fun _ => 0) (str "HTSDC")).mDeck ↔
      d.size = 0 ∨ (str "HTSDC").length ≠ 5 ∨ (str "HTSDC").Perm (str "TCSDH") := by
  intro d
  exact sort_iff (by decide) (fun _ => 0) (str "HTSDC") (sort_sorted _ _ _)

/-- An unknown letter has a weight written far behind the array, and its suit none. -/
theorem unknown_letter_writes_outside :
    let d : Deck := { mDeck := [⟨3, Card.hearts⟩] }
    (255, 0) ∈ Sorter.setWeight (Sorter.orderOf (str "TCSDX")) ∧
      (∀ w ∈ Sorter.setWeight (Sorter.orderOf (str "TCSDX")), w.1 ≠ Card.hearts) ∧
        ∀ held, ¬ SortsWell d (str "TCSDX") (d.sort held (str "TCSDX")).mDeck := by
  intro d
  have hwrites : (255, 0) ∈ Sorter.setWeight (Sorter.orderOf (str "TCSDX")) := by decide
  refine ⟨hwrites, by decide, ?_⟩
  intro held hwell
  exact absurd (hwell.writes (by decide) _ hwrites) (by decide)

end Deck

end TarotClub
