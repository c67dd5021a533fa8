import Mathlib.Algebra.BigOperators.Group.Finset.Piecewise
import Mathlib.Algebra.Order.BigOperators.Group.Finset
import TarotClub.Cards
import TarotClub.ClientContext
import TarotClub.Counter
import TarotClub.Handles
import TarotClub.Memory
import TarotClub.Runs

namespace TarotClub.Deck

open Counter
open Finset (range)

/-- `UpdateStatistics`: the statistics of a hand after a reset. -/
def statistics (d : Deck) : Statistics := d.analyzeSuits (d.analyzeTrumps {})

/-- The number of cards of a suit. -/
def suitSize (d : Deck) (suit : ℕ) : ℕ := d.mDeck.countP fun c => c.mSuit = suit

/-- The number of cards of a value in the plain suits. -/
def figures (d : Deck) (value : ℕ) : ℕ :=
  d.mDeck.countP fun c => c.mSuit ≠ Card.trumps ∧ c.mValue = value

/-- Whether the hand has the value at a place of `distr`. -/
def holds (d : Deck) (suit k : ℕ) : Bool := (⟨k + 1, suit⟩ : Card) ∈ d.mDeck

/-- Every counter is the number that it stands for. -/
structure Exact (d : Deck) (stats : Statistics) : Prop where
  trumps : stats.trumps = d.mDeck.countP fun c => c.mSuit = Card.trumps
  majorTrumps :
    stats.majorTrumps = d.mDeck.countP fun c => c.mSuit = Card.trumps ∧ 15 ≤ c.mValue
  oudlers : stats.oudlers = d.mDeck.countP Card.isOudler
  kings : stats.kings = d.figures Card.king
  queens : stats.queens = d.figures Card.queen
  knights : stats.knights = d.figures Card.knight
  jacks : stats.jacks = d.figures Card.jack
  weddings : stats.weddings = ((range 4).filter fun suit =>
    ⟨Card.king, suit⟩ ∈ d.mDeck ∧ ⟨Card.queen, suit⟩ ∈ d.mDeck).card
  longSuits : stats.longSuits = ((range 4).filter fun suit => 5 ≤ d.suitSize suit).card
  cuts : stats.cuts = ((range 4).filter fun suit => d.suitSize suit = 0).card
  singletons : stats.singletons = ((range 4).filter fun suit => d.suitSize suit = 1).card
  sequences : stats.sequences = ∑ suit ∈ range 4, (Runs.long (d.holds suit) 14 5).card

/-! ### The trumps -/

theorem raises_majorTrumps : Raises 256 Statistics.majorTrumps analyzeTrumpsStep fun c =>
    if decide (c.mSuit = Card.trumps ∧ 15 ≤ c.mValue) then 1 else 0 := by
  intro stats c hs
  rw [analyzeTrumpsStep_eq]
  exact u8_ite hs _

variable {d : Deck}

/-- A counter of `AnalyzeTrumps`, in a deck that a byte can count. -/
theorem analyzeTrumps_countP {read : Statistics → ℕ} {P : Card → Bool}
    (h : Raises 256 read analyzeTrumpsStep fun c => if P c then 1 else 0)
    (hreset : ∀ n, read { nbCards := n } = 0) (hsize : d.size < 256) :
    read (d.analyzeTrumps {}) = d.mDeck.countP P := by
  -- no counter passes the number of cards, so its byte does not turn over
  have hlt : d.mDeck.countP P < 256 := List.countP_le_length.trans_lt hsize
  have hzero := hreset (u8 d.size)
  have hbyte : read { nbCards := u8 d.size } < 256 := hzero.trans_lt (Nat.zero_lt_succ 255)
  rw [analyzeTrumps, h.countP _ hbyte, hzero, Nat.zero_add, Nat.mod_eq_of_lt hlt]

/-- The counters of `AnalyzeSuits`. -/
def suitCounters (stats : Statistics) : List ℕ :=
  [stats.kings, stats.queens, stats.knights, stats.jacks, stats.weddings, stats.longSuits,
    stats.cuts, stats.singletons, stats.sequences]

/-- `AnalyzeTrumps` leaves them as they were reset. -/
theorem analyzeTrumps_suitCounters (d : Deck) :
    suitCounters (d.analyzeTrumps {}) = [0, 0, 0, 0, 0, 0, 0, 0, 0] := by
  have hstep : ∀ stats c, suitCounters (analyzeTrumpsStep stats c) = suitCounters stats := by
    intro stats c
    rw [analyzeTrumpsStep_eq]
    rfl
  have hfold : ∀ (l : List Card) stats,
      suitCounters (l.foldl analyzeTrumpsStep stats) = suitCounters stats := by
    intro l
    induction l with
    | nil => exact fun _ => rfl
    | cons c l ih => exact fun stats => (ih _).trans (hstep stats c)
  exact hfold d.mDeck { nbCards := u8 d.size }

/-! ### The suits -/

/-- A counter of `AnalyzeSuits` is the sum over the four suits. -/
theorem analyzeSuits_sum {read : Statistics → ℕ} {found : ℕ → ℕ}
    (h : Raises 256 read (analyzeSuit d) found) {stats : Statistics} (hs : read stats = 0)
    (hsmall : ∑ suit ∈ range 4, found suit < 256) :
    read (d.analyzeSuits stats) = ∑ suit ∈ range 4, found suit := by
  have hsum : ((List.range 4).map found).sum = ∑ suit ∈ range 4, found suit := rfl
  rw [analyzeSuits, h.foldl _ (by omega), hs, Nat.zero_add, hsum, Nat.mod_eq_of_lt hsmall]

/-- One that goes up for each suit with a property is the number of these suits. -/
theorem analyzeSuits_card {read : Statistics → ℕ} {P : ℕ → Prop} [DecidablePred P]
    (h : Raises 256 read (analyzeSuit d) fun suit => if P suit then 1 else 0)
    {stats : Statistics} (hs : read stats = 0) :
    read (d.analyzeSuits stats) = ((range 4).filter P).card := by
  have hsmall : ((range 4).filter P).card ≤ 4 := Finset.card_filter_le _ _
  rw [Finset.card_filter] at hsmall ⊢
  exact analyzeSuits_sum h hs (by omega)

theorem length_filter_suit (d : Deck) (suit : ℕ) :
    (d.mDeck.filter fun c => c.mSuit = suit).length = d.suitSize suit :=
  List.countP_eq_length_filter.symm

/-- A value of a suit is seen exactly when the card is there. -/
theorem any_eq_holds (d : Deck) (suit k : ℕ) :
    ((d.mDeck.filter fun c => c.mSuit = suit).any fun c => c.mValue = k + 1) = d.holds suit k := by
  rw [holds, Bool.eq_iff_iff, List.any_eq_true, decide_eq_true_iff]
  constructor
  · rintro ⟨⟨value, suit'⟩, hmem, hvalue⟩
    obtain ⟨hmem, hsuit⟩ := List.mem_filter.mp hmem
    rw [decide_eq_true_iff] at hsuit hvalue
    dsimp only at hsuit hvalue
    rwa [hsuit, hvalue] at hmem
  · intro hmem
    exact ⟨_, List.mem_filter.mpr ⟨hmem, decide_eq_true rfl⟩, decide_eq_true rfl⟩

/-- What the loop over the cards of a suit writes into `distr`; the index is unsigned. -/
def distrWrites (d : Deck) (suit : ℕ) : List (ℕ × Bool) :=
  ((d.mDeck.filter fun c => c.mSuit = suit).map fun c => (c.mValue + 2 ^ 32 - 1) % 2 ^ 32).map
    fun k => (k, true)

/-- The cards of a plain suit are written into the fourteen places of `distr`, and what stands there
behind the loop is what the suit holds. -/
theorem distr_written (hvalid : ∀ c ∈ d.mDeck, c.isValid = true) {suit : ℕ} (hsuit : suit < 4) :
    (∀ w ∈ distrWrites d suit, w.1 < 14) ∧
      Memory.write (fun _ => false) (distrWrites d suit) = d.holds suit := by
  have hindex : ∀ c ∈ d.mDeck.filter fun c => c.mSuit = suit,
      (c.mValue + 2 ^ 32 - 1) % 2 ^ 32 + 1 = c.mValue ∧ c.mValue ≤ 14 := by
    intro c hc
    obtain ⟨hc, hplain⟩ := List.mem_filter.mp hc
    rw [decide_eq_true_iff] at hplain
    have htrumps : c.mSuit < Card.trumps := hplain.trans_lt hsuit
    have hbounds := hvalid c hc
    rw [Card.isValid, if_neg htrumps.ne, if_pos htrumps, Bool.and_eq_true, decide_eq_true_iff,
      decide_eq_true_iff] at hbounds
    omega
  constructor
  · intro w hw
    obtain ⟨k, hk, rfl⟩ := List.mem_map.mp hw
    obtain ⟨c, hc, rfl⟩ := List.mem_map.mp hk
    have hle := hindex c hc
    dsimp only
    omega
  · funext k
    rw [distrWrites, Memory.write_const, ← any_eq_holds, Bool.eq_iff_iff, List.any_eq_true]
    simp only [List.mem_map, decide_eq_true_eq, ite_eq_left_iff, Bool.false_eq_true, imp_false,
      not_not]
    apply exists_congr
    intro c
    apply and_congr_right
    intro hc
    have hle := hindex c hc
    omega

/-- Counting suit by suit leaves out the trumps only. -/
theorem sum_suits_countP {l : List Card} (hvalid : ∀ c ∈ l, c.isValid = true) (value : ℕ) :
    ∑ suit ∈ range 4, (l.filter fun c => c.mSuit = suit).countP (fun c => c.mValue = value) =
      l.countP fun c => c.mSuit ≠ Card.trumps ∧ c.mValue = value := by
  simp only [List.countP_filter]
  induction l with
  | nil => rfl
  | cons c l ih =>
    have hrest := ih fun c' hc' => hvalid c' (List.mem_cons_of_mem c hc')
    have hsuit : c.mSuit ≤ 4 := (Card.valid_bounds (hvalid c List.mem_cons_self)).1
    simp only [List.countP_cons, Finset.sum_add_distrib, hrest]
    congr 1
    by_cases hvalue : c.mValue = value
    · have htrumps : c.mSuit ∈ range 4 ↔ c.mSuit ≠ Card.trumps := by
        rw [Finset.mem_range]
        change c.mSuit < 4 ↔ c.mSuit ≠ 4
        omega
      simp only [hvalue, decide_true, Bool.true_and, decide_eq_true_eq, Finset.sum_ite_eq,
        and_true, htrumps]
    · simp [hvalue]

/-- A value that is counted in every suit. -/
theorem analyzeSuits_figures {read : Statistics → ℕ} {value : ℕ}
    (h : Raises 256 read (analyzeSuit d) fun suit =>
      (d.mDeck.filter fun c => c.mSuit = suit).countP fun c => c.mValue = value)
    (hvalid : ∀ c ∈ d.mDeck, c.isValid = true) (hsize : d.size < 256) {stats : Statistics}
    (hs : read stats = 0) : read (d.analyzeSuits stats) = d.figures value := by
  have hsum := sum_suits_countP hvalid value
  have hle : d.figures value ≤ d.size := List.countP_le_length
  rw [figures] at hle ⊢
  rw [← hsum] at hle ⊢
  exact analyzeSuits_sum h hs (by omega)

theorem raises_weddings : Raises 256 Statistics.weddings (analyzeSuit d) fun suit =>
    if ⟨Card.king, suit⟩ ∈ d.mDeck ∧ ⟨Card.queen, suit⟩ ∈ d.mDeck then 1 else 0 := by
  intro stats suit hs
  have hboth : (d.holds suit 13 && d.holds suit 12) = true ↔
      (⟨Card.king, suit⟩ : Card) ∈ d.mDeck ∧ (⟨Card.queen, suit⟩ : Card) ∈ d.mDeck := by
    rw [Bool.and_eq_true, holds, holds, decide_eq_true_iff, decide_eq_true_iff]
  simp only [analyzeSuit, any_eq_holds, hboth]
  exact u8_ite hs _

section Size

variable (hsize : d.size < 256)
include hsize

theorem u8_suitSize (suit : ℕ) :
    u8 (d.mDeck.filter fun c => c.mSuit = suit).length = d.suitSize suit := by
  have hle : d.suitSize suit ≤ d.size := List.countP_le_length
  rw [length_filter_suit, u8, Nat.mod_eq_of_lt (by omega)]

theorem raises_longSuits : Raises 256 Statistics.longSuits (analyzeSuit d) fun suit =>
    if 5 ≤ d.suitSize suit then 1 else 0 := by
  intro stats suit hs
  simp only [analyzeSuit, u8_suitSize hsize]
  exact u8_ite hs _

theorem raises_cuts : Raises 256 Statistics.cuts (analyzeSuit d) fun suit =>
    if d.suitSize suit = 0 then 1 else 0 := by
  intro stats suit hs
  simp only [analyzeSuit, u8_suitSize hsize]
  exact u8_ite hs _

theorem raises_singletons : Raises 256 Statistics.singletons (analyzeSuit d) fun suit =>
    if d.suitSize suit = 1 then 1 else 0 := by
  intro stats suit hs
  simp only [analyzeSuit, u8_suitSize hsize]
  exact u8_ite hs _

end Size

/-! ### The sequences -/

/-- The detection is the loop that counts long runs, with a byte for their number. -/
theorem foldl_sequenceStep (distr : ℕ → Bool) (acc : ℕ × Bool × ℕ) (l : List ℕ) :
    l.foldl (sequenceStep distr) (acc.1, acc.2.1, u8 acc.2.2) =
      ((l.foldl (Runs.step distr 5) acc).1, (l.foldl (Runs.step distr 5) acc).2.1,
        u8 (l.foldl (Runs.step distr 5) acc).2.2) := by
  apply List.foldl_hom (fun acc : ℕ × Bool × ℕ => (acc.1, acc.2.1, u8 acc.2.2))
  intro acc k
  unfold sequenceStep Runs.step
  split_ifs
  · simp only [u8, Nat.mod_add_mod]
  · rfl
  · rfl

theorem detected_sequences (distr : ℕ → Bool) {count : ℕ} (h : count < 256) (n : ℕ) :
    ((List.range n).foldl (sequenceStep distr) (0, false, count)).2.2 =
      (count + (Runs.long distr n 5).card) % 256 := by
  obtain ⟨len, -, hfold⟩ := Runs.foldl_step distr (show 0 < 5 by decide) n count
  have hbyte := foldl_sequenceStep distr (0, false, count) (List.range n)
  have hcount : u8 count = count := Nat.mod_eq_of_lt h
  dsimp only at hbyte
  rw [hfold, hcount] at hbyte
  rw [hbyte]
  rfl

theorem raises_sequences : Raises 256 Statistics.sequences (analyzeSuit d) fun suit =>
    (Runs.long (d.holds suit) 14 5).card := by
  intro stats suit hs
  simp only [analyzeSuit, any_eq_holds]
  exact detected_sequences _ hs 14

/-! ### The statistics -/

theorem size_lt_of_nodup (hvalid : ∀ c ∈ d.mDeck, c.isValid = true) (hnodup : d.mDeck.Nodup) :
    d.size < 256 := by
  have hsub : d.mDeck.Subperm tarotDeck.mDeck := by
    apply List.Nodup.subperm hnodup
    intro c hc
    exact mem_tarotDeck.mpr (hvalid c hc)
  calc d.size ≤ tarotDeck.size := hsub.length_le
    _ = 78 := tarotDeck_size
    _ < 256 := by norm_num

theorem statistics_exact_of_size (hvalid : ∀ c ∈ d.mDeck, c.isValid = true)
    (hsize : d.size < 256) : Exact d d.statistics := by
  have hreset := d.analyzeTrumps_suitCounters
  simp only [suitCounters, List.cons.injEq, and_true] at hreset
  obtain ⟨kings, queens, knights, jacks, weddings, longSuits, cuts, singletons, sequences⟩ := hreset
  have hruns : ∑ suit ∈ range 4, (Runs.long (d.holds suit) 14 5).card < 256 := by
    calc ∑ suit ∈ range 4, (Runs.long (d.holds suit) 14 5).card
        ≤ ∑ _suit ∈ range 4, 14 :=
          Finset.sum_le_sum fun _ _ => Runs.card_long_le (by decide)
      _ < 256 := by decide
  exact {
    trumps := analyzeTrumps_countP raises_trumps (fun _ => rfl) hsize
    majorTrumps := analyzeTrumps_countP raises_majorTrumps (fun _ => rfl) hsize
    oudlers := analyzeTrumps_countP raises_oudlers (fun _ => rfl) hsize
    kings := analyzeSuits_figures (fun _ _ _ => rfl) hvalid hsize kings
    queens := analyzeSuits_figures (fun _ _ _ => rfl) hvalid hsize queens
    knights := analyzeSuits_figures (fun _ _ _ => rfl) hvalid hsize knights
    jacks := analyzeSuits_figures (fun _ _ _ => rfl) hvalid hsize jacks
    weddings := analyzeSuits_card raises_weddings weddings
    longSuits := analyzeSuits_card (raises_longSuits hsize) longSuits
    cuts := analyzeSuits_card (raises_cuts hsize) cuts
    singletons := analyzeSuits_card (raises_singletons hsize) singletons
    sequences := analyzeSuits_sum raises_sequences sequences hruns }

/-! ### The order of the cards -/

theorem raiseIf_comm (a b : Bool) (n : ℕ) : raiseIf a (raiseIf b n) = raiseIf b (raiseIf a n) := by
  cases a <;> cases b <;> rfl

/-- Two cards may be counted in either order. -/
theorem analyzeTrumpsStep_comm (stats : Statistics) (a b : Card) :
    analyzeTrumpsStep (analyzeTrumpsStep stats a) b =
      analyzeTrumpsStep (analyzeTrumpsStep stats b) a := by
  simp only [analyzeTrumpsStep_eq, Statistics.mk.injEq, true_and]
  exact ⟨raiseIf_comm _ _ _, raiseIf_comm _ _ _, raiseIf_comm _ _ _, Bool.or_right_comm _ _ _,
    Bool.or_right_comm _ _ _, Bool.or_right_comm _ _ _, add_right_comm _ _ _⟩

theorem statistics_perm {d' : Deck} (h : d'.mDeck.Perm d.mDeck) : d'.statistics = d.statistics := by
  have hsize : d'.size = d.size := h.length_eq
  have htrumps : d'.analyzeTrumps {} = d.analyzeTrumps {} := by
    rw [analyzeTrumps, analyzeTrumps, hsize]
    exact h.foldl_eq' (fun a _ b _ stats => analyzeTrumpsStep_comm stats a b) _
  have hsuit : d'.analyzeSuit = d.analyzeSuit := by
    funext stats suit
    have hcards := h.filter fun c => c.mSuit = suit
    simp only [analyzeSuit, hcards.length_eq, hcards.countP_eq, hcards.any_eq]
  rw [statistics, statistics, htrumps, analyzeSuits, analyzeSuits, hsuit]

/-- The statistics of a hand of different cards are exact, and no other order of the cards changes
them or the bid that is made of them. -/
theorem statistics_exact (hvalid : ∀ c ∈ d.mDeck, c.isValid = true) (hnodup : d.mDeck.Nodup) :
    Exact d d.statistics ∧ ∀ d' : Deck, d'.mDeck.Perm d.mDeck →
      d'.statistics = d.statistics ∧ ∀ ctx : PlayerContext,
        ({ ctx with mDeck := d' } : PlayerContext).calculateBid =
          ({ ctx with mDeck := d } : PlayerContext).calculateBid := by
  refine ⟨statistics_exact_of_size hvalid (size_lt_of_nodup hvalid hnodup), ?_⟩
  intro d' hperm
  have hsame := statistics_perm hperm
  refine ⟨hsame, ?_⟩
  intro ctx
  rw [statistics, statistics] at hsame
  simp only [PlayerContext.calculateBid, hsame]

/-- Five spades in a row, a wedding in hearts, and a single club. -/
theorem statistics_exact_spades :
    let d : Deck :=
      { mDeck := [⟨3, 0⟩, ⟨4, 0⟩, ⟨5, 0⟩, ⟨6, 0⟩, ⟨7, 0⟩, ⟨13, 1⟩, ⟨14, 1⟩, ⟨11, 3⟩, ⟨16, 4⟩,
        Card.fool] }
    Exact d d.statistics ∧ ∀ d' : Deck, d'.mDeck.Perm d.mDeck →
      d'.statistics = d.statistics ∧ ∀ ctx : PlayerContext,
        ({ ctx with mDeck := d' } : PlayerContext).calculateBid =
          ({ ctx with mDeck := d } : PlayerContext).calculateBid := by
  intro d
  exact statistics_exact (by decide) (by decide)

end TarotClub.Deck
