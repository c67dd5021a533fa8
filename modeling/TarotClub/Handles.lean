import TarotClub.AttackScore

namespace TarotClub.Deck

/-- The trumps of a deck, the Fool among them. -/
def trumps (d : Deck) : List Card := d.mDeck.filter fun c => c.mSuit = Card.trumps

theorem mem_trumps {d : Deck} {c : Card} :
    c ∈ d.trumps ↔ c ∈ d.mDeck ∧ c.mSuit = Card.trumps := by
  simp [trumps]

theorem raises_trumps : Counter.Raises 256 Statistics.trumps analyzeTrumpsStep fun c =>
    if decide (c.mSuit = Card.trumps) then 1 else 0 := by
  intro stats c hs
  rw [analyzeTrumpsStep_eq]
  exact u8_ite hs _

/-- The number of trumps is a byte. -/
theorem analyzeTrumps_trumps (d : Deck) : (d.analyzeTrumps {}).trumps = u8 d.trumps.length := by
  have hcount := raises_trumps.countP d.mDeck (s := { nbCards := u8 d.size }) (Nat.zero_lt_succ 255)
  rw [Nat.zero_add, List.countP_eq_length_filter] at hcount
  exact hcount

theorem getHandleType_ne {size : ℕ} :
    getHandleType size ≠ .noHandle ↔ size = 10 ∨ size = 13 ∨ size = 15 := by
  unfold getHandleType
  split_ifs <;> simp [*]

/-- What the test asks for. -/
theorem testHandle_iff {hand handle : Deck} :
    hand.testHandle handle = true ↔
      (handle.size = 10 ∨ handle.size = 13 ∨ handle.size = 15) ∧
        (∀ c ∈ handle.mDeck, c.mSuit = Card.trumps ∧ c ∈ hand.mDeck) ∧
        (Card.fool ∈ handle.mDeck → u8 hand.trumps.length ≤ handle.size) := by
  have hall : (handle.size = 10 ∨ handle.size = 13 ∨ handle.size = 15) →
      (handle.size = u8 handle.trumps.length ↔
        ∀ c ∈ handle.mDeck, c.mSuit = Card.trumps) := by
    intro hsize
    have hle : handle.trumps.length ≤ handle.size := List.length_filter_le _ _
    rw [u8, Nat.mod_eq_of_lt (by omega), size, trumps, eq_comm, List.length_filter_eq_length_iff]
    simp
  have hshown : (!(handle.hasFool && decide (u8 hand.trumps.length > handle.size))) = true ↔
      (Card.fool ∈ handle.mDeck → u8 hand.trumps.length ≤ handle.size) := by
    rw [← hasFool_iff, ← not_lt]
    cases handle.hasFool <;> simp
  unfold testHandle
  rw [analyzeTrumps_trumps, analyzeTrumps_trumps]
  simp only [Bool.and_eq_true, hshown, decide_eq_true_eq, getHandleType_ne, List.all_eq_true,
    hasCard_iff]
  constructor
  · rintro ⟨⟨⟨hsize, hcount⟩, hown⟩, hfool⟩
    exact ⟨hsize, fun c hc => ⟨(hall hsize).mp hcount c hc, hown c hc⟩, hfool⟩
  · rintro ⟨hsize, hcards, hfool⟩
    exact ⟨⟨⟨hsize, (hall hsize).mpr fun c hc => (hcards c hc).1⟩, fun c hc => (hcards c hc).2⟩,
      hfool⟩

/-- Different trumps of the hand, ten, thirteen or fifteen of them, and with the Fool all the trumps
there are. -/
structure ShowsTrumps (hand handle : Deck) : Prop where
  nodup : handle.mDeck.Nodup
  held : ∀ c ∈ handle.mDeck, c.mSuit = Card.trumps ∧ c ∈ hand.mDeck
  size : handle.size = 10 ∨ handle.size = 13 ∨ handle.size = 15
  size_le : handle.size ≤ hand.trumps.length
  fool : Card.fool ∈ handle.mDeck → ∀ c ∈ hand.trumps, c ∈ handle.mDeck

/-- A handle that passes the test is one of different trumps exactly when it holds no card twice,
for a hand of different cards whose trumps a byte can count. -/
theorem testHandle_shows {hand handle : Deck} (hnodup : hand.mDeck.Nodup)
    (htest : hand.testHandle handle = true) :
    hand.ShowsTrumps handle ↔
      handle.mDeck.Nodup ∧ (Card.fool ∈ handle.mDeck → hand.trumps.length < 256) := by
  obtain ⟨hsize, hcards, hfool⟩ := testHandle_iff.mp htest
  have hsub : handle.mDeck ⊆ hand.trumps := fun c hc =>
    mem_trumps.mpr ⟨(hcards c hc).2, (hcards c hc).1⟩
  have htrumps : hand.trumps.Nodup := hnodup.filter _
  constructor
  · intro h
    refine ⟨h.nodup, fun hmem => ?_⟩
    have hle : hand.trumps.length ≤ handle.size :=
      (List.subperm_of_subset htrumps (h.fool hmem)).length_le
    omega
  · rintro ⟨hdistinct, hbyte⟩
    have hsubperm := List.subperm_of_subset hdistinct hsub
    refine ⟨hdistinct, hcards, hsize, hsubperm.length_le, fun hmem c hc => ?_⟩
    have hle := hfool hmem
    rw [u8, Nat.mod_eq_of_lt (hbyte hmem)] at hle
    exact (hsubperm.perm_of_length_le hle).mem_iff.mpr hc

/-- Ten trumps, and all of them are shown. -/
theorem testHandle_shows_ten :
    let hand : Deck := { mDeck := (List.range 8).map (⟨· + 1, Card.spades⟩) ++
      (List.range 10).map (⟨· + 1, Card.trumps⟩) }
    let handle : Deck := { mDeck := (List.range 10).map (⟨· + 1, Card.trumps⟩) }
    hand.testHandle handle = true ∧ hand.ShowsTrumps handle :=
  ⟨by decide, (testHandle_shows (by decide) (by decide)).mpr (by decide)⟩

/-- The only trump of a hand, shown ten times. -/
theorem testHandle_repeated :
    let hand : Deck := { mDeck := (List.range 14).map (⟨· + 1, Card.spades⟩) ++
      [⟨1, Card.hearts⟩, ⟨2, Card.hearts⟩, ⟨3, Card.hearts⟩, ⟨5, Card.trumps⟩] }
    let handle : Deck := { mDeck := List.replicate 10 ⟨5, Card.trumps⟩ }
    hand.mDeck.Nodup ∧ (∀ c ∈ hand.mDeck, c.isValid = true) ∧
      hand.testHandle handle = true ∧ ¬ hand.ShowsTrumps handle := by
  refine ⟨by decide, by decide, by decide, fun h => ?_⟩
  have hnodup := h.nodup
  revert hnodup
  decide

end TarotClub.Deck
