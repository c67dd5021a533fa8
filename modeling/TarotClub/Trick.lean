import TarotClub.Cards
import TarotClub.TarotContext

namespace TarotClub

/-- The plain cards are numbered from 1. -/
theorem Card.value_pos {c : Card} (h : c.isValid = true) (hplain : c.mSuit ≠ Card.trumps) :
    0 < c.mValue := by
  unfold Card.isValid at h
  rw [if_neg hplain] at h
  split_ifs at h
  simp only [Bool.and_eq_true, decide_eq_true_eq] at h
  exact h.1

namespace Deck

/-- Two different cards cannot both be the Fool. -/
theorem exists_ne_fool {d : Deck} (hnodup : d.cards.Nodup) (hsize : 2 ≤ d.size) :
    ∃ c ∈ d.mDeck, c ≠ Card.fool := by
  by_contra hall
  push Not at hall
  have hrep : d.mDeck = List.replicate d.size Card.fool := List.eq_replicate_iff.mpr ⟨rfl, hall⟩
  have hnd : d.mDeck.Nodup := Multiset.coe_nodup.mp hnodup
  rw [hrep, List.nodup_replicate] at hnd
  omega

/-- Where the loop of `HighestTrump` can be. -/
theorem highestTrump_foldl (l : List Card) (acc : Card × ℕ) :
    let r := l.foldl (fun (acc : Card × ℕ) c =>
      if c.mSuit = Card.trumps ∧ c.mValue > acc.2 then (c, c.mValue) else acc) acc
    (r = acc ∧ ∀ c ∈ l, c.mSuit = Card.trumps → c.mValue ≤ acc.2) ∨
      (r.1 ∈ l ∧ r.1.mSuit = Card.trumps ∧ acc.2 < r.1.mValue) := by
  induction l generalizing acc with
  | nil => exact .inl ⟨rfl, by simp⟩
  | cons c l ih =>
    simp only [List.foldl_cons]
    by_cases hc : c.mSuit = Card.trumps ∧ c.mValue > acc.2
    · rw [if_pos hc]
      rcases ih (c, c.mValue) with ⟨hr, -⟩ | ⟨hmem, hsuit, hlt⟩
      · exact .inr (by rw [hr]; exact ⟨List.mem_cons_self, hc⟩)
      · exact .inr ⟨List.mem_cons_of_mem c hmem, hsuit, lt_trans hc.2 hlt⟩
    · rw [if_neg hc]
      rcases ih acc with ⟨hr, hle⟩ | ⟨hmem, hrest⟩
      · refine .inl ⟨hr, fun x hx hsuit => ?_⟩
        rcases List.mem_cons.mp hx with rfl | hx
        · exact not_lt.mp fun hlt => hc ⟨hsuit, hlt⟩
        · exact hle x hx hsuit
      · exact .inr ⟨List.mem_cons_of_mem c hmem, hrest⟩

theorem highestTrump_cases (d : Deck) :
    (d.highestTrump = {} ∧ ∀ c ∈ d.mDeck, c.mSuit = Card.trumps → c.mValue = 0) ∨
      (d.highestTrump ∈ d.mDeck ∧ d.highestTrump.mSuit = Card.trumps ∧
        0 < d.highestTrump.mValue) := by
  rcases highestTrump_foldl d.mDeck ({}, 0) with ⟨hr, hle⟩ | hr
  · exact .inl ⟨congrArg Prod.fst hr, fun c hc hs => Nat.le_zero.mp (hle c hc hs)⟩
  · exact .inr hr

/-- Where the loop of `HighestSuit` can be. -/
theorem highestSuit_foldl (l : List Card) (acc : Card × ℕ × Option ℕ) :
    let r := l.foldl highestSuitStep acc
    r.1 = acc.1 ∨ (r.1 ∈ l ∧ r.1.mSuit ≠ Card.trumps) := by
  induction l generalizing acc with
  | nil => exact .inl rfl
  | cons c l ih =>
    simp only [List.foldl_cons]
    rcases ih (highestSuitStep acc c) with hr | ⟨hmem, hsuit⟩
    · have hstep : (highestSuitStep acc c).1 = acc.1 ∨
          ((highestSuitStep acc c).1 = c ∧ c.mSuit ≠ Card.trumps) := by
        obtain ⟨best, value, suit⟩ := acc
        unfold highestSuitStep
        split_ifs with hc
        · cases suit with
          | none => exact .inr ⟨rfl, hc.1⟩
          | some suit =>
            dsimp only
            split_ifs
            · exact .inr ⟨rfl, hc.1⟩
            · exact .inl rfl
        · exact .inl rfl
      rcases hstep with hs | ⟨hs, hne⟩
      · exact .inl (hr.trans hs)
      · refine .inr ?_
        rw [hr, hs]
        exact ⟨List.mem_cons_self, hne⟩
    · exact .inr ⟨List.mem_cons_of_mem c hmem, hsuit⟩

/-- Once a suit is led the best card is one of the cards read. -/
theorem highestSuit_foldl_some (l : List Card) (best : Card) (value suit : ℕ) :
    let r := l.foldl highestSuitStep (best, value, some suit)
    r.1 = best ∨ r.1 ∈ l := by
  rcases highestSuit_foldl l (best, value, some suit) with h | h
  exacts [.inl h, .inr h.1]

theorem highestSuit_mem {d : Deck} (h : ∃ c ∈ d.mDeck, c.mSuit ≠ Card.trumps ∧ 0 < c.mValue) :
    d.highestSuit ∈ d.mDeck := by
  have hgen : ∀ l : List Card, (∃ c ∈ l, c.mSuit ≠ Card.trumps ∧ 0 < c.mValue) →
      (l.foldl highestSuitStep ({}, 0, none)).1 ∈ l := by
    intro l
    induction l with
    | nil => rintro ⟨c, hc, -⟩; exact absurd hc List.not_mem_nil
    | cons c l ih =>
      rintro ⟨x, hx, hne, hpos⟩
      by_cases hc : c.mSuit ≠ Card.trumps ∧ c.mValue > 0
      · simp only [List.foldl_cons, highestSuitStep, hc, and_self, if_true, ne_eq,
          not_false_eq_true]
        rcases highestSuit_foldl_some l c c.mValue c.mSuit with hr | hr
        · rw [hr]
          exact List.mem_cons_self
        · exact List.mem_cons_of_mem c hr
      · have hxl : x ∈ l := by
          rcases List.mem_cons.mp hx with rfl | hx
          · exact absurd ⟨hne, hpos⟩ hc
          · exact hx
        rw [List.foldl_cons, highestSuitStep, if_neg hc]
        exact List.mem_cons_of_mem c (ih ⟨x, hxl, hne, hpos⟩)
  exact hgen d.mDeck h

end Deck

namespace TarotContext

/-- A trick of two cards or more has a leader, and it is one of the cards. -/
theorem trickLeader_spec {trick : Deck} (hvalid : ∀ c ∈ trick.mDeck, c.isValid = true)
    (hnodup : trick.cards.Nodup) (hsize : 2 ≤ trick.size) :
    (trickLeader trick).isValid = true ∧ trickLeader trick ∈ trick.mDeck := by
  rcases trick.highestTrump_cases with ⟨hdef, hzero⟩ | ⟨hmem, -⟩
  · have hleader : trickLeader trick = trick.highestSuit := by
      rw [trickLeader, hdef, Card.isValid_default]
      rfl
    obtain ⟨c, hc, hne⟩ := Deck.exists_ne_fool hnodup hsize
    have hplain : c.mSuit ≠ Card.trumps := by
      intro hs
      exact hne (by rw [← Card.isFool_iff, Card.isFool, hs, hzero c hc hs]; rfl)
    have hpos := Card.value_pos (hvalid c hc) hplain
    have hmem := Deck.highestSuit_mem ⟨c, hc, hplain, hpos⟩
    rw [hleader]
    exact ⟨hvalid _ hmem, hmem⟩
  · have hleader : trickLeader trick = trick.highestTrump := by
      rw [trickLeader, if_pos (hvalid _ hmem)]
    rw [hleader]
    exact ⟨hvalid _ hmem, hmem⟩

/-! Who played which card. -/

@[simp] theorem seatAfter_zero (p : Place) (n : ℕ) : seatAfter p n 0 = p := rfl

theorem seatAfter_succ (p : Place) (n i : ℕ) :
    seatAfter p n (i + 1) = (seatAfter p n i).next n := by
  induction i generalizing p with
  | zero => rfl
  | succ i ih => exact ih (p.next n)

theorem seatAfter_value {p : Place} {n : ℕ} (hn : n ≤ 5) (hp : p.value < n) (i : ℕ) :
    (seatAfter p n i).value = (p.value + i) % n := by
  induction i with
  | zero => rw [seatAfter_zero, Nat.add_zero, Nat.mod_eq_of_lt hp]
  | succ i ih =>
    have hlt : (seatAfter p n i).value < n := ih ▸ Nat.mod_lt _ (Nat.zero_lt_of_lt hp)
    rw [seatAfter_succ, Place.next_value hn hlt, ih, Nat.mod_add_mod, Nat.add_assoc]

theorem seatAfter_lt {p : Place} {n : ℕ} (hn : n ≤ 5) (hp : p.value < n) (i : ℕ) :
    (seatAfter p n i).value < n := by
  rw [seatAfter_value hn hp]
  exact Nat.mod_lt _ (Nat.zero_lt_of_lt hp)

/-- In a round every seat has its turn. -/
theorem exists_seatAfter {p : Place} {n : ℕ} (hn : n ≤ 5) (hp : p.value < n) {i : ℕ}
    (hi : i < n) : ∃ j < n, (seatAfter p n j).value = i := by
  refine ⟨(i + (n - p.value)) % n, Nat.mod_lt _ (by omega), ?_⟩
  rw [seatAfter_value hn hp, Nat.add_mod_mod, show p.value + (i + (n - p.value)) = i + n by omega,
    Nat.add_mod_right, Nat.mod_eq_of_lt hi]

/-- How many seats play before seat `i` when `lead` begins. -/
def turnOf (lead : Place) (n i : ℕ) : ℕ :=
  if lead.value ≤ i then i - lead.value else i + n - lead.value

theorem turnOf_lt {lead : Place} {n i : ℕ} (hp : lead.value < n) (hi : i < n) :
    turnOf lead n i < n := by
  unfold turnOf
  split_ifs <;> omega

theorem turnOf_inj {lead : Place} {n i j : ℕ} (hp : lead.value < n) (hi : i < n) (hj : j < n)
    (h : turnOf lead n i = turnOf lead n j) : i = j := by
  unfold turnOf at h
  split_ifs at h <;> omega

theorem turnOf_seatAfter {lead : Place} {n q : ℕ} (hn : n ≤ 5) (hp : lead.value < n)
    (hq : q < n) : turnOf lead n (seatAfter lead n q).value = q := by
  rw [seatAfter_value hn hp]
  unfold turnOf
  by_cases h : lead.value + q < n
  · rw [Nat.mod_eq_of_lt h, if_pos (Nat.le_add_right _ _)]
    omega
  · rw [Nat.mod_eq_sub_mod (by omega), Nat.mod_eq_of_lt (by omega), if_neg (by omega)]
    omega

/-- The cards of a trick with the seats that play them. -/
def seated (n : ℕ) : Place → List Card → List (Card × Place)
  | _, [] => []
  | p, c :: cards => (c, p) :: seated n (p.next n) cards

theorem seated_append (n : ℕ) (p : Place) (cards : List Card) (c : Card) :
    seated n p (cards ++ [c]) = seated n p cards ++ [(c, seatAfter p n cards.length)] := by
  induction cards generalizing p with
  | nil => rfl
  | cons d cards ih =>
    simp only [List.cons_append, seated, ih, List.length_cons]
    rfl

@[simp] theorem length_seated (n : ℕ) (p : Place) (cards : List Card) :
    (seated n p cards).length = cards.length := by
  induction cards generalizing p with
  | nil => rfl
  | cons c cards ih => rw [seated, List.length_cons, ih, List.length_cons]

theorem getElem?_seated (n : ℕ) (p : Place) (cards : List Card) (i : ℕ) :
    (seated n p cards)[i]? = cards[i]?.map fun c => (c, seatAfter p n i) := by
  induction cards generalizing p i with
  | nil => rfl
  | cons c cards ih =>
    cases i with
    | zero => rfl
    | succ i =>
      rw [seated, List.getElem?_cons_succ, List.getElem?_cons_succ, ih]
      rfl

/-- The loop of `GetOwner` stops at the first copy of the card. -/
theorem walkTo_eq (card : Card) (n : ℕ) (p : Place) (cards : List Card) :
    walkTo card n p cards = seatAfter p n (cards.idxOf card) := by
  induction cards generalizing p with
  | nil => rfl
  | cons c cards ih =>
    rw [walkTo, List.idxOf_cons]
    by_cases h : card = c
    · simp [h]
    · simp only [if_neg h, ih, show (c == card) = false by simpa using Ne.symm h, cond_false]
      rfl

theorem getOwner_eq (ctx : TarotContext) (firstPlayer : Place) (card : Card) (turn : ℕ) :
    ctx.getOwner firstPlayer card turn =
      seatAfter firstPlayer ((ctx.mTricks turn).size % 256)
        ((ctx.mTricks turn).mDeck.idxOf card) :=
  walkTo_eq ..

/-! What storing a trick changes. -/

/-- The turn of a trick counter that begins at 1. -/
theorem turn_eq {trickCounter : ℕ} (h0 : 0 < trickCounter) (h : trickCounter ≤ 24) :
    u8 (trickCounter + 255) = trickCounter - 1 := by
  unfold u8
  omega

section
variable (ctx : TarotContext) (trick : Deck) {k : ℕ} (hk : k < 24)
include hk

/-- The context in which a trick is decided. -/
theorem setTrick_eq :
    ctx.setTrick trick (k + 1) =
      let ctx' := { ctx with mTricks := Function.update ctx.mTricks k trick }
      let decided := ctx'.decideTrick (ctx.leadOf k) k (k + 1)
      (decided.1, ctx'.creditTrick k decided.1 decided.2) := by
  have hturn : u8 (k + 1 + 255) = k := by
    rw [turn_eq (by omega) (by omega)]
    omega
  simp only [setTrick, hturn, if_pos hk]

/-- Nothing but the trick, its winner, the tricks won and the statistics changes. -/
theorem setTrick_frame :
    let winner := (ctx.setTrick trick (k + 1)).1
    let r := (ctx.setTrick trick (k + 1)).2
    r.mTricks = Function.update ctx.mTricks k (trick.setOwner (ctx.winnerTeam winner)) ∧
      r.mWinner = Function.update ctx.mWinner k winner ∧ r.mBid = ctx.mBid ∧ r.mDog = ctx.mDog ∧
      r.mDiscard = ctx.mDiscard ∧ r.mFirstPlayer = ctx.mFirstPlayer ∧
      r.mAttackHandle = ctx.mAttackHandle ∧ r.mDefenseHandle = ctx.mDefenseHandle ∧ r.mNbPlayers = ctx.mNbPlayers := by
  rw [setTrick_eq ctx trick hk]
  simp only [creditTrick, winnerTeam]
  split_ifs <;> simp

/-- The winner is the player of the leading card; the Fool of the last trick can make it
the taker. -/
theorem setTrick_winner (hvalid : ∀ c ∈ trick.mDeck, c.isValid = true)
    (hnodup : trick.cards.Nodup) (hsize : 2 ≤ trick.size) (hsize' : trick.size < 256) :
    (ctx.setTrick trick (k + 1)).1 =
        seatAfter (ctx.leadOf k) trick.size (trick.mDeck.idxOf (trickLeader trick)) ∨
      (ctx.setTrick trick (k + 1)).1 = ctx.mBid.taker := by
  obtain ⟨hlv, -⟩ := trickLeader_spec hvalid hnodup hsize
  rw [setTrick_eq ctx trick hk]
  simp only [decideTrick, Function.update_self, hlv, if_true, getOwner_eq,
    Nat.mod_eq_of_lt hsize', foolRule]
  split_ifs <;> simp

end

end TarotContext

end TarotClub
