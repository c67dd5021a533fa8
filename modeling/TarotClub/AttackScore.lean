import Mathlib.Algebra.BigOperators.Group.List.Basic
import TarotClub.Counter
import TarotClub.Trick

namespace TarotClub

/-- A seat of the attack. -/
def Bid.isAttack (b : Bid) (p : Place) : Bool := p = b.taker || p = b.partner

def Card.isOudler (c : Card) : Bool :=
  c.mSuit = Card.trumps && (c.mValue = 21 || c.mValue = 1 || c.mValue = 0)

namespace Deck

/-- The card points, counted in half points. -/
def points (d : Deck) : ℤ := (d.mDeck.map Card.getPoints).sum

def oudlers (d : Deck) : ℕ := d.mDeck.countP Card.isOudler

/-- A byte that is raised or not. -/
def raiseIf (raised : Bool) (n : ℕ) : ℕ := if raised then u8 (n + 1) else n

/-- A card changes each field on its own. -/
theorem analyzeTrumpsStep_eq (stats : Statistics) (c : Card) : analyzeTrumpsStep stats c =
    { stats with
      trumps := raiseIf (c.mSuit = Card.trumps) stats.trumps
      majorTrumps := raiseIf (c.mSuit = Card.trumps ∧ c.mValue ≥ 15) stats.majorTrumps
      bigTrump := stats.bigTrump || (c.mSuit = Card.trumps ∧ c.mValue = 21 : Bool)
      littleTrump := stats.littleTrump || (c.mSuit = Card.trumps ∧ c.mValue = 1 : Bool)
      fool := stats.fool || (c.mSuit = Card.trumps ∧ c.mValue = 0 : Bool)
      oudlers := raiseIf c.isOudler stats.oudlers
      points := stats.points + c.getPoints } := by
  unfold analyzeTrumpsStep raiseIf Card.isOudler
  by_cases hc : c.mSuit = Card.trumps
  · simp [hc, or_assoc]
  · simp [hc]

theorem analyzeTrumps_points (d : Deck) (stats : Statistics) :
    (d.analyzeTrumps stats).points = stats.points + d.points := by
  have hstep : ∀ (stats : Statistics) (c : Card),
      (analyzeTrumpsStep stats c).points = stats.points + c.getPoints := fun stats c => by
    rw [analyzeTrumpsStep_eq]
  have hfold : ∀ (l : List Card) (stats : Statistics), (l.foldl analyzeTrumpsStep stats).points =
      stats.points + (l.map Card.getPoints).sum := by
    intro l
    induction l with
    | nil => exact fun stats => (add_zero _).symm
    | cons c l ih =>
      intro stats
      rw [List.foldl_cons, ih, hstep, List.map_cons, List.sum_cons, add_assoc]
  exact hfold d.mDeck _

/-- A byte that goes up on a condition. -/
theorem u8_ite {count : ℕ} (h : count < 256) (P : Prop) [Decidable P] :
    (if P then u8 (count + 1) else count) = (count + if P then 1 else 0) % 256 := by
  split_ifs
  · rfl
  · exact (Nat.mod_eq_of_lt h).symm

theorem raises_oudlers : Counter.Raises 256 Statistics.oudlers analyzeTrumpsStep fun c =>
    if c.isOudler then 1 else 0 := by
  intro stats c hs
  rw [analyzeTrumpsStep_eq]
  exact u8_ite hs _

/-- The number of oudlers is a byte. -/
theorem analyzeTrumps_oudlers (d : Deck) {stats : Statistics} (h : stats.oudlers < 256) :
    (d.analyzeTrumps stats).oudlers = u8 (stats.oudlers + d.oudlers) :=
  raises_oudlers.countP d.mDeck h

@[simp] theorem hasFool_iff {d : Deck} : d.hasFool = true ↔ Card.fool ∈ d.mDeck := by
  have hiff : ∀ c : Card, (c.mSuit = Card.trumps && c.mValue = 0 : Bool) = true ↔ c = Card.fool :=
    fun c => Card.isFool_iff
  simp only [hasFool, List.any_eq_true, hiff, exists_eq_right]

theorem oudlers_pos {d : Deck} (h : d.hasFool = true) : 0 < d.oudlers :=
  List.countP_pos_iff.mpr ⟨Card.fool, hasFool_iff.mp h, rfl⟩

theorem oudlers_le (d : Deck) : d.oudlers ≤ d.size := List.countP_le_length

/-- A card is found by its name. -/
theorem getCard_toString {d : Deck} (hvalid : ∀ x ∈ d.mDeck, x.isValid = true) {c : Card}
    (hc : c ∈ d.mDeck) : d.getCard c.toString = c := by
  have hname : ∀ x ∈ d.mDeck, x.toString = c.toString → x = c := fun x hx h => by
    rw [← Card.ofString_toString (hvalid x hx), h, Card.ofString_toString (hvalid c hc)]
  have hfold : ∀ (l : List Card) (acc : Card), (∀ x ∈ l, x.toString = c.toString → x = c) →
      c ∈ l ∨ acc = c →
      l.foldl (fun card x => if x.toString = c.toString then x else card) acc = c := by
    intro l
    induction l with
    | nil => exact fun acc _ h => h.resolve_left List.not_mem_nil
    | cons x l ih =>
      intro acc hl h
      have hrest : ∀ y ∈ l, y.toString = c.toString → y = c := fun y hy =>
        hl y (List.mem_cons_of_mem x hy)
      rw [List.foldl_cons]
      by_cases hx : x.toString = c.toString
      · rw [if_pos hx]
        exact ih x hrest (.inr (hl x List.mem_cons_self hx))
      · rw [if_neg hx]
        refine ih acc hrest (h.imp_left fun hmem => ?_)
        rcases List.mem_cons.mp hmem with rfl | hmem
        · exact absurd rfl hx
        · exact hmem
  exact hfold d.mDeck {} hname (.inl hc)

end Deck

namespace TarotContext

/-! The rules of the game, read off the cards. -/

/-- The seat that plays the card when `lead` plays the first one. -/
def playedBy (lead : Place) (trick : Deck) (c : Card) : Place :=
  seatAfter lead trick.size (trick.mDeck.idxOf c)

def winnerOf (lead : Place) (trick : Deck) : Place := playedBy lead trick (trickLeader trick)

/-- Every trick with its lead: the winner of one leads the next. -/
def led : Place → List Deck → List (Place × Deck)
  | _, [] => []
  | lead, trick :: tricks => (lead, trick) :: led (winnerOf lead trick) tricks

/-- The Fool that changes sides: `1` when it goes back to the attack, `-1` when the attack has
to give it back. -/
def foolExchange (bid : Bid) (lead : Place) (trick : Deck) : ℤ :=
  if trick.hasFool then
    (if bid.isAttack (playedBy lead trick Card.fool) then 1 else 0) -
      (if bid.isAttack (winnerOf lead trick) then 1 else 0)
  else 0

/-- What a trick brings to the attack, in half points. -/
def attackPoints (bid : Bid) (lead : Place) (trick : Deck) : ℤ :=
  (if bid.isAttack (winnerOf lead trick) then trick.points else 0) +
    8 * foolExchange bid lead trick

/-- The oudlers that a trick brings to the attack. -/
def attackOudlers (bid : Bid) (lead : Place) (trick : Deck) : ℤ :=
  (if bid.isAttack (winnerOf lead trick) then (trick.oudlers : ℤ) else 0) +
    foolExchange bid lead trick

/-- The partner of the taker, another seat, plays the Fool. -/
def PartnerPlaysFool (bid : Bid) (lead : Place) (trick : Deck) : Prop :=
  bid.partner ≠ bid.taker ∧ trick.hasFool = true ∧ playedBy lead trick Card.fool = bid.partner

instance (bid : Bid) (lead : Place) (trick : Deck) : Decidable (PartnerPlaysFool bid lead trick) :=
  inferInstanceAs (Decidable (_ ∧ _))

/-- The tricks given to `SetTrick` in order when `k` of them are stored. -/
def setTricks (ctx : TarotContext) : ℕ → List Deck → TarotContext
  | _, [] => ctx
  | k, trick :: tricks => (ctx.setTrick trick (k + 1)).2.setTricks (k + 1) tricks

/-- A trick of different cards. -/
structure IsTrick (n : ℕ) (trick : Deck) : Prop where
  size : trick.size = n
  valid : ∀ c ∈ trick.mDeck, c.isValid = true
  nodup : trick.mDeck.Nodup

variable {trick : Deck} {n k : ℕ}

theorem winnerTeam_eq (ctx : TarotContext) (p : Place) :
    ctx.winnerTeam p = if ctx.mBid.isAttack p then .attack else .defense := by
  simp [winnerTeam, Bid.isAttack]

/-- The winner of a trick and whether points are exchanged for its Fool. -/
def decided (ctx : TarotContext) (n k : ℕ) (lead : Place) (trick : Deck) : Place × Bool :=
  if trick.hasFool then
    ctx.foolRule (winnerOf lead trick) (playedBy lead trick Card.fool) (k + 1) n
  else (winnerOf lead trick, false)

/-- The leading card of a trick decides it, together with the Fool. -/
theorem IsTrick.setTrick_decided (ctx : TarotContext) (h : IsTrick n trick) (h2 : 2 ≤ n)
    (h5 : n ≤ 5) (hk : k < 24) :
    ctx.setTrick trick (k + 1) = ((ctx.decided n k (ctx.leadOf k) trick).1,
      ({ ctx with mTricks := Function.update ctx.mTricks k trick } : TarotContext).creditTrick k
        (ctx.decided n k (ctx.leadOf k) trick).1 (ctx.decided n k (ctx.leadOf k) trick).2) := by
  have hsize := h.size
  obtain ⟨hlv, -⟩ := trickLeader_spec h.valid (Multiset.coe_nodup.mpr h.nodup) (by omega)
  have hmod : trick.size % 256 = trick.size := Nat.mod_eq_of_lt (by omega)
  have hdecide : ({ ctx with mTricks := Function.update ctx.mTricks k trick } :
      TarotContext).decideTrick (ctx.leadOf k) k (k + 1) =
        ctx.decided n k (ctx.leadOf k) trick := by
    simp only [decideTrick, decided, Function.update_self, hlv, if_true, getOwner_eq, hmod]
    cases hfool : trick.hasFool with
    | false =>
      simp only [Bool.false_eq_true, if_false]
      rfl
    | true =>
      have hcard : trick.getCard (str "00-T") = Card.fool :=
        Deck.getCard_toString h.valid (Deck.hasFool_iff.mp hfool)
      simp only [hcard, show Card.fool.isValid = true from rfl, if_true, ← hsize]
      rfl
  rw [setTrick_eq ctx trick hk]
  dsimp only
  rw [hdecide]

/-- Before the last trick the leading card wins, and points are exchanged for the Fool when
its player and the winner are found on different sides. -/
theorem decided_of_not_last (ctx : TarotContext) (lead : Place) (trick : Deck)
    (hlast : k + 1 < numberOfCardsInHand n) :
    ctx.decided n k lead trick = (winnerOf lead trick, trick.hasFool &&
      decide (ctx.winnerTeam (winnerOf lead trick) ≠
        ctx.foolTeam (playedBy lead trick Card.fool))) := by
  have hnot : isDealFinished (k + 1) n = false := by
    rw [isDealFinished, decide_eq_false_iff_not]
    omega
  rw [decided]
  cases trick.hasFool with
  | false => rfl
  | true =>
    simp only [if_true, foolRule, hnot, Bool.false_eq_true, if_false, Bool.true_and]

/-- The exchange that `SetTrick` makes. -/
def madeExchange (ctx : TarotContext) (winner : Place) (foolSwap : Bool) : ℤ :=
  if foolSwap then if ctx.mBid.isAttack winner then -1 else 1 else 0

theorem creditTrick_points (ctx : TarotContext) (turn : ℕ) (winner : Place) (foolSwap : Bool) :
    (ctx.creditTrick turn winner foolSwap).mStatsAttack.points = ctx.mStatsAttack.points +
      ((if ctx.mBid.isAttack winner then (ctx.mTricks turn).points else 0) +
        8 * ctx.madeExchange winner foolSwap) := by
  have hpoints := (ctx.mTricks turn).analyzeTrumps_points ctx.mStatsAttack
  by_cases hw : winner = ctx.mBid.taker ∨ winner = ctx.mBid.partner
  · have ha : ctx.mBid.isAttack winner = true := by simpa [Bid.isAttack] using hw
    simp only [creditTrick, madeExchange, if_pos hw, ha, if_true]
    cases foolSwap with
    | false =>
      simp only [Bool.false_eq_true, if_false]
      omega
    | true =>
      simp only [if_true]
      omega
  · have ha : ctx.mBid.isAttack winner = false := by simpa [Bid.isAttack] using hw
    simp only [creditTrick, madeExchange, if_neg hw, ha, Bool.false_eq_true, if_false]
    cases foolSwap with
    | false =>
      simp only [Bool.false_eq_true, if_false]
      omega
    | true =>
      simp only [if_true]
      omega

/-- What a trick changes in the statistics of the attack. -/
theorem creditTrick_account (ctx : TarotContext) (turn : ℕ) (winner : Place) (foolSwap : Bool)
    (hfool : foolSwap = true → (ctx.mTricks turn).hasFool = true)
    (ho : ctx.mStatsAttack.oudlers + (ctx.mTricks turn).size < 256) :
    let stats := (ctx.creditTrick turn winner foolSwap).mStatsAttack
    stats.points = ctx.mStatsAttack.points +
        ((if ctx.mBid.isAttack winner then (ctx.mTricks turn).points else 0) +
          8 * ctx.madeExchange winner foolSwap) ∧
      (stats.oudlers : ℤ) = ctx.mStatsAttack.oudlers +
        ((if ctx.mBid.isAttack winner then ((ctx.mTricks turn).oudlers : ℤ) else 0) +
          ctx.madeExchange winner foolSwap) ∧
      stats.oudlers ≤ ctx.mStatsAttack.oudlers + (ctx.mTricks turn).size := by
  have hle := (ctx.mTricks turn).oudlers_le
  have hpos : foolSwap = true → 0 < (ctx.mTricks turn).oudlers := fun h =>
    Deck.oudlers_pos (hfool h)
  have houdlers := (ctx.mTricks turn).analyzeTrumps_oudlers
    (show ctx.mStatsAttack.oudlers < 256 by omega)
  rw [u8, Nat.mod_eq_of_lt (by omega)] at houdlers
  refine ⟨creditTrick_points ctx turn winner foolSwap, ?_⟩
  by_cases hw : winner = ctx.mBid.taker ∨ winner = ctx.mBid.partner
  · have ha : ctx.mBid.isAttack winner = true := by simpa [Bid.isAttack] using hw
    simp only [creditTrick, madeExchange, if_pos hw, ha, if_true]
    cases foolSwap with
    | false =>
      simp only [Bool.false_eq_true, if_false]
      omega
    | true =>
      have hpos := hpos rfl
      simp only [if_true, u8, houdlers]
      omega
  · have ha : ctx.mBid.isAttack winner = false := by simpa [Bid.isAttack] using hw
    simp only [creditTrick, madeExchange, if_neg hw, ha, Bool.false_eq_true, if_false]
    cases foolSwap with
    | false =>
      simp only [Bool.false_eq_true, if_false]
      omega
    | true =>
      have hpos := hpos rfl
      simp only [if_true, u8]
      omega

theorem partnerPlaysFool_iff (bid : Bid) (lead : Place) (trick : Deck) :
    PartnerPlaysFool bid lead trick ↔ trick.hasFool = true ∧
      bid.isAttack (playedBy lead trick Card.fool) = true ∧
        playedBy lead trick Card.fool ≠ bid.taker := by
  simp only [PartnerPlaysFool, Bid.isAttack, Bool.or_eq_true, decide_eq_true_eq]
  constructor
  · rintro ⟨hne, hfool, hplace⟩
    exact ⟨hfool, .inr hplace, hplace ▸ hne⟩
  · rintro ⟨hfool, h | h, hne⟩
    · exact absurd h hne
    · exact ⟨h ▸ hne, hfool, h⟩

/-- It is the exchange of the rules, unless the partner has played the Fool. -/
theorem madeExchange_eq (ctx : TarotContext) (lead : Place) (trick : Deck) :
    ctx.madeExchange (winnerOf lead trick) (trick.hasFool &&
        decide (ctx.winnerTeam (winnerOf lead trick) ≠
          ctx.foolTeam (playedBy lead trick Card.fool))) =
      foolExchange ctx.mBid lead trick -
        if PartnerPlaysFool ctx.mBid lead trick then 1 else 0 := by
  simp only [madeExchange, foolExchange, partnerPlaysFool_iff, winnerTeam_eq, foolTeam]
  cases trick.hasFool with
  | false => simp
  | true =>
    by_cases htaker : playedBy lead trick Card.fool = ctx.mBid.taker
    · have ha : ctx.mBid.isAttack ctx.mBid.taker = true := by simp [Bid.isAttack]
      cases ctx.mBid.isAttack (winnerOf lead trick) <;> simp [htaker, ha]
    · cases ctx.mBid.isAttack (winnerOf lead trick) <;>
        cases ctx.mBid.isAttack (playedBy lead trick Card.fool) <;> simp [htaker]

/-- What a trick before the last one changes. -/
theorem IsTrick.setTrick_account (ctx : TarotContext) (h : IsTrick n trick) (h2 : 2 ≤ n)
    (h5 : n ≤ 5) (hk : k < 24) (hlast : k + 1 < numberOfCardsInHand n)
    (ho : ctx.mStatsAttack.oudlers + n < 256) :
    let r := (ctx.setTrick trick (k + 1)).2
    let lead := ctx.leadOf k
    let missed : ℤ := if PartnerPlaysFool ctx.mBid lead trick then 1 else 0
    r.mBid = ctx.mBid ∧ r.leadOf (k + 1) = winnerOf lead trick ∧
      r.mStatsAttack.points =
        ctx.mStatsAttack.points + (attackPoints ctx.mBid lead trick - 8 * missed) ∧
      (r.mStatsAttack.oudlers : ℤ) =
        ctx.mStatsAttack.oudlers + (attackOudlers ctx.mBid lead trick - missed) ∧
      r.mStatsAttack.oudlers ≤ ctx.mStatsAttack.oudlers + n := by
  intro r lead missed
  obtain ⟨-, hwin, hbid, -⟩ := setTrick_frame ctx trick hk
  have hset := h.setTrick_decided ctx h2 h5 hk
  rw [decided_of_not_last ctx lead trick hlast] at hset
  have hmade := madeExchange_eq ctx lead trick
  have hcredit := creditTrick_account
    { ctx with mTricks := Function.update ctx.mTricks k trick } k (winnerOf lead trick)
    (trick.hasFool && decide (ctx.winnerTeam (winnerOf lead trick) ≠
      ctx.foolTeam (playedBy lead trick Card.fool)))
  simp only [Function.update_self, h.size] at hcredit
  obtain ⟨hpoints, houdlers, hle⟩ := hcredit (fun hswap => (Bool.and_eq_true_iff.mp hswap).1) ho
  have hlead : r.leadOf (k + 1) = winnerOf lead trick := by
    change (if k + 1 = 0 then _ else r.mWinner (k + 1 - 1)) = _
    rw [if_neg (Nat.succ_ne_zero k), Nat.add_sub_cancel, hwin, Function.update_self, hset]
  have hr : r = _ := congrArg Prod.snd hset
  refine ⟨hbid, hlead, ?_, ?_, ?_⟩ <;> rw [hr]
  · rw [hpoints]
    change _ + (_ + 8 * ctx.madeExchange _ _) = _
    rw [hmade, attackPoints]
    ring
  · rw [houdlers]
    change _ + (_ + ctx.madeExchange _ _) = _
    rw [hmade, attackOudlers]
    ring
  · exact hle

/-- What the tricks before the last one change. -/
theorem setTricks_account (ctx : TarotContext) (k : ℕ) {tricks : List Deck}
    (h : ∀ trick ∈ tricks, IsTrick n trick) (h2 : 2 ≤ n) (h5 : n ≤ 5)
    (hH : numberOfCardsInHand n ≤ 24) (hlast : k + tricks.length < numberOfCardsInHand n)
    (ho : ctx.mStatsAttack.oudlers + n * tricks.length < 256) :
    let stats := (ctx.setTricks k tricks).mStatsAttack
    let pairs := led (ctx.leadOf k) tricks
    let missed := ((pairs.countP fun p => PartnerPlaysFool ctx.mBid p.1 p.2 : ℕ) : ℤ)
    stats.points = ctx.mStatsAttack.points +
        ((pairs.map fun p => attackPoints ctx.mBid p.1 p.2).sum - 8 * missed) ∧
      (stats.oudlers : ℤ) = ctx.mStatsAttack.oudlers +
        ((pairs.map fun p => attackOudlers ctx.mBid p.1 p.2).sum - missed) := by
  induction tricks generalizing ctx k with
  | nil => simp [setTricks, led]
  | cons trick tricks ih =>
    rw [List.length_cons] at hlast ho
    rw [Nat.mul_succ] at ho
    obtain ⟨hbid, hlead, hpoints, houdlers, hle⟩ :=
      (h trick List.mem_cons_self).setTrick_account ctx h2 h5 (k := k) (by omega) (by omega)
        (by omega)
    obtain ⟨ihp, iho⟩ := ih (ctx.setTrick trick (k + 1)).2 (k + 1)
      (fun t ht => h t (List.mem_cons_of_mem trick ht)) (by omega) (by omega)
    rw [hbid, hlead] at ihp iho
    simp only [setTricks, led, List.map_cons, List.sum_cons, List.countP_cons, Nat.cast_add,
      ihp, iho, hpoints, houdlers]
    split_ifs <;> simp_all <;> omega

/-- Before the last trick of a deal the points and the oudlers of the attack are what the tricks
are worth, with the Fool left to the side that plays it, if and only if no trick so far has seen
the partner of the taker play the Fool. -/
theorem attackScore_iff (ctx : TarotContext) (hn : n = 3 ∨ n = 4 ∨ n = 5)
    (hstart : ctx.mStatsAttack = {}) {tricks : List Deck} (h : ∀ trick ∈ tricks, IsTrick n trick)
    (hlast : tricks.length < numberOfCardsInHand n) :
    let stats := (ctx.setTricks 0 tricks).mStatsAttack
    let pairs := led ctx.mFirstPlayer tricks
    (stats.points = (pairs.map fun p => attackPoints ctx.mBid p.1 p.2).sum ∧
        (stats.oudlers : ℤ) = (pairs.map fun p => attackOudlers ctx.mBid p.1 p.2).sum) ↔
      ∀ p ∈ pairs, ¬ PartnerPlaysFool ctx.mBid p.1 p.2 := by
  intro stats pairs
  have hsizes : numberOfCardsInHand n ≤ 24 ∧ n * numberOfCardsInHand n < 256 := by
    rcases hn with rfl | rfl | rfl <;> decide
  have hmul : n * tricks.length ≤ n * numberOfCardsInHand n := Nat.mul_le_mul_left n hlast.le
  obtain ⟨hpoints, houdlers⟩ := setTricks_account ctx 0 h (by omega) (by omega) hsizes.1
    (by omega) (by rw [hstart]; change 0 + _ < _; omega)
  have hlead : ctx.leadOf 0 = ctx.mFirstPlayer := if_pos rfl
  have hnone : (pairs.countP fun p => PartnerPlaysFool ctx.mBid p.1 p.2) = 0 ↔
      ∀ p ∈ pairs, ¬ PartnerPlaysFool ctx.mBid p.1 p.2 := by
    rw [List.countP_eq_zero]
    simp only [decide_eq_true_eq]
  rw [hlead, hstart] at hpoints houdlers
  rw [← hnone]
  change stats.points = 0 + ((pairs.map _).sum - 8 * ((pairs.countP _ : ℕ) : ℤ)) at hpoints
  change (stats.oudlers : ℤ) = ((0 : ℕ) : ℤ) +
    ((pairs.map _).sum - ((pairs.countP _ : ℕ) : ℤ)) at houdlers
  rw [hpoints, houdlers]
  constructor <;> intro hcount <;> omega

theorem attackScore_iff_three :
    let ctx : TarotContext :=
      { mNbPlayers := 3, mBid := { taker := .south, contract := .take }, mFirstPlayer := .east }
    let trick : Deck := ⟨[⟨1, Card.spades⟩, Card.fool, ⟨14, Card.spades⟩], .noTeam⟩
    (ctx.setTricks 0 [trick]).mStatsAttack.points = 11 ∧
      (ctx.setTricks 0 [trick]).mStatsAttack.points =
        attackPoints ctx.mBid .east trick := by
  intro ctx trick
  have htrick : ∀ t ∈ [trick], IsTrick 3 t :=
    List.forall_mem_singleton.mpr ⟨rfl, by decide, by decide⟩
  have h := (attackScore_iff ctx (.inl rfl) rfl htrick (by decide)).mpr (by decide)
  exact ⟨by decide, by simpa [led] using h.1⟩

/-- The taker wins a trick to which its partner has played the Fool, and four points and an oudler
are taken off. -/
theorem attackScore_fool_of_partner :
    let ctx : TarotContext :=
      { mNbPlayers := 5
        mBid := { taker := .south, partner := .east, contract := .take }
        mFirstPlayer := .south }
    let trick : Deck := ⟨[⟨14, Card.spades⟩, Card.fool, ⟨1, Card.spades⟩, ⟨2, Card.spades⟩,
      ⟨3, Card.spades⟩], .noTeam⟩
    IsTrick 5 trick ∧ winnerOf .south trick = .south ∧ playedBy .south trick Card.fool = .east ∧
      ¬ ((ctx.setTricks 0 [trick]).mStatsAttack.points =
          ((led .south [trick]).map fun p => attackPoints ctx.mBid p.1 p.2).sum ∧
        ((ctx.setTricks 0 [trick]).mStatsAttack.oudlers : ℤ) =
          ((led .south [trick]).map fun p => attackOudlers ctx.mBid p.1 p.2).sum) :=
  ⟨⟨rfl, by decide, by decide⟩, by decide, by decide, by decide⟩

end TarotContext

end TarotClub
