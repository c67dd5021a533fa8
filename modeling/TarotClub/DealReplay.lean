import TarotClub.Autoplay
import TarotClub.DealLedger

namespace TarotClub

open Machine

namespace Engine

open Finset (range)
open TarotContext (Logged Scorable)

variable {n : ℕ} {plays : List (Card × Place)} {e : Engine}

/-- At the end of a deal the cards are in the tricks and in the discard. -/
theorem Playing.scorable (h : e.Playing n plays) (hn : n = 3 ∨ n = 4 ∨ n = 5)
    (hcounter : e.mTrickCounter = numberOfCardsInHand n) (hpos : e.mPosition = 0)
    {ctx : TarotContext} (hl : Logged n (numberOfCardsInHand n) ctx)
    (hctx : e.mCtx = (ctx.analyzeGame {}).2) : Scorable n ctx := by
  have htricks : e.mCtx.mTricks = ctx.mTricks := by rw [hctx]; rfl
  have hdiscard : e.mCtx.mDiscard = ctx.mDiscard := by rw [hctx]; rfl
  have hT : numberOfCardsInHand n ≤ 24 := (sizes hn).2.1
  have hsize : ∀ j < 24, (ctx.mTricks j).size = if j < numberOfCardsInHand n then n else 0 := by
    intro j hj
    rw [← htricks, ← hcounter]
    exact h.tricks j hj
  have hhands : ∑ i ∈ range e.mCtx.mNbPlayers, (e.mPlayers i).cards = 0 := by
    refine Finset.sum_eq_zero fun i hi => ?_
    have hhand := h.hands i (h.players ▸ Finset.mem_range.mp hi)
    rw [hpos, if_neg (Nat.not_lt_zero _)] at hhand
    exact Deck.cards_of_nil (Deck.size_eq_zero.mp (by omega))
  have hcurrent : e.currentTrick.cards = 0 :=
    Deck.cards_of_nil (Deck.size_eq_zero.mp (h.current.trans hpos))
  have haside : e.aside = ctx.mDiscard := by
    rw [aside, hdiscard, if_neg hl.discard]
  have hsum : ∑ j ∈ range 24, (e.mCtx.mTricks j).cards =
      ∑ j ∈ range (numberOfCardsInHand n), (ctx.mTricks j).cards := by
    rw [htricks]
    refine (Finset.sum_subset (Finset.range_mono hT) fun j hj hnot => ?_).symm
    have hzero := hsize j (Finset.mem_range.mp hj)
    rw [if_neg (Finset.mem_range.not.mp hnot)] at hzero
    exact Deck.cards_of_nil (Deck.size_eq_zero.mp hzero)
  have hcards := h.cards
  rw [Engine.cards, hhands, hcurrent, haside, hsum, add_zero, zero_add, add_comm] at hcards
  exact
    { players := (congrArg TarotContext.mNbPlayers hctx).symm.trans h.players
      tricks := fun j hj => by
        have hle := trick_le_cards e (j := j) (by omega)
        rw [htricks] at hle
        exact ⟨(hsize j (by omega)).trans (if_pos hj), valid_of_le_cards h.cards hle,
          Multiset.coe_nodup.mp (nodup_of_le_cards h.cards hle)⟩
      cards := hcards
      attackHandle := hl.attackHandle.valid
      defenseHandle := hl.defenseHandle.valid
      recorded := hl.recorded
      owner := hl.owner
      partner := hl.partner
      shownAttack := hl.attackHandle.shown
      shownDefense := hl.defenseHandle.shown
      rest := fun j hj hge => Deck.size_eq_zero.mp
        ((hsize j hj).trans (if_neg (not_lt.mpr hge))) }

end Engine

namespace PlayingTable

open TarotContext (MeansTheSame)

/-- In every run that follows a deal of `n` fair hands: when the deal has come to its end, loading the
object it is saved to succeeds, and scoring it gives the results it has been scored with, if and only
if four players have played it or it means the same at a table of four. -/
theorem replay_sameResult_iff {t : PlayingTable} (ht : t.Reachable) {n : ℕ}
    (hn : n = 3 ∨ n = 4 ∨ n = 5) (hplayers : t.nbPlayers = n) {c : Call}
    (hdeal : (t.action c).isNewDeal = true) {cs : List Call}
    (hfair : ∀ d ∈ c :: cs, d.DealsFairly n) (hbids : ∀ d ∈ cs, d.NamesContract) :
    let e := (Machine.run PlayingTable.apply (t.apply c) cs).mEngine
    let loaded := ({} : TarotContext).loadFromJson (.object e.mCtx.saveToJson)
    e.mSequence = .waitForEndOfDeal →
      ((loaded.1 = true ∧ (loaded.2.analyzeGame {}).1.SameResult e.mCurrentPoints) ↔
        n = 4 ∨ MeansTheSame n e.mCtx) := by
  intro e loaded hend
  obtain ⟨hstart, -⟩ := ht.open.newDeal_inDeal hn hplayers hdeal (hfair c List.mem_cons_self)
  have hguard : Guarded PlayingTable.apply (FairCall n) (t.apply c) cs :=
    guarded_fairCall (guarded_bidCounts _ hbids) fun d hd => hfair d (List.mem_cons_of_mem c hd)
  have hledger₀ : (t.apply c).mEngine.Ledger n := by
    obtain ⟨deal, hd⟩ := Engine.Action.eq_newDeal hdeal
    rw [apply_mEngine, hd]
    exact Engine.newDeal_unplayed t.mEngine deal
  obtain ⟨⟨plays, hin⟩, hledger⟩ := hguard.invariant
    (fun s : PlayingTable => (∃ plays, s.InDeal n plays) ∧ s.mEngine.Ledger n)
    (by
      rintro s d ⟨⟨plays, hs⟩, hl⟩ hd
      refine ⟨⟨_, hs.apply hn hd⟩, ?_⟩
      rw [apply_mEngine]
      exact hl.act hs.phase hn (hs.action_enabled d)) ⟨⟨_, hstart⟩, hledger₀⟩
  have hphase : e.Phase n plays := hin.phase
  have hlast : e.Ledger n := hledger
  simp only [Engine.Phase, Engine.Ledger, hend] at hphase hlast
  obtain ⟨hplay, hcounter, hpos⟩ := hphase
  obtain ⟨ctx, hl, hctx, hpoints⟩ := hlast
  have hs := hplay.scorable hn hcounter hpos hl hctx
  have hsave : e.mCtx.saveToJson = ctx.saveToJson := by rw [hctx]; rfl
  obtain ⟨hret, hrestored⟩ := hs.loadFromJson hn
  have hiff := hs.sameResult_iff hrestored hn
  have hmeans : MeansTheSame n e.mCtx ↔ MeansTheSame n ctx := by
    rw [hctx]
    constructor
    · rintro ⟨h1, h2, h3, h4, h5, h6, h7⟩
      exact ⟨h1, h2, h3, h4, h5, h6, h7⟩
    · rintro ⟨h1, h2, h3, h4, h5, h6, h7⟩
      exact ⟨h1, h2, h3, h4, h5, h6, h7⟩
  have hloaded : loaded = ({} : TarotContext).loadFromJson (.object ctx.saveToJson) := by
    rw [← hsave]
  rw [hloaded, hpoints, hmeans, ← hiff]
  exact ⟨fun hboth => hboth.2, fun hsame => ⟨hret, hsame⟩⟩

/-- The taker loses a trick, and nobody shows a handle. -/
theorem replay_sameResult_iff_three :
    let e := (playedThree plainDealer).mEngine
    let loaded := ({} : TarotContext).loadFromJson (.object e.mCtx.saveToJson)
    e.mSequence = .waitForEndOfDeal ∧ loaded.1 = true ∧
      (loaded.2.analyzeGame {}).1.SameResult e.mCurrentPoints := by
  have hdeals := playThree_dealsFairly (plainDealer_fair (.inl rfl))
  have hready := lastReady_isNewDeal
  have hend := playedThree_ends.1
  have hmeans : MeansTheSame 3 (playedThree plainDealer).mEngine.mCtx :=
    of_decide_eq_true (playedThree_of_play plainDealer (P := fun t =>
      decide (MeansTheSame 3 t.mEngine.mCtx)) (by decide +kernel))
  generalize plainDealer = dealer at *
  have h := replay_sameResult_iff (t := nearlyReady dealer)
    (.run (.create {} 3 .south (by decide)) _) (.inl rfl) hready.1 hready.2 hdeals
    (playThree_named dealer)
  unfold playedThree at hend hmeans ⊢
  exact ⟨hend, (h hend).mpr (.inr hmeans)⟩

/-- The last of three hands of this deck holds every trump but six, and the petit is its last
card. -/
def petitLast : Deck where
  mDeck := ((List.range 4).flatMap fun suit => (List.range 14).map fun i => ⟨i + 1, suit⟩) ++
    ((List.range 15).map (· + 2) ++ 1 :: ((List.range 5).map (· + 17) ++ [0])).map
      fun value => ⟨value, Card.trumps⟩

/-- The attack has won every trick, the last of them with the petit; of the deal that is loaded
again the results know neither. -/
theorem replay_loses_slam :
    (∀ distribution, (createRandomDeal petitLast 3 distribution).Fair 3) ∧
      (playedThree (createRandomDeal petitLast)).Reachable ∧
      let e := (playedThree (createRandomDeal petitLast)).mEngine
      let loaded := ({} : TarotContext).loadFromJson (.object e.mCtx.saveToJson)
      e.mSequence = .waitForEndOfDeal ∧
        ¬ (loaded.2.analyzeGame {}).1.SameResult e.mCurrentPoints := by
  have hcards : petitLast.cards = Deck.tarotDeck.cards := by decide +kernel
  refine ⟨createRandomDeal_fair hcards (.inl rfl), ?_⟩
  have hfacts := of_decide_eq_true (playedThree_of_play (createRandomDeal petitLast)
    (P := fun t => decide (t.mEngine.mSequence = .waitForEndOfDeal ∧
      t.mEngine.mCurrentPoints.slamDone = true ∧
      ((({} : TarotContext).loadFromJson
        (.object t.mEngine.mCtx.saveToJson)).2.analyzeGame {}).1.slamDone = false))
      (by decide +kernel))
  generalize createRandomDeal petitLast = dealer at *
  obtain ⟨hend, hslam, hloaded⟩ := hfacts
  refine ⟨playedThree_reachable dealer, hend, fun hsame => ?_⟩
  have heq := hsame.2.2.2.1
  rw [hslam, hloaded] at heq
  exact Bool.false_ne_true heq

end PlayingTable

end TarotClub
