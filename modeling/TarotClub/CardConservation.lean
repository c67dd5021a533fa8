import TarotClub.Autoplay
import TarotClub.DealRun

namespace TarotClub.PlayingTable

open Machine

/-- The log of the cards that a table has accepted in the current deal, with the seats. -/
def notePlay (t : PlayingTable) (c : Call) (plays : List (Card × Place)) : List (Card × Place) :=
  t.mEngine.notePlay (t.action c) plays

/-- What holds at a table with `n` seats. -/
structure InDeal (n : ℕ) (plays : List (Card × Place)) (t : PlayingTable) : Prop
    extends Open t where
  players : t.nbPlayers = n
  taken : t.mEngine.Taken
  phase : t.mEngine.Phase n plays

variable {t : PlayingTable} {n : ℕ} {plays : List (Card × Place)}

/-- Bids that count and fair deals, as the calls of a run bring them. -/
def FairCall (n : ℕ) (t : PlayingTable) (c : Call) : Prop := t.BidCounts c ∧ c.DealsFairly n

theorem guarded_fairCall {cs : List Call} (hbids : Guarded PlayingTable.apply BidCounts t cs)
    (hdeals : ∀ c ∈ cs, c.DealsFairly n) : Guarded PlayingTable.apply (FairCall n) t cs := by
  induction cs generalizing t with
  | nil => trivial
  | cons c cs ih =>
    exact ⟨⟨hbids.1, hdeals c List.mem_cons_self⟩,
      ih hbids.2 fun d hd => hdeals d (List.mem_cons_of_mem c hd)⟩

/-- A call whose bid counts, and whose new cards are a fair deal. -/
theorem InDeal.act (h : t.InDeal n plays) (hn : n = 3 ∨ n = 4 ∨ n = 5) {c : Call}
    (hbid : t.BidCounts c) (hfair : ∀ deal, t.action c = .newDeal deal → deal.Fair n) :
    (t.apply c).InDeal n (t.notePlay c plays) := by
  have ha := h.action_enabled c
  have htaken : (t.mEngine.act (t.action c)).Taken := h.taken.act ha hbid
  refine ⟨h.toOpen.apply c, (apply_nbPlayers t c).trans h.players, ?_, ?_⟩ <;>
    rw [apply_mEngine]
  · exact htaken
  · exact h.phase.act hn h.taken ha htaken hfair

theorem InDeal.fair (h : t.InDeal n plays) {c : Call} (hc : c.DealsFairly n) (deal : Deal)
    (hd : t.action c = .newDeal deal) : deal.Fair n := by
  rw [← h.players] at hc ⊢
  exact hc.fair hd

theorem InDeal.apply (h : t.InDeal n plays) (hn : n = 3 ∨ n = 4 ∨ n = 5) {c : Call}
    (hc : t.FairCall n c) : (t.apply c).InDeal n (t.notePlay c plays) :=
  h.act hn hc.1 (h.fair hc.2)

/-- The log that a run leaves goes with the state it reaches. -/
theorem InDeal.run (h : t.InDeal n plays) (hn : n = 3 ∨ n = 4 ∨ n = 5) {cs : List Call}
    (hcs : Guarded PlayingTable.apply (FairCall n) t cs) :
    (run PlayingTable.apply t cs).InDeal n
      (run (observe PlayingTable.apply notePlay) (t, plays) cs).2 := by
  have hinv := (guarded_observe notePlay (p := (t, plays)) hcs).invariant
    (fun q : PlayingTable × List (Card × Place) => q.1.InDeal n q.2)
    (fun q c hq hc => hq.apply hn hc) h
  rwa [run_observe_fst] at hinv

theorem createTable_inDeal (t : PlayingTable) (randomPlace : Place) (hn : n = 3 ∨ n = 4 ∨ n = 5) :
    (t.createTable n randomPlace).InDeal n [] where
  toOpen := (createTable_barrier t randomPlace (by omega)).toOpen
  players := rfl
  taken := Engine.createTable_taken t.mEngine randomPlace (by omega) (by omega)
  phase := rfl

/-- A call that gives out new cards gives out a fair deal. -/
theorem exists_newDeal (hplayers : t.nbPlayers = n) {c : Call}
    (hdeal : (t.action c).isNewDeal = true) (hfair : c.DealsFairly n) :
    ∃ deal, deal.Fair n ∧ (t.apply c).mEngine = t.mEngine.newDeal deal := by
  obtain ⟨deal, hd⟩ := Engine.Action.eq_newDeal hdeal
  rw [← hplayers] at hfair ⊢
  exact ⟨deal, hfair.fair hd, by rw [apply_mEngine, hd, Engine.act]⟩

/-- It puts the table into the first step of the deal. -/
theorem Open.newDeal_inDeal (ht : t.Open) (hn : n = 3 ∨ n = 4 ∨ n = 5) (hplayers : t.nbPlayers = n)
    {c : Call} (hdeal : (t.action c).isNewDeal = true) (hfair : c.DealsFairly n) :
    (t.apply c).InDeal n [] ∧ (t.apply c).mEngine.cards = Deck.tarotDeck.cards := by
  obtain ⟨deal, hcards, heng⟩ := exists_newDeal hplayers hdeal hfair
  have hbefore : (t.mEngine.newDeal deal).BeforeDiscard n :=
    Engine.newDeal_beforeDiscard t.mEngine hplayers hcards
  have hseq : (t.mEngine.newDeal deal).mSequence = .waitForCards := by
    unfold Engine.newDeal
    rfl
  refine ⟨⟨ht.apply c, (apply_nbPlayers t c).trans hplayers, ?_, ?_⟩, ?_⟩ <;> rw [heng]
  · refine Engine.newDeal_taken deal ?_
    rw [show t.mEngine.mCtx.mNbPlayers = n from hplayers]
    omega
  · simp only [Engine.Phase, hseq]
    exact ⟨hbefore, trivial⟩
  · exact hbefore.cards

/-- The state of every run that follows a deal of `n` fair hands: the 78 cards are in the hands,
on the table, in the stored tricks and put aside, each of them once. At the end of the deal the
hands are empty and every trick has a card of each player. -/
theorem card_conservation {t : PlayingTable} (ht : t.Reachable) {n : ℕ}
    (hn : n = 3 ∨ n = 4 ∨ n = 5) (hplayers : t.nbPlayers = n) {c : Call}
    (hdeal : (t.action c).isNewDeal = true) {cs : List Call}
    (hfair : ∀ d ∈ c :: cs, d.DealsFairly n) (hbids : ∀ d ∈ cs, d.NamesContract) :
    let e := (Machine.run PlayingTable.apply (t.apply c) cs).mEngine
    e.cards = Deck.tarotDeck.cards ∧ e.cards.Nodup ∧ e.cards.card = 78 ∧
      (e.mSequence = .waitForEndOfDeal →
        (∀ i < n, (e.mPlayers i).mDeck = []) ∧
          ∀ j < numberOfCardsInHand n, (e.mCtx.mTricks j).size = n) := by
  intro e
  obtain ⟨hstart, hcards⟩ := ht.open.newDeal_inDeal hn hplayers hdeal
    (hfair c List.mem_cons_self)
  have hguard : Guarded PlayingTable.apply (FairCall n) (t.apply c) cs :=
    guarded_fairCall (guarded_bidCounts _ hbids) fun d hd => hfair d (List.mem_cons_of_mem c hd)
  have hall : e.cards = Deck.tarotDeck.cards := by
    refine (hguard.invariant (fun s : PlayingTable => (∃ plays, s.InDeal n plays) ∧
      s.mEngine.cards = Deck.tarotDeck.cards) ?_ ⟨⟨_, hstart⟩, hcards⟩).2
    rintro s d ⟨⟨plays, hs⟩, hc⟩ hd
    have hnext := hs.apply hn hd
    refine ⟨⟨_, hnext⟩, ?_⟩
    have hphase := hnext.phase
    rw [apply_mEngine] at hphase ⊢
    exact Engine.Phase.cards_act hphase (hs.action_enabled d) hc
  refine ⟨hall, hall ▸ Deck.tarotDeck_nodup, ?_, fun hend => ?_⟩
  · rw [hall, Deck.card_cards, Deck.tarotDeck_size]
  · have hphase : e.Phase n _ := (hstart.run hn hguard).phase
    simp only [Engine.Phase, hend] at hphase
    obtain ⟨hplay, hcount, hpos⟩ := hphase
    refine ⟨fun i hi => ?_, fun j hj => ?_⟩
    · have hhand := hplay.hands i hi
      rw [hpos, if_neg (Nat.not_lt_zero _)] at hhand
      exact Deck.size_eq_zero.mp (by omega)
    · rw [hplay.tricks j (lt_of_lt_of_le hj (Engine.sizes hn).2.1), if_pos (by omega)]

/-- Three players who have played a whole deal. -/
theorem card_conservation_three :
    let e := (playedThree plainDealer).mEngine
    e.mSequence = .waitForEndOfDeal ∧ e.cards.Nodup ∧ e.cards.card = 78 ∧
      (∀ i < 3, (e.mPlayers i).mDeck = []) ∧
        ∀ j < numberOfCardsInHand 3, (e.mCtx.mTricks j).size = 3 := by
  have hdeals := playThree_dealsFairly (plainDealer_fair (.inl rfl))
  have hready := lastReady_isNewDeal
  have hend := playedThree_ends.1
  generalize plainDealer = dealer at *
  have h := card_conservation (t := nearlyReady dealer)
    (.run (.create {} 3 .south (by decide)) _) (.inl rfl) hready.1 hready.2 hdeals
    (playThree_named dealer)
  unfold playedThree at hend ⊢
  generalize Machine.run PlayingTable.apply _ (playThree dealer) = s at h hend ⊢
  exact ⟨hend, h.2.1, h.2.2.1, h.2.2.2 hend⟩

end TarotClub.PlayingTable
