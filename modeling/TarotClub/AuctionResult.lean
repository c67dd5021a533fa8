import TarotClub.Auction

namespace TarotClub

open Machine

/-- One reply of an auction. -/
structure Announce where
  contract : Contract
  slam : Bool
  place : Place
  deriving DecidableEq

def Engine.Action.announce : Engine.Action → Option Announce
  | .bid c slam p => some ⟨c, slam, p⟩
  | _ => none

/-- The engine's bid is this reply. -/
def Announce.IsBid (b : Announce) (bid : Bid) : Prop :=
  bid.contract = b.contract ∧ bid.taker = b.place ∧ bid.slam = b.slam

/-- Whether the first reply is a pass that carries the slam flag. -/
def PassesWithSlam (bids : List Announce) : Prop :=
  ∃ b rest, bids = b :: rest ∧ b.contract = .pass ∧ b.slam = true

/-- The auction has come to what its replies say: all seats have passed, or the first of the
highest replies is the engine's bid, and the auction was closed by the last seat or by a
slam. -/
structure AuctionCorrect (n : ℕ) (bids : List Announce) (e : Engine) : Prop where
  allPassed : e.mSequence = .waitForAllPassed →
    (∀ i < n, ∃ b ∈ bids, b.place.value = i) ∧ ∀ b ∈ bids, b.contract = .pass
  taken : e.mSequence.isPastAuction = true →
    ∃ b, IsFirstMax Announce.contract bids b ∧ b.IsBid e.mCtx.mBid ∧
      (bids.length = n ∨ b.slam = true ∧ .pass < b.contract)

namespace Engine

/-- The state of the engine after these replies to the deal it has made last. -/
structure Bidding (n : ℕ) (first : Place) (bids : List Announce) (e : Engine) : Prop where
  players : e.mCtx.mNbPlayers = n
  best : (bids = [] ∧ e.mCtx.mBid.contract = .noAny ∧ e.mCtx.mBid.slam = false) ∨
    ∃ b, IsFirstMax Announce.contract bids b ∧ b.IsBid e.mCtx.mBid
  named : ∀ b ∈ bids, b.contract ≠ .noAny
  places : bids.map Announce.place =
    (List.range bids.length).map (TarotContext.seatAfter first n)
  valid : ∀ b ∈ bids, b.place.value < n
  length : bids.length ≤ n
  alone : ∀ b rest, bids = b :: rest → b.contract = .pass → b.slam = true → rest = []
  asked : e.mSequence = .waitForCards ∨ e.mSequence = .waitForBid ∨
      e.mSequence = .waitForShowBid → e.mPosition = bids.length ∧
    e.mCurrentPlayer = TarotContext.seatAfter first n bids.length
  more : e.mSequence = .waitForCards ∨ e.mSequence = .waitForBid →
    e.mCtx.mBid.slam = false ∧ bids.length < n
  replied : e.mSequence = .waitForShowBid → bids ≠ []
  closed : e.mSequence = .waitForAllPassed ∨ e.mSequence.isPastAuction = true →
    (bids.length = n ∨ e.mCtx.mBid.slam = true) ∧ bids ≠ []
  passed : e.mSequence = .waitForAllPassed → e.mCtx.mBid.contract = .pass
  taken : e.mSequence.isPastAuction = true → e.mCtx.mBid.contract ≠ .pass

theorem newDeal_bidding {e : Engine} {n : ℕ} (hn : e.mCtx.mNbPlayers = n) (h0 : 0 < n)
    (deal : Deal) : (e.newDeal deal).Bidding n (e.newDeal deal).mCurrentPlayer [] where
  players := (newDeal_mNbPlayers e deal).trans hn
  best := .inl ⟨rfl, by rw [newDeal_mBid], by rw [newDeal_mBid]⟩
  named := by simp
  places := rfl
  valid := by simp
  length := Nat.zero_le n
  alone := by simp
  asked := fun _ => ⟨newDeal_mPosition e deal, rfl⟩
  more := fun _ => ⟨by rw [newDeal_mBid], h0⟩
  replied := fun h => by cases h
  closed := fun h => by rcases h with h | h <;> cases h
  passed := fun h => by cases h
  taken := fun h => by cases h

variable {n : ℕ} {first : Place} {bids : List Announce} {e : Engine}

theorem Bidding.bid (h : e.Bidding n first bids) (hn : n ≤ 5) {c : Contract} {slam : Bool}
    {p : Place} (ha : e.Enabled (.bid c slam p)) (hc : c ≠ .noAny) :
    (e.act (.bid c slam p)).Bidding n first (bids ++ [⟨c, slam, p⟩]) := by
  obtain ⟨hseq, hp, hlt⟩ := ha
  obtain ⟨hpos, hcur⟩ := h.asked (.inr (.inl hseq))
  obtain ⟨hslam, hlen⟩ := h.more (.inr hseq)
  -- a pass with the slam flag would have closed the auction
  have hnot : ∀ b rest, bids = b :: rest → b.contract = .pass → b.slam = true → False := by
    intro b rest hb hpass hbs
    obtain rfl := h.alone b rest hb hpass hbs
    rcases h.best with ⟨he, -⟩ | ⟨x, hmax, -, -, hxs⟩
    · rw [he] at hb
      cases hb
    · obtain rfl := List.mem_singleton.mp (hb ▸ hmax.mem)
      exact Bool.false_ne_true (hslam.symm.trans (hxs.trans hbs))
  refine ⟨(act_mNbPlayers e _).trans h.players, .inr ?_, ?_, ?_, ?_, ?_, ?_, fun _ => ⟨?_, ?_⟩,
    fun hs => ?_, fun _ => by simp, fun hs => ?_, fun hs => ?_, fun hs => ?_⟩
  · rcases setBid_mBid e c slam p with ⟨hgt, hbid⟩ | ⟨hle, hbid⟩ <;> rw [act, hbid]
    · refine ⟨⟨c, slam, p⟩, ?_, rfl, rfl, rfl⟩
      rcases h.best with ⟨rfl, -⟩ | ⟨b, hmax, hb, -⟩
      · exact IsFirstMax.singleton _ _
      · rw [hb] at hgt
        exact hmax.append_lt hgt
    · rcases h.best with ⟨-, hnone, -⟩ | ⟨b, hmax, hb, hrest⟩
      · rw [hnone] at hle
        exact absurd (le_antisymm hle (Contract.noAny_le c)) hc
      · refine ⟨b, hmax.append_le ?_, hb, hrest⟩
        rwa [← hb]
  · intro b hb
    rcases List.mem_append.mp hb with hb | hb
    · exact h.named b hb
    · rw [List.mem_singleton.mp hb]
      exact hc
  · rw [List.map_append, h.places, List.length_append, List.length_singleton,
      List.range_succ, List.map_append]
    simp only [List.map_cons, List.map_nil, hp, hcur]
  · intro b hb
    rcases List.mem_append.mp hb with hb | hb
    · exact h.valid b hb
    · rw [List.mem_singleton.mp hb, ← h.players]
      exact hlt
  · rw [List.length_append, List.length_singleton]
    exact hlen
  · intro b rest hb hpass hbs
    rcases List.cons_eq_append_iff.mp hb.symm with ⟨rfl, hb⟩ | ⟨tail, htail, -⟩
    · exact (List.cons.inj hb).2.symm
    · exact absurd (hnot b tail htail hpass hbs) id
  · rw [act, setBid_mPosition, u8, hpos, List.length_append, List.length_singleton,
      Nat.mod_eq_of_lt (by omega)]
  · rw [List.length_append, List.length_singleton, TarotContext.seatAfter_succ, ← hcur,
      ← h.players]
    rfl
  · rcases hs with hs | hs <;> cases hs
  · rcases hs with hs | hs <;> cases hs
  · cases hs
  · cases hs

/-- In the steps of the auction nothing else is asked. -/
theorem isPastAuction_ne {seq : Sequence} (h : seq.isPastAuction = true) :
    seq ≠ .waitForCards ∧ seq ≠ .waitForBid ∧ seq ≠ .waitForShowBid ∧
      seq ≠ .waitForAllPassed := by
  cases seq <;> simp [Sequence.isPastAuction] at h ⊢

theorem Bidding.bidSequence (h : e.Bidding n first bids) (ha : e.Enabled .bidSequence) :
    (e.act .bidSequence).Bidding n first bids := by
  obtain ⟨hpos, hcur⟩ := h.asked (ha.imp_right .inr)
  have hn := (act_mNbPlayers e .bidSequence).trans h.players
  rcases act_bidSequence_cases e with ⟨hlt, hslam, hact⟩ | ⟨hclosed, hcon, htaker, hslam, hseq⟩
  · rw [hact]
    rw [hpos, h.players] at hlt
    exact { h with
      asked := fun _ => ⟨hpos, hcur⟩
      more := fun _ => ⟨hslam, hlt⟩
      replied := fun hs => by cases hs
      closed := fun hs => by rcases hs with hs | hs <;> cases hs
      passed := fun hs => by cases hs
      taken := fun hs => by cases hs }
  · have hfull : bids.length = n ∨ e.mCtx.mBid.slam = true := by
      rw [hpos, h.players] at hclosed
      exact hclosed.imp_left fun hle => le_antisymm h.length hle
    have hne : bids ≠ [] := by
      rcases ha with hs | hs
      · obtain ⟨hs, hlen⟩ := h.more (.inl hs)
        rcases hfull with hf | hf
        · omega
        · exact absurd (hs.symm.trans hf) Bool.false_ne_true
      · exact h.replied hs
    have hseq' : (e.act .bidSequence).mSequence ≠ .waitForCards ∧
        (e.act .bidSequence).mSequence ≠ .waitForBid ∧
        (e.act .bidSequence).mSequence ≠ .waitForShowBid := by
      rcases hseq with ⟨-, hs⟩ | ⟨-, hs⟩
      · rw [hs]
        decide
      · obtain ⟨h1, h2, h3, -⟩ := isPastAuction_ne hs
        exact ⟨h1, h2, h3⟩
    refine { h with
      players := hn
      best := ?_
      asked := fun hs => ?_
      more := fun hs => ?_
      replied := fun hs => absurd hs hseq'.2.2
      closed := fun _ => ⟨by rwa [hslam], hne⟩
      passed := fun hs => ?_
      taken := fun hs => ?_ }
    · refine h.best.imp (fun hb => ⟨hb.1, hcon.trans hb.2.1, hslam.trans hb.2.2⟩) ?_
      rintro ⟨b, hmax, hb⟩
      exact ⟨b, hmax, hcon.trans hb.1, htaker.trans hb.2.1, hslam.trans hb.2.2⟩
    · rcases hs with hs | hs | hs
      exacts [absurd hs hseq'.1, absurd hs hseq'.2.1, absurd hs hseq'.2.2]
    · rcases hs with hs | hs
      exacts [absurd hs hseq'.1, absurd hs hseq'.2.1]
    · rcases hseq with ⟨hpass, -⟩ | ⟨-, hpast⟩
      · rw [hcon, hpass]
      · exact absurd hs (isPastAuction_ne hpast).2.2.2
    · rcases hseq with ⟨-, hall⟩ | ⟨hpass, -⟩
      · exact absurd hall (isPastAuction_ne hs).2.2.2
      · rwa [hcon]

/-- Behind the auction the replies and what came of them stay. -/
theorem Bidding.late (h : e.Bidding n first bids) {a : Action} (ha : e.Enabled a)
    (hl : a.isLate = true) : (e.act a).Bidding n first bids := by
  obtain ⟨hcon, htaker, hslam⟩ := act_isLate_mBid e hl
  have hpast := enabled_isLate ha hl
  have hpast' := act_isLate_mSequence ha hl
  obtain ⟨h1, h2, h3, h4⟩ := isPastAuction_ne hpast'
  refine { h with
    players := (act_mNbPlayers e a).trans h.players
    best := ?_
    asked := fun hs => ?_
    more := fun hs => ?_
    replied := fun hs => absurd hs h3
    closed := fun _ => by rw [hslam]; exact h.closed (.inr hpast)
    passed := fun hs => absurd hs h4
    taken := fun _ => by rw [hcon]; exact h.taken hpast }
  · refine h.best.imp (fun hb => ⟨hb.1, hcon.trans hb.2.1, hslam.trans hb.2.2⟩) ?_
    rintro ⟨b, hmax, hb⟩
    exact ⟨b, hmax, hcon.trans hb.1, htaker.trans hb.2.1, hslam.trans hb.2.2⟩
  · rcases hs with hs | hs | hs
    exacts [absurd hs h1, absurd hs h2, absurd hs h3]
  · rcases hs with hs | hs
    exacts [absurd hs h1, absurd hs h2]

theorem Bidding.act (h : e.Bidding n first bids) (hn : n ≤ 5) {a : Action} (ha : e.Enabled a)
    (hr : a.isRestart = false) (hc : ∀ b ∈ a.announce, b.contract ≠ .noAny) :
    (e.act a).Bidding n first (bids ++ a.announce.toList) := by
  by_cases hl : a.isLate = true
  · have hnone : a.announce = none := by cases a <;> first | rfl | cases hl
    rw [hnone, Option.toList_none, List.append_nil]
    exact h.late ha hl
  · cases a with
    | stay =>
      rw [show bids ++ Action.stay.announce.toList = bids from List.append_nil bids]
      exact h
    | newGame | newDeal _ => cases hr
    | bid c slam p => exact h.bid hn ha (hc _ rfl)
    | bidSequence =>
      simpa only [Action.announce, Option.toList_none, List.append_nil] using h.bidSequence ha
    | _ => exact absurd rfl hl

theorem Bidding.run (hn : n ≤ 5) (h : e.Bidding n first bids) {as : List Action}
    (has : Guarded Engine.act Enabled e as) (hr : ∀ a ∈ as, a.isRestart = false)
    (hc : ∀ b ∈ as.filterMap Action.announce, b.contract ≠ .noAny) :
    (Machine.run Engine.act e as).Bidding n first (bids ++ as.filterMap Action.announce) := by
  induction as generalizing e bids with
  | nil => simpa using h
  | cons a as ih =>
    have hc' : (∀ b ∈ a.announce, b.contract ≠ .noAny) ∧
        ∀ b ∈ as.filterMap Action.announce, b.contract ≠ .noAny := by
      cases ha : a.announce with
      | none => simpa [ha] using hc
      | some b => simpa [ha] using hc
    have hstep := h.act hn has.1 (hr a List.mem_cons_self) hc'.1
    have hrun := ih hstep has.2 (fun b hb => hr b (List.mem_cons_of_mem a hb)) hc'.2
    rw [List.append_assoc] at hrun
    have hlog : a.announce.toList ++ as.filterMap Action.announce =
        (a :: as).filterMap Action.announce := by
      cases ha : a.announce <;> simp [ha]
    rwa [hlog] at hrun

/-- A closed auction has come to what its replies say, unless it began with a pass that carries
the slam flag. -/
theorem Bidding.correct_iff (h : e.Bidding n first bids) (hn : 2 ≤ n) (hn5 : n ≤ 5)
    (hclosed : e.mSequence = .waitForAllPassed ∨ e.mSequence.isPastAuction = true) :
    AuctionCorrect n bids e ↔ ¬ PassesWithSlam bids := by
  obtain ⟨hfull, hne⟩ := h.closed hclosed
  obtain ⟨b, hmax, hb⟩ : ∃ b, IsFirstMax Announce.contract bids b ∧ b.IsBid e.mCtx.mBid := by
    rcases h.best with ⟨hnil, -⟩ | hbest
    · exact absurd hnil hne
    · exact hbest
  constructor
  · rintro hok ⟨x, rest, rfl, hpass, hslam⟩
    obtain rfl := h.alone x rest rfl hpass hslam
    obtain rfl := List.mem_singleton.mp hmax.mem
    have hall : e.mSequence = .waitForAllPassed := by
      rcases hclosed with hs | hs
      · exact hs
      · exact absurd (hb.1.trans hpass) (h.taken hs)
    obtain ⟨hseats, -⟩ := hok.allPassed hall
    obtain ⟨y, hy, hy0⟩ := hseats 0 (by omega)
    obtain ⟨z, hz, hz1⟩ := hseats 1 (by omega)
    rw [List.mem_singleton.mp hy] at hy0
    rw [List.mem_singleton.mp hz] at hz1
    omega
  · intro hno
    have hslam : e.mCtx.mBid.slam = true → .pass < b.contract := by
      intro hs
      rcases (Contract.pass_le (h.named b hmax.mem)).lt_or_eq with hlt | heq
      · exact hlt
      obtain ⟨pre, post, rfl, hpre, -⟩ := hmax
      cases pre with
      | nil => exact absurd ⟨b, post, rfl, heq.symm, hb.2.2.symm.trans hs⟩ hno
      | cons y pre =>
        have hy := hpre y List.mem_cons_self
        rw [← heq] at hy
        exact absurd hy (not_lt.mpr (Contract.pass_le (h.named y (by simp))))
    refine ⟨fun hs => ?_, fun hs => ⟨b, hmax, hb, ?_⟩⟩
    · have hpass : b.contract = .pass := hb.1.symm.trans (h.passed hs)
      have hlen : bids.length = n := by
        rcases hfull with hf | hf
        · exact hf
        · exact absurd (hslam hf) (hpass ▸ lt_irrefl _)
      refine ⟨fun i hi => ?_, fun x hx => ?_⟩
      · have hplaces := h.places
        rw [hlen] at hplaces
        have hmem : ∀ j < n, ∃ x ∈ bids, x.place = TarotContext.seatAfter first n j := by
          intro j hj
          have : TarotContext.seatAfter first n j ∈ bids.map Announce.place := by
            rw [hplaces]
            exact List.mem_map_of_mem (List.mem_range.mpr hj)
          exact List.mem_map.mp this
        obtain ⟨x, hx, hx0⟩ := hmem 0 (by omega)
        have hfirst : first.value < n := by
          rw [← TarotContext.seatAfter_zero first n, ← hx0]
          exact h.valid x hx
        obtain ⟨j, hj, hji⟩ := TarotContext.exists_seatAfter hn5 hfirst hi
        obtain ⟨y, hy, hyj⟩ := hmem j hj
        exact ⟨y, hy, hyj ▸ hji⟩
      · exact Contract.eq_pass_of_le (h.named x hx) (hpass ▸ hmax.le hx)
    · rcases hfull with hf | hf
      · exact .inl hf
      · exact .inr ⟨hb.2.2.symm.trans hf, hslam hf⟩

end Engine

namespace PlayingTable

/-- The replies of a run. -/
def replies (t : PlayingTable) (cs : List Call) : List Announce :=
  (t.actions cs).filterMap Engine.Action.announce

theorem replies_named {t : PlayingTable} {cs : List Call} (hcs : ∀ d ∈ cs, d.NamesContract) :
    ∀ b ∈ t.replies cs, b.contract ≠ .noAny := by
  induction cs generalizing t with
  | nil => simp [replies, actions, labels]
  | cons d cs ih =>
    have hrest := ih (t := t.apply d) fun d' hd => hcs d' (List.mem_cons_of_mem d hd)
    intro b hb
    simp only [replies, actions, labels, List.filterMap_cons] at hb
    cases ha : t.action d with
    | bid c slam p =>
      rw [ha] at hb
      rcases List.mem_cons.mp hb with rfl | hb
      · exact (hcs d List.mem_cons_self).ne_noAny ha
      · exact hrest b hb
    | _ =>
      rw [ha] at hb
      exact hrest b hb

/-- The auction of a deal, between the call `c` that gives out the cards and its close, has come
to what its replies say, unless it began with a pass that carries the slam flag. -/
theorem auction_correct_iff {t : PlayingTable} (ht : t.Reachable) {n : ℕ}
    (hn : n = 3 ∨ n = 4 ∨ n = 5) (hplayers : t.nbPlayers = n) {c : Call}
    (hdeal : (t.action c).isNewDeal = true) {cs : List Call} (hcs : ∀ d ∈ cs, d.NamesContract)
    (hone : ∀ a ∈ (t.apply c).actions cs, a.isRestart = false)
    (hclosed : (run PlayingTable.apply (t.apply c) cs).mEngine.mSequence = .waitForAllPassed ∨
      (run PlayingTable.apply (t.apply c) cs).mEngine.mSequence.isPastAuction = true) :
    AuctionCorrect n ((t.apply c).replies cs) (run PlayingTable.apply (t.apply c) cs).mEngine ↔
      ¬ PassesWithSlam ((t.apply c).replies cs) := by
  have hn5 : n ≤ 5 := by omega
  have hopen := (ht.call t c).open
  obtain ⟨hguard, hrun⟩ := hopen.run_mEngine cs
  obtain ⟨deal, ha⟩ := Engine.Action.eq_newDeal hdeal
  have hstart : (t.apply c).mEngine.Bidding n (t.apply c).mEngine.mCurrentPlayer [] := by
    rw [apply_mEngine, ha]
    exact Engine.newDeal_bidding hplayers (by omega) deal
  have hend := hstart.run hn5 hguard hone (replies_named hcs)
  rw [List.nil_append, ← hrun] at hend
  exact hend.correct_iff (by omega) hn5 hclosed

theorem auction_correct_iff_three :
    let deal := createRandomDeal Deck.tarotDeck
    let t := run PlayingTable.apply (({} : PlayingTable).createTable 3 .south)
      ([.addPlayer 7, .addPlayer 8, .addPlayer 9] ++ everyone deal [7, 8, 9] .waitForPlayers ++
        everyone deal [7, 8] .waitForReady)
    let c : Call := .executeRequest deal 9 (PlayerContext.sync .waitForReady)
    let cs := everyone deal [7, 8, 9] .waitForCards ++
      .executeRequest deal 9 (PlayerContext.buildReplyBid .take true) ::
        everyone deal [7, 8, 9] .waitForShowBid
    AuctionCorrect 3 ((t.apply c).replies cs) (run PlayingTable.apply (t.apply c) cs).mEngine := by
  intro deal t c cs
  have hreplies : (t.apply c).replies cs = [⟨.take, true, .north⟩] := by decide +kernel
  refine (auction_correct_iff ((Reachable.create {} 3 .south (by decide)).run _) (.inl rfl)
    (by decide +kernel) (by decide +kernel) (by decide +kernel) (by decide +kernel)
    (.inr (by decide +kernel))).mpr ?_
  rw [hreplies]
  rintro ⟨b, rest, hb, hpass, -⟩
  cases hb
  cases hpass

/-- A pass that carries the slam flag closes the auction before the others have replied. -/
theorem allPassed_after_one_reply :
    let t := ({} : PlayingTable).createTable 3 .south
    let cs := biddingCalls (createRandomDeal Deck.tarotDeck)
      [(9, PlayerContext.buildReplyBid .pass true)]
    (run PlayingTable.apply t cs).mEngine.mSequence = .waitForAllPassed ∧
      ¬ AuctionCorrect 3 (t.replies cs) (run PlayingTable.apply t cs).mEngine := by
  intro t cs
  have hall : (run PlayingTable.apply t cs).mEngine.mSequence = .waitForAllPassed := by
    decide +kernel
  have hreplies : t.replies cs = [⟨.pass, true, .north⟩] := by decide +kernel
  refine ⟨hall, fun h => ?_⟩
  obtain ⟨b, hb, hplace⟩ := (h.allPassed hall).1 0 (by decide)
  rw [hreplies] at hb
  rw [List.mem_singleton.mp hb] at hplace
  cases hplace

end PlayingTable

end TarotClub
