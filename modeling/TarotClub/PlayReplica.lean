import TarotClub.DeckText
import TarotClub.TableNews

namespace TarotClub

/-- A deal is being played. -/
def Sequence.isRunning : Sequence → Bool
  | .badStep | .stopped | .waitForPlayers | .waitForReady | .waitForEndOfDeal => false
  | _ => true

/-- The steps in which there is a trick on the table. -/
def Sequence.hasTrick : Sequence → Bool
  | .waitForStartDeal | .waitForHandle | .waitForShowHandle | .waitForPlayedCard
  | .waitForShowCard | .waitForEndOfTrick => true
  | _ => false

/-- The step shows the dog to the players, or follows the one that did. -/
def Sequence.hasDog (seq : Sequence) : Bool := seq = .waitForShowDog || seq = .waitForDiscard

namespace Engine

variable {n : ℕ} {plays plays' : List (Card × Place)} {e e' : Engine} {a : Action} {p : Place}

/-- No card changes its place. -/
structure KeepsCards (e e' : Engine) : Prop where
  hands : e'.mPlayers = e.mPlayers
  dog : e'.mCtx.mDog = e.mCtx.mDog
  trick : e'.currentTrick = e.currentTrick

theorem KeepsCards.trans {e'' : Engine} (h : KeepsCards e e') (h' : KeepsCards e' e'') :
    KeepsCards e e'' :=
  ⟨h'.hands.trans h.hands, h'.dog.trans h.dog, h'.trick.trans h.trick⟩

/-- The actions that no card is moved by. -/
def Action.movesNoCard : Action → Bool
  | .newDeal _ | .discard _ | .gameSequence | .card _ _ => false
  | _ => true

theorem startIfReady_keepsCards (e : Engine) : KeepsCards e e.startIfReady := by
  unfold startIfReady
  split_ifs
  · exact ⟨rfl, rfl, rfl⟩
  · exact ⟨rfl, rfl, rfl⟩

theorem manageAfterBidSequence_keepsCards (e : Engine) :
    KeepsCards e e.manageAfterBidSequence := by
  have hdog : e.mCtx.manageDogAfterBid.2.mDog = e.mCtx.mDog := by
    unfold TarotContext.manageDogAfterBid
    split_ifs
    · rfl
    · rfl
    · rfl
  exact ⟨rfl, hdog, rfl⟩

theorem isEndOfTrick_keepsCards (e : Engine) : KeepsCards e e.isEndOfTrick.2 := by
  unfold isEndOfTrick
  split_ifs
  · exact ⟨rfl, rfl, rfl⟩
  · exact ⟨rfl, rfl, rfl⟩

theorem bidSequence_keepsCards (e : Engine) : KeepsCards e e.bidSequence := by
  have hend := isEndOfTrick_keepsCards e
  unfold bidSequence
  generalize e.isEndOfTrick = closed at hend ⊢
  dsimp only
  split_ifs
  · exact ⟨hend.hands, hend.dog, hend.trick⟩
  · exact ⟨hend.hands, hend.dog, hend.trick⟩
  · exact hend.trans (manageAfterBidSequence_keepsCards closed.2)
  · exact ⟨hend.hands, hend.dog, hend.trick⟩

theorem act_keepsCards (e : Engine) (ha : a.movesNoCard = true) : KeepsCards e (e.act a) := by
  cases a with
  | stay | newGame | discardSequence => exact ⟨rfl, rfl, rfl⟩
  | bid c slam p =>
    have hdog : (e.mCtx.setBid c slam p).2.mDog = e.mCtx.mDog := by
      unfold TarotContext.setBid
      split_ifs
      · rfl
      · rfl
    exact ⟨rfl, hdog, rfl⟩
  | bidSequence => exact (bidSequence_keepsCards e).trans (startIfReady_keepsCards _)
  | manageAfterBid =>
    exact (manageAfterBidSequence_keepsCards e).trans (startIfReady_keepsCards _)
  | kingCall c =>
    rw [act, setKingCalled]
    split_ifs
    · exact ⟨rfl, rfl, rfl⟩
    · exact ⟨rfl, rfl, rfl⟩
    · exact ⟨rfl, rfl, rfl⟩
  | handle cards p =>
    have hdog : (e.mCtx.setHandle cards p).mDog = e.mCtx.mDog := by
      unfold TarotContext.setHandle
      split_ifs
      · rfl
      · rfl
    rw [act, setHandle]
    split_ifs
    · exact ⟨rfl, hdog, rfl⟩
    · exact ⟨rfl, rfl, rfl⟩
  | _ => contradiction

/-- Behind the step of the game the trick is cleared, unless a player is asked for something. -/
theorem playOn_trick (e : Engine) :
    e.playOn.mPlayers = e.mPlayers ∧
      (e.playOn.mSequence = .waitForEndOfDeal ∨
        e.playOn.mSequence = .waitForEndOfTrick ∧ e.playOn.currentTrick.mDeck = [] ∨
        (e.playOn.mSequence = .waitForHandle ∨ e.playOn.mSequence = .waitForPlayedCard) ∧
          e.playOn.currentTrick = e.currentTrick) := by
  have hgame : e.gameSequence.mPlayers = e.mPlayers ∧
      (e.gameSequence.mSequence = .waitForEndOfTrick ∧ e.gameSequence.currentTrick.mDeck = [] ∨
        (e.gameSequence.mSequence = .waitForHandle ∨
            e.gameSequence.mSequence = .waitForPlayedCard) ∧
          e.gameSequence.currentTrick = e.currentTrick) := by
    unfold gameSequence
    have hend := isEndOfTrick_keepsCards e
    generalize e.isEndOfTrick = full at hend ⊢
    dsimp only
    split_ifs
    · exact ⟨hend.hands, .inl ⟨rfl, rfl⟩⟩
    · exact ⟨hend.hands, .inr ⟨.inl rfl, hend.trick⟩⟩
    · exact ⟨hend.hands, .inr ⟨.inr rfl, hend.trick⟩⟩
  unfold playOn
  split_ifs
  · exact ⟨hgame.1, .inl rfl⟩
  · exact ⟨hgame.1, .inr hgame.2⟩

/-- The steps that an action leads to. -/
def Action.leadsTo : Action → List Sequence
  | .stay => []
  | .newGame => [.waitForReady]
  | .newDeal _ => [.waitForCards]
  | .bid _ _ _ => [.waitForShowBid]
  | .bidSequence | .manageAfterBid => PlayingTable.afterAuction
  | .discardSequence => [.waitForDiscard]
  | .discard _ => [.waitForStartDeal]
  | .kingCall _ => [.waitForShowKingCall]
  | .handle _ _ => [.waitForShowHandle]
  | .gameSequence =>
    [.waitForEndOfDeal, .waitForEndOfTrick, .waitForHandle, .waitForPlayedCard]
  | .card _ _ => [.waitForShowCard]

theorem act_mem_leadsTo (ha : e.Enabled a) (hstay : a ≠ .stay) :
    (e.act a).mSequence ∈ a.leadsTo := by
  cases a with
  | stay => exact absurd rfl hstay
  | newGame => exact List.mem_singleton.mpr rfl
  | newDeal deal => exact List.mem_singleton.mpr rfl
  | bid c slam p => exact List.mem_singleton.mpr (setBid_mSequence e c slam p)
  | bidSequence =>
    rw [act, startIfReady_mSequence]
    exact PlayingTable.bidSequence_mSequence e
  | manageAfterBid =>
    rw [act, startIfReady_mSequence]
    exact PlayingTable.manageAfterBidSequence_mem e
  | discardSequence => exact List.mem_singleton.mpr rfl
  | discard cards =>
    rw [act, setDiscard, if_pos ha.2]
    exact List.mem_singleton.mpr rfl
  | kingCall c =>
    rw [act, setKingCalled, if_pos ha.2]
    exact List.mem_singleton.mpr rfl
  | handle cards p =>
    rw [act, setHandle, if_pos ha.2.2]
    exact List.mem_singleton.mpr rfl
  | gameSequence =>
    rw [act]
    rcases (playOn_trick e).2 with hs | ⟨hs, -⟩ | ⟨hs | hs, -⟩ <;> rw [hs] <;> decide
  | card c p =>
    rw [act, setCard, if_pos ha.2.2.2]
    exact List.mem_singleton.mpr rfl

theorem mDog_le_cards (h : e.mCtx.mDiscard.mDeck = []) : e.mCtx.mDog.cards ≤ e.cards := by
  unfold Engine.cards
  rw [aside_of_nil h]
  exact Multiset.le_add_left _ _

/-- Until the play begins there is no card on the table. -/
theorem Phase.currentTrick_of_opensPlay (h : e.Phase n plays) (ha : e.Enabled a)
    (hopens : a.opensPlay = true) : e.currentTrick.mDeck = [] := by
  unfold Phase at h
  cases a with
  | bidSequence =>
    rcases ha with hs | hs
    · simp only [hs] at h
      exact h.1.current
    · simp only [hs] at h
      exact h.1.current
  | manageAfterBid =>
    simp only [show e.mSequence = _ from ha] at h
    exact h.1.current
  | discard cards =>
    simp only [ha.1] at h
    exact h.1.current
  | _ => contradiction

/-- The step that the play is opened from is one of a deal. -/
theorem isRunning_of_opensPlay (ha : e.Enabled a) (hopens : a.opensPlay = true) :
    e.mSequence.isRunning = true := by
  cases a with
  | bidSequence =>
    rcases ha with hs | hs
    · rw [hs]
      rfl
    · rw [hs]
      rfl
  | manageAfterBid =>
    rw [show e.mSequence = _ from ha]
    rfl
  | discard cards =>
    rw [ha.1]
    rfl
  | _ => contradiction

/-- A hand that is not the one of the taker stays as it is when the play is opened. -/
theorem act_opensPlay (ha : e.Enabled a) (hopens : a.opensPlay = true)
    (hdiscard : ∀ cards, a = .discard cards → e.mCtx.mBid.taker ≠ p) :
    (e.act a).mPlayers p.value = e.mPlayers p.value ∧
      (e.act a).currentTrick = e.currentTrick := by
  cases a with
  | bidSequence =>
    have hkeep : KeepsCards e (e.act .bidSequence) := act_keepsCards e rfl
    exact ⟨congrFun hkeep.hands _, hkeep.trick⟩
  | manageAfterBid =>
    have hkeep : KeepsCards e (e.act .manageAfterBid) := act_keepsCards e rfl
    exact ⟨congrFun hkeep.hands _, hkeep.trick⟩
  | discard cards =>
    rw [act, setDiscard, if_pos ha.2]
    refine ⟨?_, rfl⟩
    have hne : p.value ≠ e.mCtx.mBid.taker.value :=
      fun he => hdiscard cards rfl (Place.value_inj.mp he).symm
    exact Function.update_of_ne hne _ _
  | _ => contradiction

end Engine

/-- What the player on a seat knows is what the engine has, in the steps in which it matters. -/
structure View.Follows (v : View) (e : Engine) (p : Place) : Prop where
  place : v.place = p
  hand : e.mSequence.isRunning = true → v.hand = (e.mPlayers p.value).mDeck
  dog : e.mSequence.hasDog = true → v.dog = e.mCtx.mDog.mDeck
  trick : e.mSequence.hasTrick = true → v.trick = e.currentTrick.mDeck

namespace View.Follows

variable {v : View} {e e' : Engine} {p : Place} {n : ℕ} {plays plays' : List (Card × Place)}
  {a : Engine.Action} {msgs : List JsonObject}

theorem keep (h : v.Follows e p) (hkeep : Engine.KeepsCards e e')
    (hrun : e'.mSequence.isRunning = true → e.mSequence.isRunning = true)
    (hdog : e'.mSequence.hasDog = true → e.mSequence.hasDog = true)
    (htrick : e'.mSequence.hasTrick = true → e.mSequence.hasTrick = true) : v.Follows e' p where
  place := h.place
  hand := fun hs => by rw [hkeep.hands]; exact h.hand (hrun hs)
  dog := fun hs => by rw [hkeep.dog]; exact h.dog (hdog hs)
  trick := fun hs => by rw [hkeep.trick]; exact h.trick (htrick hs)

/-- A step of the game that ends no trick leaves the cards where they are. -/
theorem gameSequence (h : v.Follows e p) (ha : e.Enabled .gameSequence)
    (hend : (e.act .gameSequence).mSequence ≠ .waitForEndOfTrick) :
    v.Follows (e.act .gameSequence) p := by
  have hsteps : e.mSequence.isRunning = true ∧ e.mSequence.hasTrick = true := by
    rcases ha with hs | hs | hs | hs | hs <;> rw [hs] <;> exact ⟨rfl, rfl⟩
  obtain ⟨hhands, hcases⟩ := Engine.playOn_trick e
  rw [Engine.act] at hend ⊢
  generalize e.playOn = e' at hend hhands hcases ⊢
  rcases hcases with hs | ⟨hs, -⟩ | ⟨hs, htrick⟩
  · refine ⟨h.place, ?_, ?_, ?_⟩ <;> rw [hs] <;> exact fun hfalse => absurd hfalse (by decide)
  · exact absurd hs hend
  · refine ⟨h.place, fun _ => ?_, fun hdog => ?_, fun _ => ?_⟩
    · rw [hhands]
      exact h.hand hsteps.1
    · rcases hs with hs | hs
      · rw [hs] at hdog
        contradiction
      · rw [hs] at hdog
        contradiction
    · rw [htrick]
      exact h.trick hsteps.2

theorem discardSequence (h : v.Follows e p) (ha : e.Enabled .discardSequence) :
    v.Follows (e.act .discardSequence) p := by
  have hs : e.mSequence = .waitForShowDog := ha
  have hs' : (e.act .discardSequence).mSequence = .waitForDiscard := rfl
  refine h.keep (Engine.act_keepsCards e rfl) ?_ ?_ ?_ <;> rw [hs, hs'] <;> decide

/-- Nothing is told of an action behind which the player follows as before. -/
theorem idle (h : v.Follows e p) (ha : e.Enabled a)
    (hidle : a.tellsNothing (e.act a).mSequence = true) : v.Follows (e.act a) p := by
  have hkeep : a.movesNoCard = true → Engine.KeepsCards e (e.act a) := Engine.act_keepsCards e
  have hseq : a ≠ .stay → (e.act a).mSequence ∈ a.leadsTo := Engine.act_mem_leadsTo ha
  cases a with
  | newGame =>
    have hs := List.mem_singleton.mp (hseq Engine.Action.noConfusion)
    refine h.keep (hkeep rfl) ?_ ?_ ?_ <;> rw [hs] <;> exact fun hfalse => absurd hfalse (by decide)
  | bid c slam q =>
    have hs := List.mem_singleton.mp (hseq Engine.Action.noConfusion)
    refine h.keep (hkeep rfl) ?_ ?_ ?_ <;> rw [hs, ha.1] <;> decide
  | kingCall c =>
    have hs := List.mem_singleton.mp (hseq Engine.Action.noConfusion)
    refine h.keep (hkeep rfl) ?_ ?_ ?_ <;> rw [hs, ha.1] <;> decide
  | handle cards q =>
    have hs := List.mem_singleton.mp (hseq Engine.Action.noConfusion)
    refine h.keep (hkeep rfl) ?_ ?_ ?_ <;> rw [hs, ha.1] <;> decide
  | bidSequence | manageAfterBid =>
    have hrunning := Engine.isRunning_of_opensPlay ha rfl
    simp only [Engine.Action.tellsNothing, Bool.or_eq_true, decide_eq_true_eq] at hidle
    refine h.keep (hkeep rfl) (fun _ => hrunning) ?_ ?_ <;> rcases hidle with (hs | hs) | hs <;>
      rw [hs] <;> exact fun hfalse => absurd hfalse (by decide)
  | gameSequence =>
    refine h.gameSequence ha fun hs => ?_
    rw [hs] at hidle
    contradiction
  | _ => contradiction

/-! What each message adds to what the player knows. -/

section

variable {m : JsonObject}

/-- A hand of the deal is made of valid cards, so its text is read back. -/
theorem newDeal {deal : Deal} (hn : n = 3 ∨ n = 4 ∨ n = 5) (h : v.Follows e p) (hp : p.value < n)
    (hphase : (e.act (.newDeal deal)).Phase n plays) (ha : e.Enabled (.newDeal deal))
    (hcmd : cmdOf m = str "NewDeal")
    (hcards : textAt m "cards" = ((e.act (.newDeal deal)).getDeck p).toString) :
    (v.look m).Follows (e.act (.newDeal deal)) p := by
  have hs := List.mem_singleton.mp (Engine.act_mem_leadsTo ha Engine.Action.noConfusion)
  have hvalid : ∀ c ∈ ((e.act (.newDeal deal)).mPlayers p.value).mDeck, c.isValid = true := by
    refine Engine.valid_of_le_cards (hphase.cards_eq (.inl hs)) (Engine.hand_le_cards _ ?_)
    rw [hphase.players]
    exact hp
  have hdeck : (e.act (.newDeal deal)).getDeck p = (e.act (.newDeal deal)).mPlayers p.value :=
    if_pos (hp.trans_le (by rcases hn with rfl | rfl | rfl <;> decide))
  rw [v.look_newDeal hcmd, hcards, hdeck, Deck.ofString_toString hvalid]
  refine ⟨h.place, fun _ => rfl, ?_, ?_⟩ <;> rw [hs] <;>
    exact fun hfalse => absurd hfalse (by decide)

/-- The dog is turned over before anybody has put anything aside. -/
theorem showDog (h : v.Follows e p) (hphase : e'.Phase n plays)
    (hrunning : e.mSequence.isRunning = true)
    (hhand : e'.mPlayers p.value = e.mPlayers p.value) (hs : e'.mSequence = .waitForShowDog)
    (hcmd : cmdOf m = str "ShowDog") (hdog : textAt m "dog" = e'.mCtx.mDog.toString) :
    (v.look m).Follows e' p := by
  have hbefore : e'.BeforeDiscard n ∧ plays = [] := by
    simpa only [Engine.Phase, hs] using hphase
  have hvalid : ∀ c ∈ e'.mCtx.mDog.mDeck, c.isValid = true :=
    Engine.valid_of_le_cards hbefore.1.cards (Engine.mDog_le_cards hbefore.1.discard)
  rw [v.look_showDog hcmd, hdog, Deck.ofString_toString hvalid]
  refine ⟨h.place, fun _ => ?_, fun _ => rfl, fun htrick => ?_⟩
  · rw [hhand]
    exact h.hand hrunning
  · rw [hs] at htrick
    contradiction

theorem startDeal (h : v.Follows e p) (hrunning : e.mSequence.isRunning = true)
    (hhand : e'.mPlayers p.value = e.mPlayers p.value) (hempty : e'.currentTrick.mDeck = [])
    (hs : e'.mSequence = .waitForStartDeal) (hcmd : cmdOf m = str "StartDeal") :
    (v.look m).Follows e' p := by
  rw [v.look_startDeal hcmd]
  refine ⟨h.place, fun _ => ?_, fun hdog => ?_, fun _ => hempty.symm⟩
  · rw [hhand]
    exact h.hand hrunning
  · rw [hs] at hdog
    contradiction

/-- The card leaves another hand than the player's own. -/
theorem showCard (h : v.Follows e p) {c : Card} {q : Place} (ha : e.Enabled (.card c q))
    (hne : p.value ≠ q.value) (hcmd : cmdOf m = str "ShowCard")
    (htext : textAt m "card" = c.toString) : (v.look m).Follows (e.act (.card c q)) p := by
  have hs : e.mSequence = .waitForPlayedCard := ha.1
  rw [v.look_showCard hcmd, htext, Card.ofString_toString ha.2.2.1, Engine.act, Engine.setCard,
    if_pos ha.2.2.2]
  refine ⟨h.place, fun _ => ?_, fun hdog => ?_, fun _ => ?_⟩
  · refine (h.hand (by rw [hs]; rfl)).trans ?_
    exact congrArg Deck.mDeck (Function.update_of_ne hne _ _).symm
  · contradiction
  · exact congrArg (· ++ [c]) (h.trick (by rw [hs]; rfl))

/-- Table and player both clear the trick. -/
theorem endOfTrick (h : v.Follows e p) (ha : e.Enabled .gameSequence)
    (hs : (e.act .gameSequence).mSequence = .waitForEndOfTrick)
    (hcmd : cmdOf m = str "EndOfTrick") : (v.look m).Follows (e.act .gameSequence) p := by
  have hrunning : e.mSequence.isRunning = true := by
    rcases ha with hs | hs | hs | hs | hs <;> rw [hs] <;> rfl
  obtain ⟨hhands, hcases⟩ := Engine.playOn_trick e
  rw [v.look_endOfTrick hcmd]
  rw [Engine.act] at hs ⊢
  refine ⟨h.place, fun _ => ?_, fun hdog => ?_, fun _ => ?_⟩
  · rw [hhands]
    exact h.hand hrunning
  · rw [hs] at hdog
    contradiction
  · rcases hcases with hs' | ⟨-, hempty⟩ | ⟨hs' | hs', -⟩
    · rw [hs] at hs'
      contradiction
    · exact hempty.symm
    · rw [hs] at hs'
      contradiction
    · rw [hs] at hs'
      contradiction

end

/-- A player who has been told the news follows the play, unless it is the player's own card or
discard that has been accepted. -/
theorem act (hn : n = 3 ∨ n = 4 ∨ n = 5) (h : v.Follows e p) (hp : p.value < n)
    (hphase : e.Phase n plays) (hphase' : (e.act a).Phase n plays') (ha : e.Enabled a)
    (hcard : ∀ c, a ≠ .card c p) (hdiscard : ∀ cards, a = .discard cards → e.mCtx.mBid.taker ≠ p)
    (hnews : News (e.act a) p a msgs) : (v.after msgs).Follows (e.act a) p := by
  cases hnews with
  | stay => exact h
  | absent hnone _ =>
    rw [hnone] at hp
    exact absurd hp (by rcases hn with rfl | rfl | rfl <;> decide)
  | idle hidle hmsgs =>
    rw [v.after_of_idle hmsgs]
    exact h.idle ha hidle
  | newDeal hcmd hcards => exact h.newDeal hn hp hphase' ha hcmd hcards
  | showDog hopens _ hs hcmd hdog =>
    obtain ⟨hhand, -⟩ := Engine.act_opensPlay (p := p) ha hopens hdiscard
    exact h.showDog hphase' (Engine.isRunning_of_opensPlay ha hopens) hhand hs hcmd hdog
  | @buildDiscard m _ _ hcmd =>
    change (v.look m).Follows _ p
    rw [View.look_of_asks (by rw [hcmd]; decide) v]
    exact h.discardSequence ha
  | otherTaker _ => exact h.discardSequence ha
  | startDeal hopens hs hcmd =>
    have hempty := hphase.currentTrick_of_opensPlay ha hopens
    obtain ⟨hhand, htrick⟩ := Engine.act_opensPlay (p := p) ha hopens hdiscard
    rw [← htrick] at hempty
    exact h.startDeal (Engine.isRunning_of_opensPlay ha hopens) hhand hempty hs hcmd
  | @showCard c q m hcmd htext =>
    have hne : p.value ≠ q.value := fun he => hcard c (by rw [Place.value_inj.mp he])
    exact h.showCard ha hne hcmd htext
  | endOfTrick hs hcmd => exact h.endOfTrick ha hs hcmd
  | @playCard m _ hs hcmd _ =>
    change (v.look m).Follows _ p
    rw [View.look_of_asks (by rw [hcmd]; decide) v]
    refine h.gameSequence ha ?_
    rw [hs]
    exact Sequence.noConfusion

end View.Follows

/-- The engine waits for a card or for the discard of the player on this seat. -/
def Engine.Owes (e : Engine) (p : Place) : Prop :=
  e.mSequence = .waitForPlayedCard ∧ e.mCurrentPlayer = p ∨
    e.mSequence = .waitForDiscard ∧ e.mCtx.mBid.taker = p

/-- The message asks the player on the seat for what the engine waits for. -/
inductive Requests (e : Engine) (p : Place) (m : JsonObject) : Prop
  | card : e.mSequence = .waitForPlayedCard → e.mCurrentPlayer = p →
    cmdOf m = str "PlayCard" → Place.ofString (textAt m "place") = p → Requests e p m
  | discard : e.mSequence = .waitForDiscard → e.mCtx.mBid.taker = p →
    cmdOf m = str "BuildDiscard" → Requests e p m

theorem Requests.owes {e : Engine} {p : Place} {m : JsonObject} (h : Requests e p m) :
    e.Owes p := by
  cases h with
  | card hs hturn _ _ => exact .inl ⟨hs, hturn⟩
  | discard hs htaker _ => exact .inr ⟨hs, htaker⟩

theorem Engine.not_owes {e : Engine} {p : Place} (hcard : e.mSequence ≠ .waitForPlayedCard)
    (hdiscard : e.mSequence ≠ .waitForDiscard) : ¬ e.Owes p := by
  rintro (⟨hs, -⟩ | ⟨hs, -⟩)
  · exact hcard hs
  · exact hdiscard hs

/-- Nobody owes anything outside a deal. -/
theorem Engine.isRunning_of_owes {e : Engine} {p : Place} (h : e.Owes p) :
    e.mSequence.isRunning = true := by
  rcases h with ⟨hs, -⟩ | ⟨hs, -⟩
  · rw [hs]
    rfl
  · rw [hs]
    rfl

theorem Engine.Action.waits_of_tellsNothing {a : Engine.Action} {seq : Sequence}
    (hidle : a.tellsNothing seq = true) (hseq : seq ∈ a.leadsTo) :
    seq ≠ .waitForPlayedCard ∧ seq ≠ .waitForDiscard := by
  cases a with
  | newGame | bid _ _ _ | kingCall _ | handle _ _ =>
    rw [List.mem_singleton.mp hseq]
    decide
  | bidSequence | manageAfterBid | gameSequence =>
    constructor
    · rintro rfl
      contradiction
    · rintro rfl
      contradiction
  | _ => contradiction

/-- One message that asks nobody. -/
theorem quiet_singleton {v : View} {m : JsonObject} {cmd : Str} (hcmd : cmdOf m = cmd)
    (hasks : cmd ≠ str "BuildDiscard" ∧ cmd ≠ str "PlayCard") : Quiet v [m] := by
  refine ⟨not_asks_of_ne ?_ ?_ v.place, trivial⟩
  · rw [hcmd]
    exact hasks.1
  · rw [hcmd]
    exact hasks.2

namespace News

variable {e : Engine} {p : Place} {a : Engine.Action} {msgs : List JsonObject}

/-- The news ask the player for what the engine waits for then, or for nothing. -/
theorem asks (ha : e.Enabled a) (hstay : a ≠ .stay) (hp : p ≠ .nowhere)
    (hnews : News (e.act a) p a msgs) :
    ¬ (e.act a).Owes p ∧ (∀ v : View, v.place = p → Quiet v msgs) ∨
      ∃ m, msgs = [m] ∧ Requests (e.act a) p m := by
  have hseq := Engine.act_mem_leadsTo ha hstay
  cases hnews with
  | stay => exact absurd rfl hstay
  | absent hnone _ => exact absurd hnone hp
  | idle hidle hmsgs =>
    obtain ⟨hcard, hdiscard⟩ := Engine.Action.waits_of_tellsNothing hidle hseq
    exact .inl ⟨Engine.not_owes hcard hdiscard, fun v _ => quiet_of_idle hmsgs v⟩
  | newDeal hcmd _ =>
    refine .inl ⟨Engine.not_owes ?_ ?_, fun v _ => quiet_singleton hcmd (by decide)⟩ <;>
      rw [List.mem_singleton.mp hseq] <;> decide
  | showDog _ _ hs hcmd _ =>
    refine .inl ⟨Engine.not_owes ?_ ?_, fun v _ => quiet_singleton hcmd (by decide)⟩ <;>
      rw [hs] <;> decide
  | buildDiscard _ htaker hcmd => exact .inr ⟨_, rfl, .discard rfl htaker hcmd⟩
  | otherTaker htaker =>
    refine .inl ⟨?_, fun _ _ => trivial⟩
    rintro (⟨hs, -⟩ | ⟨-, hmine⟩)
    · rw [List.mem_singleton.mp hseq] at hs
      contradiction
    · exact htaker hmine
  | startDeal _ hs hcmd =>
    refine .inl ⟨Engine.not_owes ?_ ?_, fun v _ => quiet_singleton hcmd (by decide)⟩ <;>
      rw [hs] <;> decide
  | showCard hcmd _ =>
    refine .inl ⟨Engine.not_owes ?_ ?_, fun v _ => quiet_singleton hcmd (by decide)⟩ <;>
      rw [List.mem_singleton.mp hseq] <;> decide
  | endOfTrick hs hcmd =>
    refine .inl ⟨Engine.not_owes ?_ ?_, fun v _ => quiet_singleton hcmd (by decide)⟩ <;>
      rw [hs] <;> decide
  | @playCard m _ hs hcmd hplace =>
    have hread : Place.ofString (textAt m "place") = (e.act .gameSequence).mCurrentPlayer := by
      rw [hplace, Place.ofString_toString]
    by_cases hturn : (e.act .gameSequence).mCurrentPlayer = p
    · exact .inr ⟨m, rfl, .card hs hturn hcmd (hread.trans hturn)⟩
    · refine .inl ⟨?_, fun v hv => ⟨?_, trivial⟩⟩
      · rintro (⟨-, hmine⟩ | ⟨hs', -⟩)
        · exact hturn hmine
        · rw [hs] at hs'
          contradiction
      · rintro (hcmd' | ⟨-, hmine⟩)
        · rw [hcmd] at hcmd'
          exact absurd hcmd' (by decide)
        · exact hturn (hread.symm.trans (hmine.trans hv))

/-- Who has no seat is asked for nothing. -/
theorem quiet_away (hnews : News e .nowhere a msgs) (v : View) : Quiet v msgs := by
  cases hnews with
  | stay | otherTaker _ => trivial
  | absent _ hmsgs => exact quiet_of_idle hmsgs v
  | idle _ hmsgs => exact quiet_of_idle hmsgs v
  | newDeal hcmd _ => exact quiet_singleton hcmd (by decide)
  | showDog _ _ _ hcmd _ => exact quiet_singleton hcmd (by decide)
  | buildDiscard hne _ _ => exact absurd rfl hne
  | startDeal _ _ hcmd => exact quiet_singleton hcmd (by decide)
  | showCard hcmd _ => exact quiet_singleton hcmd (by decide)
  | endOfTrick _ hcmd => exact quiet_singleton hcmd (by decide)
  | playCard hne _ _ _ => exact absurd rfl hne

end News

end TarotClub
