import TarotClub.Autoplay
import TarotClub.DealTotals

namespace TarotClub

open Machine

namespace Engine

variable {n : ℕ} {e : Engine} {shown : List (Deck × Place)}

/-- The recorder of the handles accepted in a deal, with those who show them. -/
def noteHandle (_e : Engine) (a : Action) (shown : List (Deck × Place)) : List (Deck × Place) :=
  match a with
  | .handle cards p => shown ++ [(cards, p)]
  | .newDeal _ => []
  | _ => shown

/-- The handles of one side. -/
def side (bid : Bid) (attack : Bool) (shown : List (Deck × Place)) : List (Deck × Place) :=
  shown.filter fun h => bid.isAttack h.2 = attack

theorem side_append (bid : Bid) (attack : Bool) (shown : List (Deck × Place)) (h : Deck × Place) :
    side bid attack (shown ++ [h]) =
      if bid.isAttack h.2 = attack then side bid attack shown ++ [h]
      else side bid attack shown := by
  rw [side, List.filter_append, List.filter_singleton]
  by_cases hside : bid.isAttack h.2 = attack <;> simp [side, hside]

/-- The bonus that the rules give for a handle. -/
def bonus (n : ℕ) (h : Deck × Place) : ℤ := getHandlePoints n (getHandleType h.1.size)

/-- What the last of the handles is worth. -/
def lastBonus (n : ℕ) (shown : List (Deck × Place)) : ℤ := (shown.getLast?.map (bonus n)).getD 0

theorem lastBonus_append (n : ℕ) (shown : List (Deck × Place)) (h : Deck × Place) :
    lastBonus n (shown ++ [h]) = bonus n h := by
  simp [lastBonus]

/-- A handle of the right size is worth something. -/
theorem bonus_pos (hn : n = 3 ∨ n = 4 ∨ n = 5) {h : Deck × Place}
    (hsize : getHandleType h.1.size ≠ .noHandle) : 0 < bonus n h := by
  unfold bonus
  cases htype : getHandleType h.1.size with
  | noHandle => exact absurd htype hsize
  | simpleHandle | doubleHandle | tripleHandle => rcases hn with rfl | rfl | rfl <;> decide

/-- The last handle of a side is worth as much as all of them where it is the only one. -/
theorem lastBonus_spec (hn : n = 3 ∨ n = 4 ∨ n = 5)
    (hsizes : ∀ h ∈ shown, getHandleType h.1.size ≠ .noHandle) :
    lastBonus n shown ≤ (shown.map (bonus n)).sum ∧
      (lastBonus n shown = (shown.map (bonus n)).sum ↔ shown.length ≤ 1) := by
  obtain rfl | ⟨earlier, last, rfl⟩ := shown.eq_nil_or_concat'
  · exact ⟨le_rfl, by simp [lastBonus]⟩
  · have hpos : ∀ h ∈ earlier, 0 < bonus n h := fun h hmem =>
      bonus_pos hn (hsizes h (List.mem_append_left _ hmem))
    rw [lastBonus_append, List.map_append, List.sum_append, List.map_singleton,
      List.sum_singleton, List.length_append, List.length_singleton]
    cases earlier with
    | nil => simp
    | cons first rest =>
      have hfirst := hpos first List.mem_cons_self
      have hrest : 0 ≤ (rest.map (bonus n)).sum :=
        List.sum_nonneg fun x hx => by
          obtain ⟨h, hmem, rfl⟩ := List.mem_map.mp hx
          exact (hpos h (List.mem_cons_of_mem first hmem)).le
      rw [List.map_cons, List.sum_cons, List.length_cons]
      omega

/-- Handles can have been shown in this step: the bid is settled. -/
def isShowing (e : Engine) : Bool :=
  match e.mSequence with
  | .waitForReady | .waitForHandle | .waitForShowHandle | .waitForPlayedCard | .waitForShowCard
  | .waitForEndOfTrick | .waitForEndOfDeal => true
  | _ => false

/-- Each slot holds the last handle of its side. -/
structure Slots (e : Engine) (n : ℕ) (shown : List (Deck × Place)) : Prop where
  players : e.mCtx.mNbPlayers = n
  attack : getHandlePoints n (getHandleType e.mCtx.mAttackHandle.size) =
    lastBonus n (side e.mCtx.mBid true shown)
  defense : getHandlePoints n (getHandleType e.mCtx.mDefenseHandle.size) =
    lastBonus n (side e.mCtx.mBid false shown)
  sizes : ∀ h ∈ shown, getHandleType h.1.size ≠ .noHandle
  showing : shown ≠ [] → e.isShowing = true

/-- Behind the auction the game goes on with the bid it has. -/
theorem act_isShowing {a : Action} (hs : e.isShowing = true) (ha : e.Enabled a)
    (hdeal : a.isNewDeal = false) :
    (e.act a).mCtx.mBid = e.mCtx.mBid ∧ (e.act a).isShowing = true := by
  unfold isShowing at hs
  cases a with
  | stay => exact ⟨rfl, hs⟩
  | newGame => exact ⟨rfl, rfl⟩
  | newDeal deal => cases hdeal
  | bid c slam p | discard cards | kingCall c => rw [ha.1] at hs; cases hs
  | manageAfterBid | discardSequence => rw [ha] at hs; cases hs
  | bidSequence => rcases ha with hseq | hseq <;> rw [hseq] at hs <;> cases hs
  | handle cards p =>
    rw [act, setHandle, if_pos ha.2.2, TarotContext.setHandle]
    refine ⟨?_, rfl⟩
    dsimp only
    split_ifs
    · rfl
    · rfl
  | gameSequence =>
    refine ⟨playOn_mBid e, ?_⟩
    rw [act, playOn]
    split_ifs
    · rfl
    · unfold isShowing
      rcases gameSequence_mSequence e with hseq | hseq | hseq <;> rw [hseq]
  | card c p =>
    rw [act, setCard, if_pos ha.2.2.2]
    exact ⟨rfl, rfl⟩

/-- The slot that a handle is written into. -/
theorem setHandle_eq (ctx : TarotContext) (handle : Deck) (p : Place) :
    ctx.setHandle handle p = if ctx.mBid.isAttack p then { ctx with mAttackHandle := handle }
      else { ctx with mDefenseHandle := handle } := by
  simp [TarotContext.setHandle, Bid.isAttack]

theorem setTrick_handles (ctx : TarotContext) (trick : Deck) (trickCounter : ℕ) :
    (ctx.setTrick trick trickCounter).2.mAttackHandle = ctx.mAttackHandle ∧
      (ctx.setTrick trick trickCounter).2.mDefenseHandle = ctx.mDefenseHandle := by
  simp only [TarotContext.setTrick, TarotContext.creditTrick]
  split_ifs <;> exact ⟨rfl, rfl⟩

theorem playOn_handles (e : Engine) :
    e.playOn.mCtx.mAttackHandle = e.mCtx.mAttackHandle ∧
      e.playOn.mCtx.mDefenseHandle = e.mCtx.mDefenseHandle := by
  have hgame : e.gameSequence.mCtx.mAttackHandle = e.mCtx.mAttackHandle ∧
      e.gameSequence.mCtx.mDefenseHandle = e.mCtx.mDefenseHandle := by
    simp only [gameSequence, isEndOfTrick]
    split_ifs <;> simp [setTrick_handles]
  unfold playOn
  split_ifs
  · exact hgame
  · exact hgame

namespace Slots

theorem newDeal (e : Engine) (deal : Deal) (hplayers : e.mCtx.mNbPlayers = n) :
    (e.newDeal deal).Slots n [] := by
  have hattack : (e.newDeal deal).mCtx.mAttackHandle.size = 0 := by
    unfold Engine.newDeal createDeal
    cases deal.mFirstPlayer <;> rfl
  have hdefense : (e.newDeal deal).mCtx.mDefenseHandle.size = 0 := by
    unfold Engine.newDeal createDeal
    cases deal.mFirstPlayer <;> rfl
  have hzero : getHandlePoints n (getHandleType 0) = 0 := by
    rw [show getHandleType 0 = .noHandle from rfl, getHandlePoints]
    split_ifs
    · rfl
    · rfl
    · rfl
    · rfl
  refine ⟨?_, ?_, ?_, by simp, fun h => absurd rfl h⟩
  · rw [newDeal_mNbPlayers]
    exact hplayers
  · rw [hattack, hzero]
    rfl
  · rw [hdefense, hzero]
    rfl

/-- A handle is written into the slot of its side. -/
theorem handle (h : e.Slots n shown) {cards : Deck} {p : Place}
    (ha : e.Enabled (.handle cards p)) :
    (e.act (.handle cards p)).Slots n (shown ++ [(cards, p)]) := by
  have hstart : e.isShowing = true := by rw [isShowing, ha.1]
  obtain ⟨hbid, hshowing⟩ := act_isShowing hstart ha rfl
  have hctx : (e.act (.handle cards p)).mCtx = e.mCtx.setHandle cards p := by
    rw [act, Engine.setHandle, if_pos ha.2.2]
  have hsize : getHandleType cards.size ≠ .noHandle := by
    have htest := ha.2.2
    simp only [Deck.testHandle, Bool.and_eq_true, decide_eq_true_eq] at htest
    exact htest.1.1.1
  refine ⟨(act_mNbPlayers e _).trans h.players, ?_, ?_, ?_, fun _ => hshowing⟩
  · rw [hbid, hctx, setHandle_eq, side_append]
    by_cases hside : e.mCtx.mBid.isAttack p = true
    · rw [if_pos hside, if_pos hside, lastBonus_append]
      rfl
    · rw [if_neg hside, if_neg hside]
      exact h.attack
  · rw [hbid, hctx, setHandle_eq, side_append]
    by_cases hside : e.mCtx.mBid.isAttack p = true
    · rw [if_pos hside, if_neg (by simpa using hside)]
      exact h.defense
    · rw [if_neg hside, if_pos (by simpa using hside), lastBonus_append]
      rfl
  · intro h' hmem
    rcases List.mem_append.mp hmem with hmem | hmem
    · exact h.sizes h' hmem
    · rw [List.mem_singleton.mp hmem]
      exact hsize

/-- Whatever else happens leaves the slots alone. -/
theorem other (h : e.Slots n shown) {a : Action} (ha : e.Enabled a) (hdeal : a.isNewDeal = false)
    (hhandle : ∀ cards p, a ≠ .handle cards p) : (e.act a).Slots n shown := by
  have hslots : (e.act a).mCtx.mAttackHandle = e.mCtx.mAttackHandle ∧
      (e.act a).mCtx.mDefenseHandle = e.mCtx.mDefenseHandle := by
    by_cases hgame : a = .gameSequence
    · rw [hgame]
      exact playOn_handles e
    · have hsame := act_sameCounts e hdeal hgame hhandle
      exact ⟨hsame.attackHandle, hsame.defenseHandle⟩
  have hplayers := (act_mNbPlayers e a).trans h.players
  by_cases hnil : shown = []
  · subst hnil
    exact ⟨hplayers, by rw [hslots.1]; exact h.attack, by rw [hslots.2]; exact h.defense,
      h.sizes, fun hne => absurd rfl hne⟩
  · obtain ⟨hbid, hshowing⟩ := act_isShowing (h.showing hnil) ha hdeal
    refine ⟨hplayers, ?_, ?_, h.sizes, fun _ => hshowing⟩
    · rw [hslots.1, hbid]
      exact h.attack
    · rw [hslots.2, hbid]
      exact h.defense

/-- What is true of the slots in one step of the engine is true in the next. -/
theorem act (h : e.Slots n shown) {a : Action} (ha : e.Enabled a) :
    (e.act a).Slots n (noteHandle e a shown) := by
  cases a with
  | newDeal deal => exact newDeal e deal h.players
  | handle cards p => exact h.handle ha
  | _ => exact h.other ha rfl (by simp)

end Slots

theorem sum_side (bid : Bid) (n : ℕ) (shown : List (Deck × Place)) :
    ((side bid true shown).map (bonus n)).sum + ((side bid false shown).map (bonus n)).sum =
      (shown.map (bonus n)).sum := by
  induction shown using List.reverseRecOn with
  | nil => rfl
  | append_singleton shown h ih =>
    rw [side_append, side_append, List.map_append, List.sum_append, ← ih]
    cases bid.isAttack h.2 <;> simp <;> ring

/-- The bonus of a deal is the sum of the bonuses of all the handles that have been accepted in it
exactly when neither side has shown two. -/
theorem handle_bonus (hn : n = 3 ∨ n = 4 ∨ n = 5) (hplayers : e.mCtx.mNbPlayers = n) (deal : Deal)
    {as : List Action} (hsteps : Guarded Engine.act Enabled (e.newDeal deal) as)
    (points : Points) :
    let r := run (observe Engine.act noteHandle) (e.newDeal deal, []) as
    let bid := r.1.mCtx.mBid
    (r.1.mCtx.analyzeGame points.clear).1.handlePoints =
        (r.2.map fun h => getHandlePoints n (getHandleType h.1.size)).sum ↔
      (side bid true r.2).length ≤ 1 ∧ (side bid false r.2).length ≤ 1 := by
  intro r bid
  have hslots : r.1.Slots n r.2 :=
    (guarded_observe noteHandle (p := (e.newDeal deal, [])) hsteps).invariant
      (fun q : Engine × List (Deck × Place) => q.1.Slots n q.2)
      (fun q a h ha => h.act ha) (Slots.newDeal e deal hplayers)
  have hside : ∀ attack, ∀ h ∈ side bid attack r.2, getHandleType h.1.size ≠ .noHandle :=
    fun attack h hmem => hslots.sizes h (List.mem_of_mem_filter hmem)
  obtain ⟨hle, hiff⟩ := lastBonus_spec hn (hside true)
  obtain ⟨hle', hiff'⟩ := lastBonus_spec hn (hside false)
  have hsum := sum_side bid n r.2
  have hbonus : (r.1.mCtx.analyzeGame points.clear).1.handlePoints =
      lastBonus n (side bid true r.2) + lastBonus n (side bid false r.2) := by
    rw [← hslots.attack, ← hslots.defense, ← hslots.players]
    exact congrArg (· + _) (Int.zero_add _)
  -- two bounds that add up to an equality are equalities
  rw [hbonus, ← hiff, ← hiff']
  change _ = (r.2.map (bonus n)).sum ↔ _
  rw [← hsum]
  omega

/-- Two of three hands of this deck hold ten trumps each. -/
def tenTrumpsTwice : Deck where
  mDeck :=
    (List.range 10).map (⟨· + 1, Card.trumps⟩) ++ (List.range 14).map (⟨· + 1, Card.spades⟩) ++
      ((List.range 10).map (⟨· + 11, Card.trumps⟩) ++
        (List.range 14).map (⟨· + 1, Card.hearts⟩)) ++
      ((List.range 14).map (⟨· + 1, Card.diamonds⟩) ++
        (List.range 14).map (⟨· + 1, Card.clubs⟩)) ++
      [⟨0, Card.trumps⟩, ⟨21, Card.trumps⟩]

/-- The first ten trumps of a hand, where they are a handle. -/
def tenTrumps (hand : Deck) : Option Deck :=
  let handle : Deck := { mDeck := (hand.mDeck.filter fun c => c.mSuit = Card.trumps).take 10 }
  if hand.testHandle handle then some handle else none

/-- The first one to bid takes without the dog and the others pass; everybody shows the handle he
has, and plays the first card that the rules allow. -/
def nextActions (e : Engine) : List Action :=
  let p := e.mCurrentPlayer
  let hand := e.mPlayers p.value
  match e.mSequence with
  | .waitForCards | .waitForShowBid => [.bidSequence]
  | .waitForBid =>
    if p.value < e.mCtx.mNbPlayers then
      [.bid (if e.mPosition = 0 then .guardWithout else .pass) false p]
    else []
  | .waitForHandle =>
    match tenTrumps hand with
    | some handle => [.handle handle p]
    | none => [.gameSequence]
  | .waitForPlayedCard =>
    match hand.mDeck.find? fun c => c.isValid && hand.canPlayCard c e.currentTrick with
    | some c => [.card c p]
    | none => []
  | .waitForStartDeal | .waitForShowHandle | .waitForShowCard | .waitForEndOfTrick =>
    [.gameSequence]
  | _ => []

theorem nextActions_enabled (e : Engine) : Guarded Engine.act Enabled e (nextActions e) := by
  have hone : ∀ a, e.Enabled a → Guarded Engine.act Enabled e [a] := fun a ha => ⟨ha, trivial⟩
  unfold nextActions
  cases hseq : e.mSequence
  case waitForCards => exact hone _ (.inl hseq)
  case waitForShowBid => exact hone _ (.inr hseq)
  case waitForBid =>
    dsimp only
    by_cases hlt : e.mCurrentPlayer.value < e.mCtx.mNbPlayers
    · rw [if_pos hlt]
      exact hone _ ⟨hseq, rfl, hlt⟩
    · rw [if_neg hlt]
      trivial
  case waitForHandle =>
    dsimp only
    split
    · rename_i handle hfound
      unfold tenTrumps at hfound
      dsimp only at hfound
      split_ifs at hfound with htest
      exact hone _ ⟨hseq, rfl, Option.some.inj hfound ▸ htest⟩
    · exact hone _ (.inr (.inl hseq))
  case waitForPlayedCard =>
    dsimp only
    split
    · rename_i c hfound
      have hc := List.find?_some hfound
      rw [Bool.and_eq_true] at hc
      exact hone _ ⟨hseq, rfl, hc⟩
    · trivial
  case waitForStartDeal => exact hone _ (.inl hseq)
  case waitForShowHandle => exact hone _ (.inr (.inr (.inl hseq)))
  case waitForShowCard => exact hone _ (.inr (.inr (.inr (.inl hseq))))
  case waitForEndOfTrick => exact hone _ (.inr (.inr (.inr (.inr hseq))))
  all_goals trivial

/-- The three of them have their cards. -/
def trumpsDealt : Engine :=
  (({} : Engine).createTable 3 .south).newDeal (createRandomDeal tenTrumpsTwice 3 {})

/-- The first handle has been shown. -/
theorem handle_bonus_first :
    let r := run (observe Engine.act noteHandle) (trumpsDealt, [])
      (answers Engine.act nextActions 13 trumpsDealt)
    r.2.length = 1 ∧ (r.1.mCtx.analyzeGame r.1.mCurrentPoints.clear).1.handlePoints =
      (r.2.map fun h => getHandlePoints 3 (getHandleType h.1.size)).sum := by
  have hplayed : play (observe Engine.act noteHandle) (fun q => nextActions q.1) 13
      (trumpsDealt, []) (fun q => decide (q.2.length = 1 ∧
        (side q.1.mCtx.mBid true q.2).length ≤ 1 ∧
        (side q.1.mCtx.mBid false q.2).length ≤ 1)) = true := by
    decide +kernel
  have hfacts := of_play_observe Engine.act hplayed
  have h := fun points => handle_bonus (.inl rfl) rfl (createRandomDeal tenTrumpsTwice 3 {})
    (e := ({} : Engine).createTable 3 .south)
    (guarded_answers nextActions_enabled 13 trumpsDealt) points
  rw [← trumpsDealt] at h
  generalize run (observe Engine.act noteHandle) (trumpsDealt, [])
    (answers Engine.act nextActions 13 trumpsDealt) = r at *
  exact ⟨hfacts.1, (h r.1.mCurrentPoints).mpr hfacts.2⟩

/-- The whole deal, computed. -/
theorem trumpsDealt_played :
    play (observe Engine.act noteHandle) (fun q => nextActions q.1) 185 (trumpsDealt, [])
      (fun q => decide (q.1.mSequence = .waitForEndOfDeal ∧
        q.1.mCurrentPoints.handlePoints = 13 ∧
        (q.1.mCtx.analyzeGame q.1.mCurrentPoints.clear).1.handlePoints = 13 ∧
        (q.2.map fun h => getHandlePoints 3 (getHandleType h.1.size)).sum = 26)) = true := by
  decide +kernel

/-- Both players against the taker show ten trumps, and at the end of the deal one handle is
counted. -/
theorem handle_bonus_lost :
    (createRandomDeal tenTrumpsTwice 3 {}).Fair 3 ∧
      let as := answers Engine.act nextActions 185 trumpsDealt
      let r := run (observe Engine.act noteHandle) (trumpsDealt, []) as
      Guarded Engine.act Enabled trumpsDealt as ∧ r.1.mSequence = .waitForEndOfDeal ∧
        r.1.mCurrentPoints.handlePoints = 13 ∧
        (r.1.mCtx.analyzeGame r.1.mCurrentPoints.clear).1.handlePoints = 13 ∧
        (r.2.map fun h => getHandlePoints 3 (getHandleType h.1.size)).sum = 26 :=
  ⟨createRandomDeal_fair (show tenTrumpsTwice.cards = _ by decide +kernel) (.inl rfl) {},
    guarded_answers nextActions_enabled 185 trumpsDealt,
    of_play_observe Engine.act trumpsDealt_played⟩

end Engine

end TarotClub
