import TarotClub.LobbyTables
import TarotClub.PlayReplica

namespace TarotClub

open Machine

namespace PlayingTable

variable {t : PlayingTable} {n u : ℕ} {p : Place}

/-- What an action of the engine tells of the request that it comes from. -/
def Behind (t : PlayingTable) (srcUuid : ℕ) (cmd : Str) : Engine.Action → Prop
  | .newGame => cmd = str "RequestNewGame" ∨ t.mEngine.mSequence.isRunning = false
  | .bid _ _ _ => t.getPlayerPlace srcUuid ≠ .nowhere
  | .discard _ => cmd = str "Discard" ∧ t.mEngine.mCtx.mBid.taker = t.getPlayerPlace srcUuid
  | .card _ q => cmd = str "Card" ∧ q = t.getPlayerPlace srcUuid
  | _ => True

theorem behind_ackAction (ht : t.Open) (dealer : Dealer) (srcUuid : ℕ) (json : JsonValue)
    (cmd : Str) : t.Behind srcUuid cmd (t.ackAction dealer srcUuid json) := by
  unfold ackAction
  dsimp only
  generalize ackFromString (json.findValue (str "step")).getString = seq
  split_ifs with hsynced
  · obtain ⟨hp, -, hsync⟩ := hsynced
    have h0 : 0 < t.nbPlayers := Nat.zero_lt_of_lt (getPlayerPlace_of_ne ht.seats hp).1
    have hseq := ht.mSequence_eq h0 hsync
    generalize (t.sync seq srcUuid).2 = t'
    cases seq with
    | waitForPlayers =>
      rw [syncedAction]
      split_ifs
      · trivial
      · right
        rw [hseq]
        rfl
    | waitForEndOfDeal =>
      simp only [syncedAction]
      split_ifs
      · trivial
      · right
        rw [hseq]
        rfl
    | _ => trivial
  · trivial

theorem behind_requestAction (ht : t.Open) (dealer : Dealer) (srcUuid : ℕ) (json : JsonValue) :
    t.Behind srcUuid (json.findValue (str "cmd")).getString
      (t.requestAction dealer srcUuid json) := by
  refine request_cases (R := fun _ a =>
    t.Behind srcUuid (json.findValue (str "cmd")).getString a) dealer t srcUuid json trivial ?_ ?_
    ?_ ?_ ?_ ?_ ?_
  · intro _
    exact behind_ackAction ht dealer srcUuid json _
  · intro hcmd
    split_ifs
    · exact .inl hcmd
    · trivial
  · intro _
    simp only [bidAction]
    split_ifs with hturn
    · exact hturn.1
    · trivial
  · intro hcmd
    simp only [discardAction]
    split_ifs with hturn
    · exact ⟨hcmd, hturn.2.1⟩
    · trivial
  · intro _
    simp only [kingCallAction]
    split_ifs
    · trivial
    · trivial
  · intro _
    simp only [handleAction]
    split_ifs
    · trivial
    · trivial
    · trivial
  · intro hcmd
    simp only [cardAction]
    split_ifs
    · exact ⟨hcmd, rfl⟩
    · trivial

/-- Where a player sits is where the table finds the player. -/
theorem Spot.getPlayerPlace (h : t.Spot u p) (hn : t.nbPlayers ≤ 5) : t.getPlayerPlace u = p := by
  cases h with
  | seat hne hp huuid honce =>
    have hfound : t.getPlayerPlace u ≠ .nowhere := by
      intro hnone
      exact (getPlayerPlace_eq_nowhere hn).mp hnone _ hp huuid
    obtain ⟨hlt, hu⟩ := getPlayerPlace_of_ne hn hfound
    exact Place.value_inj.mp (honce _ hlt hu)
  | away hnone => exact (getPlayerPlace_eq_nowhere hn).mpr hnone

theorem Spot.lt (h : t.Spot u p) (hp : p ≠ .nowhere) : p.value < t.nbPlayers := by
  cases h with
  | seat _ hlt _ _ => exact hlt
  | away _ => exact absurd rfl hp

/-- Nobody else is found on the seat of a player. -/
theorem Spot.getPlayerPlace_ne (h : t.Spot u p) (hp : p ≠ .nowhere) (hn : t.nbPlayers ≤ 5) {w : ℕ}
    (hw : w ≠ u) : t.getPlayerPlace w ≠ p := by
  cases h with
  | seat _ hlt huuid _ =>
    refine PlayingTable.getPlayerPlace_ne hn hlt ?_
    rw [getPlayerUuid, huuid]
    exact hw.symm
  | away _ => exact absurd rfl hp

theorem Spot.removePlayer (h : t.Spot u p) (hn : t.nbPlayers ≤ 5) (hu : u ≠ invalidUid) (w : ℕ) :
    (t.removePlayer w).Spot u (if w = u then .nowhere else p) := by
  have hnb := removePlayer_nbPlayers t w
  have huuid : ∀ i < t.nbPlayers, ((t.removePlayer w).mPlayers i).uuid =
      if (t.mPlayers i).uuid = w then invalidUid else (t.mPlayers i).uuid :=
    fun i hi => removePlayer_uuid hn w hi
  by_cases hw : w = u
  · rw [if_pos hw]
    refine .away fun i hi => ?_
    rw [huuid i (hnb ▸ hi), hw]
    split_ifs with hmine
    · exact hu.symm
    · exact hmine
  · rw [if_neg hw]
    have hsame : ∀ i < t.nbPlayers, ((t.removePlayer w).mPlayers i).uuid = u ↔
        (t.mPlayers i).uuid = u := by
      intro i hi
      rw [huuid i hi]
      split_ifs with hleft
      · rw [hleft]
        exact iff_of_false hu.symm hw
      · rfl
    cases h with
    | seat hne hp hmine honce =>
      refine .seat hne (hnb ▸ hp) ((hsame _ hp).mpr hmine) fun i hi hi' => ?_
      exact honce i (hnb ▸ hi) ((hsame i (hnb ▸ hi)).mp hi')
    | away hnone =>
      refine .away fun i hi hi' => ?_
      exact hnone i (hnb ▸ hi) ((hsame i (hnb ▸ hi)).mp hi')

/-- A player who sits down gets one seat, where there was none; the others stay where they are. -/
theorem Spot.addPlayer (h : t.Spot u p) (hn : t.nbPlayers ≤ 5) (hu : u ≠ invalidUid) (w : ℕ) :
    (t.addPlayer w).2.Spot u
      (if w = u ∧ (t.addPlayer w).1.isValid = true then (t.addPlayer w).1 else p) := by
  have hnb := addPlayer_nbPlayers t w
  rcases addPlayer_cases hn w with ⟨hinvalid, hsame⟩ |
    ⟨i, hi, hfree, hw0, hplace, hvalid, hnew, huuid⟩
  · rw [hsame, if_neg fun hjoins => absurd (hinvalid.symm.trans hjoins.2) Bool.false_ne_true]
    exact h
  have hi5 : (Place.assign i).value = i := Place.value_assign (by omega)
  by_cases hw : w = u
  · rw [if_pos ⟨hw, hvalid⟩, hplace]
    refine .seat ?_ ?_ ?_ fun j hj hj' => ?_
    · intro hnone
      rw [hnone] at hi5
      exact absurd hi5 (by change (5 : ℕ) ≠ i; omega)
    · rw [hi5, hnb]
      exact hi
    · rw [hi5, huuid, if_pos rfl]
      exact hw
    · rw [huuid] at hj'
      split_ifs at hj' with hji
      · rw [hi5]
        exact hji
      · exact absurd (hj'.trans hw.symm) (hnew j (hnb ▸ hj))
  · rw [if_neg fun hjoins => hw hjoins.1]
    cases h with
    | seat hne hp hmine honce =>
      have hstays : p.value ≠ i := by
        intro he
        rw [he] at hmine
        exact hu (hmine.symm.trans hfree)
      refine .seat hne (hnb ▸ hp) ?_ fun j hj hj' => ?_
      · rw [huuid, if_neg hstays]
        exact hmine
      rw [huuid] at hj'
      split_ifs at hj' with hji
      · exact absurd hj' hw
      · exact honce j (hnb ▸ hj) hj'
    | away hnone =>
      refine .away fun j hj hj' => ?_
      rw [huuid] at hj'
      split_ifs at hj' with hji
      · exact hw hj'
      · exact hnone j (hnb ▸ hj) hj'

end PlayingTable

/-- The answer of a player to what the engine waits for, and what the player knows behind it. -/
inductive Answer (e : Engine) (p : Place) (v : View) : Reply → Prop
  | card {c : Card} {dest : List ℕ} : e.mSequence = .waitForPlayedCard → e.mCurrentPlayer = p →
    c.isValid = true → (e.mPlayers p.value).canPlayCard c e.currentTrick = true → v.place = p →
    v.hand = (e.mPlayers p.value).mDeck.filter (fun x => x ≠ c) →
    v.trick = e.currentTrick.mDeck → Answer e p v ⟨dest, (PlayerContext.buildSendCard c).getObj⟩
  | discard {discard : Deck} {dest : List ℕ} : e.mSequence = .waitForDiscard →
    e.mCtx.mBid.taker = p → (∀ c ∈ discard.mDeck, c.isValid = true) → v.place = p →
    v.hand = ((e.mPlayers p.value).mDeck ++ e.mCtx.mDog.mDeck).filter
      (fun x => x ∉ discard.mDeck) →
    Answer e p v ⟨dest, (PlayerContext.buildDiscard discard).getObj⟩

/-- How far a player is that has to answer for the seat: it has nothing to answer; it is asked, by
the last message that waits; it has answered; or its answer has gone somewhere else. -/
inductive Standing (e : Engine) (p : Place) (v : View) (inbox : List JsonObject)
    (answers : List Reply) : Prop
  | calm : answers = [] → Quiet v inbox →
    (p ≠ .nowhere → ¬ e.Owes p ∧ (v.after inbox).Follows e p) → Standing e p v inbox answers
  | asked {pre : List JsonObject} {m : JsonObject} : p ≠ .nowhere → answers = [] →
    inbox = pre ++ [m] → Quiet v pre → Requests e p m → (v.after pre).Follows e p →
    Standing e p v inbox answers
  | answered {reply : Reply} : p ≠ .nowhere → inbox = [] → answers = [reply] →
    Answer e p v reply → Standing e p v inbox answers
  | lost : p ≠ .nowhere → inbox = [] → answers = [] → e.Owes p → Standing e p v inbox answers

theorem Answer.owes {e : Engine} {p : Place} {v : View} {reply : Reply} (h : Answer e p v reply) :
    e.Owes p := by
  cases h with
  | card hs hturn _ _ _ _ _ => exact .inl ⟨hs, hturn⟩
  | discard hs htaker _ _ _ => exact .inr ⟨hs, htaker⟩

/-- While a player owes something, nothing happens but the answer, or a new game. -/
theorem Engine.eq_stay_of_owes {e : Engine} {p : Place} {a : Engine.Action} (ha : e.Enabled a)
    (howes : e.Owes p) (hgame : a ≠ .newGame) (hcard : ∀ c, a ≠ .card c p)
    (hdiscard : ∀ cards, a = .discard cards → e.mCtx.mBid.taker ≠ p) : a = .stay := by
  have hsteps : e.mSequence = .waitForPlayedCard ∨ e.mSequence = .waitForDiscard := by
    rcases howes with ⟨hs, -⟩ | ⟨hs, -⟩
    · exact .inl hs
    · exact .inr hs
  have hnot : ∀ {seq : Sequence}, e.mSequence = seq → seq ≠ .waitForPlayedCard →
      seq ≠ .waitForDiscard → False := by
    intro seq hs hcard hdiscard
    rcases hsteps with hs' | hs'
    · exact hcard (hs.symm.trans hs')
    · exact hdiscard (hs.symm.trans hs')
  cases a with
  | stay => rfl
  | newGame => exact absurd rfl hgame
  | newDeal deal =>
    rcases ha with hs | hs | hs <;> exact (hnot hs (by decide) (by decide)).elim
  | bid c slam q => exact (hnot ha.1 (by decide) (by decide)).elim
  | bidSequence => rcases ha with hs | hs <;> exact (hnot hs (by decide) (by decide)).elim
  | manageAfterBid => exact (hnot (show _ = _ from ha) (by decide) (by decide)).elim
  | discardSequence => exact (hnot (show _ = _ from ha) (by decide) (by decide)).elim
  | discard cards =>
    rcases howes with ⟨hs, -⟩ | ⟨-, htaker⟩
    · rw [ha.1] at hs
      contradiction
    · exact absurd htaker (hdiscard cards rfl)
  | kingCall c => exact (hnot ha.1 (by decide) (by decide)).elim
  | handle cards q => exact (hnot ha.1 (by decide) (by decide)).elim
  | gameSequence =>
    rcases ha with hs | hs | hs | hs | hs <;> exact (hnot hs (by decide) (by decide)).elim
  | card c q =>
    rcases howes with ⟨-, hturn⟩ | ⟨hs, -⟩
    · exact absurd (congrArg (Engine.Action.card c) (ha.2.1.trans hturn)) (hcard c)
    · rw [ha.1] at hs
      contradiction

namespace Standing

variable {e : Engine} {p : Place} {v : View} {inbox msgs : List JsonObject} {answers : List Reply}
  {a : Engine.Action} {n : ℕ} {plays plays' : List (Card × Place)}

theorem calm_of_not_owes (h : Standing e p v inbox answers) (howes : p = .nowhere ∨ ¬ e.Owes p) :
    answers = [] ∧ Quiet v inbox ∧ (p ≠ .nowhere → (v.after inbox).Follows e p) := by
  have hcalm : p ≠ .nowhere → e.Owes p → False := by
    intro hp hmine
    rcases howes with hnone | hnot
    · exact hp hnone
    · exact hnot hmine
  cases h with
  | calm hanswers hquiet hfollows => exact ⟨hanswers, hquiet, fun hp => (hfollows hp).2⟩
  | asked hp _ _ _ hrequest _ => exact (hcalm hp hrequest.owes).elim
  | answered hp _ _ hanswer => exact (hcalm hp hanswer.owes).elim
  | lost hp _ _ hmine => exact (hcalm hp hmine).elim

/-- Whatever happens that is no answer of the player, and no new game in the middle of a deal. -/
theorem act (hn : n = 3 ∨ n = 4 ∨ n = 5) (h : Standing e p v inbox answers)
    (hp : p ≠ .nowhere → p.value < n) (hphase : e.Phase n plays)
    (hphase' : (e.act a).Phase n plays') (ha : e.Enabled a)
    (hgame : e.mSequence.isRunning = true → a ≠ .newGame) (hcard : ∀ c, a ≠ .card c p)
    (hdiscard : ∀ cards, a = .discard cards → e.mCtx.mBid.taker ≠ p)
    (hnews : News (e.act a) p a msgs) : Standing (e.act a) p v (inbox ++ msgs) answers := by
  by_cases hnone : p = .nowhere
  · subst hnone
    obtain ⟨hanswers, hquiet, -⟩ := h.calm_of_not_owes (.inl rfl)
    refine .calm hanswers (quiet_append.mpr ⟨hquiet, hnews.quiet_away _⟩) fun hne => ?_
    exact absurd rfl hne
  by_cases hstay : a = .stay
  · subst hstay
    have hmsgs : msgs = [] := by
      cases hnews with
      | stay => rfl
      | absent hp' _ => exact absurd hp' hnone
      | _ => contradiction
    rw [hmsgs, List.append_nil]
    exact h
  by_cases howes : e.Owes p
  · have hrunning := Engine.isRunning_of_owes howes
    exact absurd (Engine.eq_stay_of_owes ha howes (hgame hrunning) hcard hdiscard) hstay
  obtain ⟨hanswers, hquiet, hfollows⟩ := h.calm_of_not_owes (.inr howes)
  have hbefore := hfollows hnone
  have hafter := hbefore.act hn (hp hnone) hphase hphase' ha hcard hdiscard hnews
  rcases hnews.asks ha hstay hnone with ⟨hnot, hsilent⟩ | ⟨m, rfl, hrequest⟩
  · refine .calm hanswers (quiet_append.mpr ⟨hquiet, hsilent _ hbefore.place⟩) fun _ => ⟨hnot, ?_⟩
    rw [View.after_append]
    exact hafter
  · refine .asked hnone hanswers rfl hquiet hrequest ?_
    have hlook : (v.after inbox).look m = v.after inbox := by
      cases hrequest with
      | card _ _ hcmd _ => exact View.look_of_asks (by rw [hcmd]; decide) _
      | discard _ _ hcmd => exact View.look_of_asks (by rw [hcmd]; decide) _
    rw [← hlook]
    exact hafter

/-- The table has accepted the answer of the player, who is told so. -/
theorem accept {reply : Reply} (h : Answer e p v reply)
    (hp : p ≠ .nowhere) (hphase : e.Phase n plays) (ha : e.Enabled a)
    (hread : a = .card (Card.ofString (textAt reply.data "card")) p ∨
      a = .discard (Deck.ofString (textAt reply.data "discard")))
    (hnews : News (e.act a) p a msgs) : Standing (e.act a) p v msgs [] := by
  have hstay : a ≠ .stay := by
    rintro rfl
    rcases hread with hread | hread <;> contradiction
  cases h with
  | @card c dest hs hturn hvalid hplay hplace hhand htrick =>
    have hc : Card.ofString (textAt (PlayerContext.buildSendCard c).getObj "card") = c :=
      Card.ofString_toString hvalid
    rcases hread with rfl | rfl
    swap
    · exact absurd (hs.symm.trans ha.1) (by decide)
    rw [hc] at ha hnews hstay ⊢
    have hnot : ¬ (e.act (.card c p)).Owes p := by
      have hs' := List.mem_singleton.mp (Engine.act_mem_leadsTo ha hstay)
      refine Engine.not_owes ?_ ?_ <;> rw [hs'] <;> decide
    cases hnews with
    | absent hnone _ => exact absurd hnone hp
    | @showCard _ _ m hcmd htext =>
      refine .calm rfl (quiet_singleton hcmd (by decide)) fun _ => ⟨hnot, ?_⟩
      change (v.look m).Follows _ p
      rw [v.look_showCard hcmd, htext, Card.ofString_toString hvalid, Engine.act, Engine.setCard,
        if_pos ha.2.2.2]
      refine ⟨hplace, fun _ => ?_, fun hdog => ?_, fun _ => congrArg (· ++ [c]) htrick⟩
      · have hmine : Function.update e.mPlayers p.value ((e.mPlayers p.value).remove c) p.value =
            (e.mPlayers p.value).remove c := Function.update_self _ _ _
        exact hhand.trans (congrArg Deck.mDeck hmine).symm
      · contradiction
    | _ => contradiction
  | @discard discard dest hs htaker hvalid hplace hhand =>
    have hd : (Deck.ofString (textAt (PlayerContext.buildDiscard discard).getObj "discard")).mDeck =
        discard.mDeck := by
      change (Deck.ofString discard.toString).mDeck = discard.mDeck
      rw [Deck.ofString_toString hvalid]
      rfl
    rcases hread with rfl | rfl
    · exact absurd (hs.symm.trans ha.1) (by decide)
    generalize Deck.ofString (textAt (PlayerContext.buildDiscard discard).getObj "discard") =
      cards at hd ha hnews hstay ⊢
    have hempty := hphase.currentTrick_of_opensPlay ha rfl
    have hnot : ¬ (e.act (.discard cards)).Owes p := by
      have hs' := List.mem_singleton.mp (Engine.act_mem_leadsTo ha hstay)
      refine Engine.not_owes ?_ ?_ <;> rw [hs'] <;> decide
    cases hnews with
    | absent hnone _ => exact absurd hnone hp
    | @startDeal _ m _ _ hcmd =>
      refine .calm rfl (quiet_singleton hcmd (by decide)) fun _ => ⟨hnot, ?_⟩
      change (v.look m).Follows _ p
      rw [v.look_startDeal hcmd, Engine.act, Engine.setDiscard, if_pos ha.2]
      refine ⟨hplace, fun _ => ?_, fun hdog => ?_, fun _ => hempty.symm⟩
      · have hmine : Function.update e.mPlayers e.mCtx.mBid.taker.value
            ((e.takerDeck.append e.mCtx.mDog).removeDuplicates cards).2 p.value =
              ((e.takerDeck.append e.mCtx.mDog).removeDuplicates cards).2 := by
          rw [htaker]
          exact Function.update_self _ _ _
        refine hhand.trans ((congrArg Deck.mDeck hmine).trans ?_).symm
        rw [Deck.removeDuplicates_mDeck, hd, Engine.takerDeck, htaker]
        rfl
      · contradiction
    | showDog _ hnot' _ _ _ => exact absurd rfl (hnot' cards)
    | _ => contradiction

/-- A bot that is asked for a card answers with one of its hand that may be played. -/
theorem playCard (hn : n = 3 ∨ n = 4 ∨ n = 5) {ctx : PlayerContext}
    (hctx : ctx.mMyself.isConnected = true) {m : JsonObject} (hphase : e.Phase n plays)
    (hfollows : ctx.view.Follows e p) (hs : e.mSequence = .waitForPlayedCard)
    (hturn : e.mCurrentPlayer = p) (hcmd : cmdOf m = str "PlayCard")
    (hplace : Place.ofString (textAt m "place") = p) (script : Script) :
    ∃ reply, (Bot.handleRequest script ctx m).2 = [reply] ∧ reply.isAnswer = true ∧
      Answer e p (Bot.handleRequest script ctx m).1.view reply := by
  simp only [Engine.Phase, hs] at hphase
  obtain ⟨hplaying, hcounter, hpos⟩ := hphase
  obtain ⟨hlt, -, hsize⟩ := hplaying.turn_spec hn hcounter hpos
  rw [hturn] at hlt hsize
  have hhand : ctx.mDeck.mDeck = (e.mPlayers p.value).mDeck := hfollows.hand (by rw [hs]; rfl)
  have htrick : ctx.mCurrentTrick.mDeck = e.currentTrick.mDeck :=
    hfollows.trick (by rw [hs]; rfl)
  have hne : ctx.mDeck.mDeck ≠ [] := by
    rw [hhand]
    exact List.ne_nil_of_length_pos hsize
  obtain ⟨hmem, hplay⟩ := PlayerContext.chooseRandomCard_spec hne
  have hvalid : ctx.chooseRandomCard.isValid = true := by
    refine Engine.valid_of_le_cards hplaying.cards (Engine.hand_le_cards e ?_) _ (hhand ▸ hmem)
    rw [hplaying.players]
    exact hlt
  obtain ⟨hview, hreplies⟩ := Bot.handleRequest_playCard script hctx hcmd
    (hplace.trans hfollows.place.symm)
  refine ⟨_, hreplies, rfl, ?_⟩
  rw [hview]
  refine .card hs hturn hvalid ?_ hfollows.place ?_ htrick
  · rw [← Deck.canPlayCard_congr hhand htrick]
    exact hplay
  · exact congrArg (List.filter _) hhand

/-- A bot that is asked for its discard answers with cards of its hand and of the dog. -/
theorem buildDiscard {ctx : PlayerContext} (hctx : ctx.mMyself.isConnected = true)
    {m : JsonObject} (hlt : p.value < n) (hphase : e.Phase n plays)
    (hfollows : ctx.view.Follows e p) (hs : e.mSequence = .waitForDiscard)
    (htaker : e.mCtx.mBid.taker = p) (hcmd : cmdOf m = str "BuildDiscard") (script : Script) :
    ∃ reply, (Bot.handleRequest script ctx m).2.filter Reply.isAnswer = [reply] ∧
      Answer e p (Bot.handleRequest script ctx m).1.view reply := by
  simp only [Engine.Phase, hs] at hphase
  obtain ⟨hbefore, -⟩ := hphase
  have hhand : ctx.view.hand = (e.mPlayers p.value).mDeck := hfollows.hand (by rw [hs]; rfl)
  have hdog : ctx.view.dog = e.mCtx.mDog.mDeck := hfollows.dog (by rw [hs]; rfl)
  obtain ⟨discard, hmem, hview, hreplies⟩ := Bot.handleRequest_buildDiscard script hctx hcmd
  have hvalid : ∀ c ∈ discard.mDeck, c.isValid = true := by
    intro c hc
    have hown := hmem c hc
    rw [hhand, hdog, List.mem_append] at hown
    rcases hown with hown | hown
    · refine Engine.valid_of_le_cards hbefore.cards (Engine.hand_le_cards e ?_) c hown
      rw [hbefore.players]
      exact hlt
    · exact Engine.valid_of_le_cards hbefore.cards (Engine.mDog_le_cards hbefore.discard) c hown
  refine ⟨ctx.replyToTable (PlayerContext.buildDiscard discard), ?_, ?_⟩
  · rw [hreplies]
    rfl
  · rw [hview]
    refine .discard hs htaker hvalid hfollows.place ?_
    dsimp only
    rw [hhand, hdog]

/-- A bot handles the message in front of those that wait. -/
theorem handle (hn : n = 3 ∨ n = 4 ∨ n = 5) {ctx : PlayerContext}
    (hctx : ctx.mMyself.isConnected = true) {m : JsonObject} {rest : List JsonObject}
    (h : Standing e p ctx.view (m :: rest) answers) (hlt : p ≠ .nowhere → p.value < n)
    (hphase : e.Phase n plays) (script : Script) :
    Standing e p (Bot.handleRequest script ctx m).1.view rest
      (answers ++ (Bot.handleRequest script ctx m).2.filter Reply.isAnswer) := by
  have htakeIn : ¬ Asks ctx.view.place m →
      (Bot.handleRequest script ctx m).1.view = ctx.view.look m ∧
        (Bot.handleRequest script ctx m).2.filter Reply.isAnswer = [] := by
    intro hasks
    obtain ⟨hview, hreplies⟩ := Bot.handleRequest_look script hctx hasks
    refine ⟨hview, List.filter_eq_nil_iff.mpr fun reply hreply => ?_⟩
    rw [hreplies reply hreply]
    exact Bool.false_ne_true
  cases h with
  | calm hanswers hquiet hfollows =>
    obtain ⟨hview, hsilent⟩ := htakeIn hquiet.1
    rw [hview, hsilent, List.append_nil]
    exact .calm hanswers hquiet.2 hfollows
  | @asked pre m' hp hanswers hinbox hquiet hrequest hfollows =>
    cases pre with
    | nil =>
      obtain ⟨rfl, rfl⟩ := List.cons.inj hinbox
      obtain ⟨reply, hreply, hanswer⟩ : ∃ reply,
          (Bot.handleRequest script ctx m).2.filter Reply.isAnswer = [reply] ∧
            Answer e p (Bot.handleRequest script ctx m).1.view reply := by
        cases hrequest with
        | card hs hturn hcmd hplace =>
          obtain ⟨reply, hreplies, hisAnswer, hanswer⟩ :=
            playCard hn hctx hphase hfollows hs hturn hcmd hplace script
          refine ⟨reply, ?_, hanswer⟩
          rw [hreplies, List.filter_singleton, hisAnswer, cond_true]
        | discard hs htaker hcmd =>
          exact buildDiscard hctx (hlt hp) hphase hfollows hs htaker hcmd script
      refine .answered hp rfl ?_ hanswer
      rw [hanswers, hreply]
      rfl
    | cons m0 pre =>
      obtain ⟨rfl, rfl⟩ := List.cons.inj hinbox
      obtain ⟨hview, hsilent⟩ := htakeIn hquiet.1
      rw [hview, hsilent, List.append_nil]
      exact .asked hp hanswers rfl hquiet.2 hrequest hfollows
  | answered _ hinbox _ _ => contradiction
  | lost _ hinbox _ _ => contradiction

/-- Outside a deal a player may get another seat, and is told so. -/
theorem move (h : Standing e p v inbox answers) (hout : e.mSequence.isRunning = false)
    {q : Place} (hquiet : Quiet (v.after inbox) msgs)
    (hplace : q ≠ .nowhere → (v.after (inbox ++ msgs)).place = q) :
    Standing e q v (inbox ++ msgs) answers := by
  have hnot : ∀ r, ¬ e.Owes r := by
    intro r howes
    exact Bool.false_ne_true (hout.symm.trans (Engine.isRunning_of_owes howes))
  have hsteps : e.mSequence.hasDog = false ∧ e.mSequence.hasTrick = false := by
    revert hout
    cases e.mSequence <;> decide
  obtain ⟨hanswers, hbefore, -⟩ := h.calm_of_not_owes (.inr (hnot p))
  refine .calm hanswers (quiet_append.mpr ⟨hbefore, hquiet⟩) fun hq => ⟨hnot q, hplace hq, ?_, ?_, ?_⟩
  · rw [hout]
    exact fun hfalse => absurd hfalse Bool.false_ne_true
  · rw [hsteps.1]
    exact fun hfalse => absurd hfalse Bool.false_ne_true
  · rw [hsteps.2]
    exact fun hfalse => absurd hfalse Bool.false_ne_true

end Standing

end TarotClub
