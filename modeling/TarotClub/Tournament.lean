import TarotClub.AckBarrier

namespace TarotClub

open Machine

/-- `TournamentConfig::MAX_NUMBER_OF_TURNS`: the rows of the table of scores. -/
def maxNumberOfTurns : ℕ := 40

/-- The command of a message. -/
def Reply.cmd (reply : Reply) : Str := (reply.data.getKey (str "cmd")).getString

/-- A message with this command is among the replies. -/
def announces (out : List Reply) (cmd : Str) : Bool := out.any fun reply => reply.cmd = cmd

/-- Cards have been dealt, and the deal is not over. -/
def Sequence.isDealt : Sequence → Bool
  | .badStep | .stopped | .waitForPlayers | .waitForReady => false
  | _ => true

theorem Sequence.isDealt_of_isPastAuction {seq : Sequence} :
    seq.isPastAuction = true → seq.isDealt = true := by
  cases seq <;> decide

namespace Engine

theorem bidSequence_isDealt (e : Engine) : e.bidSequence.mSequence.isDealt = true := by
  simp only [bidSequence]
  split_ifs
  · rfl
  · rfl
  · rcases manageAfterBidSequence_mSequence e.isEndOfTrick.2 with hs | hs
    · rw [hs]
      rfl
    · rw [hs]
      rfl
  · rfl

/-- The engine stays where it is, or moves on inside of a deal, unless the game or the deal
begins anew. -/
theorem act_isDealt {e : Engine} {a : Action} (ha : e.Enabled a) (hr : a.isRestart = false) :
    (e.act a).mSequence = e.mSequence ∨
      (e.act a).mSequence.isDealt = true ∧ e.mSequence.isDealt = true := by
  by_cases hl : a.isLate = true
  · exact .inr ⟨Sequence.isDealt_of_isPastAuction (act_isLate_mSequence ha hl),
      Sequence.isDealt_of_isPastAuction (enabled_isLate ha hl)⟩
  cases a with
  | stay => exact .inl rfl
  | newGame => cases hr
  | newDeal deal => cases hr
  | bid c slam p =>
    refine .inr ⟨rfl, ?_⟩
    rw [ha.1]
    rfl
  | bidSequence =>
    have hdealt : e.mSequence.isDealt = true := by
      rcases ha with h | h
      · rw [h]
        rfl
      · rw [h]
        rfl
    refine .inr ⟨?_, hdealt⟩
    rw [act, startIfReady_mSequence]
    exact bidSequence_isDealt e
  | _ => exact absurd rfl hl

end Engine

namespace PlayingTable

/-- What a call gives back. -/
def respond (t : PlayingTable) : Call → Response
  | .executeRequest dealer srcUuid json => t.executeRequest dealer srcUuid json
  | c => { table := t.apply c }

theorem respond_table (t : PlayingTable) (c : Call) : (t.respond c).table = t.apply c := by
  cases c <;> rfl

/-- The tables hold the same game, and the deals of it are counted alike. -/
structure SameGame (t t' : PlayingTable) : Prop where
  mScore : t'.mScore = t.mScore
  mGame : t'.mGame = t.mGame
  mEngine : t'.mEngine = t.mEngine

/-- The bookkeeping is not touched, and no game or deal is announced. -/
structure Quiet (t : PlayingTable) (r : Response) : Prop where
  mScore : r.table.mScore = t.mScore
  mGame : r.table.mGame = t.mGame
  isEndOfDeal : r.isEndOfDeal = false
  newGame : announces r.out (str "NewGame") = false
  newDeal : announces r.out (str "NewDeal") = false
  endOfGame : announces r.out (str "EndOfGame") = false
  dealt : announces r.out (str "StartDeal") = true → r.table.mEngine.mSequence.isDealt = true

/-- What a call can mean for the bookkeeping. -/
inductive Turn (t : PlayingTable) (c : Call) : Response → Engine.Action → Prop
  | quiet (r : Response) (a : Engine.Action) (h : t.Quiet r) (ha : a.isRestart = false) :
      Turn t c r a
  | newGame (t' : PlayingTable) (hgame : t'.mGame = t.mGame ∨ ∃ dealer json,
        c = .executeRequest dealer t.mAdmin json ∧
          (json.findValue (str "cmd")).getString = str "RequestNewGame" ∧
          t'.mGame.deals.length = (json.findValue (str "deals")).getArray.length) :
      Turn t c t'.newGame .newGame
  | newDeal (dealer : Dealer) (t' : PlayingTable) (h : t.SameGame t') (deal : Deal)
      (hfires : t.Fires c)
      (hseq : t.mEngine.mSequence = .waitForReady ∨ t.mEngine.mSequence = .waitForAllPassed) :
      Turn t c (t'.newDeal dealer) (.newDeal deal)
  | endOfDeal (dealer : Dealer) (t' : PlayingTable) (h : t.SameGame t') (a : Engine.Action)
      (hfires : t.Fires c) (hseq : t.mEngine.mSequence = .waitForEndOfDeal) :
      Turn t c { t'.endOfDeal dealer with isEndOfDeal := true } a

theorem Quiet.of_nil (t : PlayingTable) {t' : PlayingTable} (hscore : t'.mScore = t.mScore)
    (hgame : t'.mGame = t.mGame) : t.Quiet { table := t' } :=
  ⟨hscore, hgame, rfl, rfl, rfl, rfl, fun h => absurd h Bool.false_ne_true⟩

theorem announces_singleton (dest : List ℕ) (obj : JsonObject) (cmd : Str) :
    announces [⟨dest, obj⟩] cmd = decide ((obj.getKey (str "cmd")).getString = cmd) := by
  rw [announces, List.any_cons, List.any_nil, Bool.or_false]
  rfl

/-- One message that is none of these. -/
theorem Quiet.of_message {t : PlayingTable} {r : Response} (hscore : r.table.mScore = t.mScore)
    (hgame : r.table.mGame = t.mGame) (hflag : r.isEndOfDeal = false) {dest : List ℕ}
    {obj : JsonObject} (hout : r.out = [⟨dest, obj⟩]) (cmd : Str)
    (hobj : obj.getKey (str "cmd") = .string cmd)
    (hcmd : cmd ∉ [str "NewGame", str "NewDeal", str "EndOfGame", str "StartDeal"]) :
    t.Quiet r := by
  simp only [List.mem_cons, List.not_mem_nil, or_false, not_or] at hcmd
  have hget : (obj.getKey (str "cmd")).getString = cmd := by
    rw [hobj]
    rfl
  refine ⟨hscore, hgame, hflag, ?_, ?_, ?_, ?_⟩
  · rw [hout, announces_singleton, hget]
    exact decide_eq_false hcmd.1
  · rw [hout, announces_singleton, hget]
    exact decide_eq_false hcmd.2.1
  · rw [hout, announces_singleton, hget]
    exact decide_eq_false hcmd.2.2.1
  · intro h
    rw [hout, announces_singleton, hget, decide_eq_true_iff] at h
    exact absurd h hcmd.2.2.2

theorem Quiet.startDeal {t : PlayingTable} (h : t.mEngine.mSequence.isDealt = true) :
    t.Quiet t.startDeal := by
  have hcmd : ∀ cmd, announces t.startDeal.out cmd = decide (str "StartDeal" = cmd) := by
    intro cmd
    exact announces_singleton _ _ cmd
  refine ⟨rfl, rfl, rfl, ?_, ?_, ?_, fun _ => h⟩
  · rw [hcmd]
    decide
  · rw [hcmd]
    decide
  · rw [hcmd]
    decide

theorem Quiet.congr {t t' : PlayingTable} {r : Response} (h : t'.Quiet r)
    (hscore : t'.mScore = t.mScore) (hgame : t'.mGame = t.mGame) : t.Quiet r :=
  { h with mScore := h.mScore.trans hscore, mGame := h.mGame.trans hgame }

theorem Quiet.sendNextBidSequence (t : PlayingTable) : t.Quiet t.sendNextBidSequence := by
  unfold PlayingTable.sendNextBidSequence
  split
  · exact .of_message rfl rfl rfl rfl (str "RequestBid") rfl (by decide)
  · exact .of_message rfl rfl rfl rfl (str "RequestKingCall") rfl (by decide)
  · exact .of_message rfl rfl rfl rfl (str "AllPassed") rfl (by decide)
  · rename_i hseq
    refine .startDeal ?_
    rw [hseq]
    rfl
  · exact .of_message rfl rfl rfl rfl (str "ShowDog") rfl (by decide)
  · exact .of_nil t rfl rfl

theorem Quiet.gameSequence (t : PlayingTable) : t.Quiet t.gameSequence := by
  simp only [PlayingTable.gameSequence]
  split_ifs
  · exact .of_message rfl rfl rfl rfl (str "EndOfDeal") rfl (by decide)
  · split
    · exact .of_message rfl rfl rfl rfl (str "EndOfTrick") rfl (by decide)
    · exact .of_message rfl rfl rfl rfl (str "PlayCard") rfl (by decide)
    · exact .of_message rfl rfl rfl rfl (str "AskForHandle") rfl (by decide)
    · exact .of_nil t rfl rfl

/-- What follows when every player has acknowledged the step that the engine is in. -/
theorem allSynced_turn (dealer : Dealer) {t t' : PlayingTable} {c : Call} (h : t.SameGame t')
    (hfires : t.Fires c) : Turn t c (t'.allSynced dealer t.mEngine.mSequence)
      (t'.syncedAction dealer t.mEngine.mSequence) := by
  have hquiet : ∀ {r : Response}, t'.Quiet r → t.Quiet r := fun hr => hr.congr h.mScore h.mGame
  have hnil : ∀ {t'' : PlayingTable}, t''.mScore = t'.mScore → t''.mGame = t'.mGame →
      t.Quiet { table := t'' } := fun hs hg => hquiet (.of_nil t' hs hg)
  have hsend : ∀ {e : Engine}, t.Quiet ({ t' with mEngine := e }.sendNextBidSequence) :=
    hquiet ((Quiet.sendNextBidSequence _).congr rfl rfl)
  cases hseq : t.mEngine.mSequence <;> simp only [allSynced, syncedAction]
  case waitForPlayers =>
    split_ifs
    · exact .quiet _ _ (hnil rfl rfl) rfl
    · exact .newGame t' (.inl h.mGame)
  case waitForReady => exact .newDeal dealer t' h _ hfires (.inl hseq)
  case waitForAllPassed => exact .newDeal dealer t' h _ hfires (.inr hseq)
  case waitForCards | waitForShowBid | waitForShowKingCall => exact .quiet _ _ hsend rfl
  case waitForShowDog =>
    exact .quiet _ _ (hquiet (.of_message rfl rfl rfl rfl (str "BuildDiscard") rfl
      (by decide))) rfl
  case waitForStartDeal | waitForShowHandle | waitForShowCard | waitForEndOfTrick =>
    exact .quiet _ _ (hquiet (.gameSequence t')) rfl
  case waitForEndOfDeal => exact .endOfDeal dealer t' h _ hfires hseq
  all_goals exact .quiet _ _ (hnil rfl rfl) rfl

theorem executeRequest_turn {t : PlayingTable} (ht : t.Open) (dealer : Dealer) (srcUuid : ℕ)
    (json : JsonValue) :
    Turn t (.executeRequest dealer srcUuid json) (t.executeRequest dealer srcUuid json)
      (t.requestAction dealer srcUuid json) := by
  have hstay : Turn t (.executeRequest dealer srcUuid json) { table := t } .stay :=
    .quiet _ _ (.of_nil t rfl rfl) rfl
  refine request_cases (R := Turn t _) dealer t srcUuid json hstay (fun hcmd => ?_)
    (fun hcmd => ?_) (fun _ => ?_) (fun _ => ?_) (fun _ => ?_) (fun _ => ?_) (fun _ => ?_)
  · simp only [executeAck, ackAction]
    generalize hstep : ackFromString (json.findValue (str "step")).getString = step
    by_cases hp : t.getPlayerPlace srcUuid ≠ .nowhere
    · by_cases hbad : step = .badStep
      · rw [if_pos hp, if_pos hbad, if_neg fun hc => hc.2.1 hbad]
        exact hstay
      · cases hsync : (t.sync step srcUuid).1 with
        | false =>
          rw [if_pos hp, if_neg hbad, if_neg Bool.false_ne_true, if_neg fun hc =>
            Bool.false_ne_true hc.2.2, sync_of_not_fst hsync]
          exact .quiet _ _ (.of_nil t rfl rfl) rfl
        | true =>
          have h0 : 0 < t.nbPlayers := Nat.zero_lt_of_lt (getPlayerPlace_of_ne ht.seats hp).1
          have hseq := ht.mSequence_eq h0 hsync
          rw [if_pos hp, if_neg hbad, if_pos rfl, if_pos ⟨hp, hbad, rfl⟩, sync_of_fst hsync, ← hseq]
          refine allSynced_turn dealer ⟨rfl, rfl, rfl⟩ ⟨hcmd, hp, ?_, ?_⟩
          · rwa [hstep]
          · rwa [hstep]
    · rw [if_neg hp, if_neg fun hc => hp hc.1]
      exact hstay
  · unfold executeNewGame
    split_ifs with hadmin
    · refine .newGame _ (.inr ⟨dealer, json, by rw [hadmin], hcmd, ?_⟩)
      exact List.length_map _
    · exact hstay
  · simp only [executeReplyBid, bidAction]
    split_ifs
    · exact .quiet _ _ (.of_message rfl rfl rfl rfl (str "ShowBid") rfl (by decide)) rfl
    · exact hstay
  · refine .quiet _ _ ?_ ?_
    · simp only [executeDiscard]
      split_ifs with hturn hvalid
      · refine (Quiet.startDeal ?_).congr rfl rfl
        unfold Engine.setDiscard at hvalid ⊢
        split_ifs at hvalid ⊢
        rfl
      · exact .of_nil t rfl rfl
      · exact .of_nil t rfl rfl
    · simp only [discardAction]
      split_ifs
      · rfl
      · rfl
  · refine .quiet _ _ ?_ ?_
    · simp only [executeReplyKingCall]
      split_ifs
      · exact .of_message rfl rfl rfl rfl (str "ShowKingCall") rfl (by decide)
      · exact .of_nil t rfl rfl
      · exact .of_nil t rfl rfl
    · simp only [kingCallAction]
      split_ifs
      · rfl
      · rfl
  · refine .quiet _ _ ?_ ?_
    · simp only [executeHandle]
      split_ifs
      · exact .of_message rfl rfl rfl rfl (str "ShowHandle") rfl (by decide)
      · exact (Quiet.gameSequence _).congr rfl rfl
      · exact .of_nil t rfl rfl
    · simp only [handleAction]
      split_ifs
      · rfl
      · rfl
      · rfl
  · refine .quiet _ _ ?_ ?_
    · simp only [executeCard]
      split_ifs
      · exact .of_message rfl rfl rfl rfl (str "ShowCard") rfl (by decide)
      · exact .of_nil t rfl rfl
      · exact .of_nil t rfl rfl
    · simp only [cardAction]
      split_ifs
      · rfl
      · rfl

theorem Open.turn {t : PlayingTable} (ht : t.Open) (c : Call) :
    Turn t c (t.respond c) (t.action c) := by
  cases c with
  | addPlayer uuid =>
    refine .quiet _ _ (.of_nil t ?_ ?_) rfl
    · simp only [PlayingTable.apply, PlayingTable.addPlayer]
      split_ifs <;> rfl
    · simp only [PlayingTable.apply, PlayingTable.addPlayer]
      split_ifs <;> rfl
  | removePlayer kickedPlayer =>
    refine .quiet _ _ (.of_nil t ?_ ?_) rfl
    · simp only [PlayingTable.apply, PlayingTable.removePlayer]
      split_ifs <;> rfl
    · simp only [PlayingTable.apply, PlayingTable.removePlayer]
      split_ifs <;> rfl
  | executeRequest dealer srcUuid json => exact executeRequest_turn ht dealer srcUuid json

/-- The call that completes a step leads to what follows it. -/
theorem Open.respond_of_fires {t : PlayingTable} (ht : t.Open) {c : Call} (hfires : t.Fires c) :
    ∃ dealer, t.respond c = t.resetAck.allSynced dealer t.mEngine.mSequence ∧
      0 < t.nbPlayers := by
  cases c with
  | addPlayer _ | removePlayer _ => exact absurd hfires id
  | executeRequest dealer srcUuid json =>
    obtain ⟨hcmd, hp, hbad, hsync⟩ := hfires
    have h0 : 0 < t.nbPlayers := Nat.zero_lt_of_lt (getPlayerPlace_of_ne ht.seats hp).1
    have hseq := ht.mSequence_eq h0 hsync
    refine ⟨dealer, ?_, h0⟩
    simp only [respond, (request_of_ack dealer t srcUuid json hcmd).1, executeAck]
    rw [if_pos hp, if_neg hbad, if_pos hsync, sync_of_fst hsync, hseq]

/-! The deals that are complete are counted apart from the score. -/

/-- The number of deals completed in the game, starting again with each game. -/
def noteDeals (t : PlayingTable) (c : Call) (done : ℕ) : ℕ :=
  let r := t.respond c
  if r.isEndOfDeal then if announces r.out (str "EndOfGame") then 0 else done + 1
  else if announces r.out (str "NewGame") then 0
  else done

/-- The deal that a call begins is one of the game, the deal that it ends has a row in the table of
scores, and with the last deal of the game the end of it is announced. -/
def InRange (p : PlayingTable × ℕ) (c : Call) : Prop :=
  let r := p.1.respond c
  (announces r.out (str "NewDeal") = true ∨ announces r.out (str "StartDeal") = true →
    r.table.mScore.getCurrentCounter < r.table.mGame.deals.length) ∧
  (r.isEndOfDeal = true → p.1.mScore.dealCounter < maxNumberOfTurns ∧
    (announces r.out (str "EndOfGame") = true ↔ p.2 + 1 = p.1.mGame.deals.length))

/-- No game without deals begins, and no deal ends behind the fortieth of its game, nor behind the
one that the number of turns, as a byte, takes for the last. -/
def HasTurnsLeft (p : PlayingTable × ℕ) (c : Call) : Prop :=
  p.1.Fires c →
    (p.1.mEngine.mSequence = .waitForReady → p.1.mGame.deals ≠ []) ∧
    (p.1.mEngine.mSequence = .waitForEndOfDeal → p.2 < maxNumberOfTurns ∧
      (p.1.mGame.deals.length < 256 ∨ p.2 + 1 < p.1.mGame.deals.length % 256))

/-- What the score has on record of the game. -/
structure Counted (p : PlayingTable × ℕ) : Prop where
  dealt : p.1.mEngine.mSequence.isDealt = true →
    p.1.mScore.dealCounter = p.2 ∧ p.2 < p.1.mGame.deals.length ∧ p.2 < 256 ∧
      p.1.mScore.mNumberOfTurns = p.1.mGame.deals.length % 256
  ready : p.1.mEngine.mSequence = .waitForReady → p.2 = 0 ∧
    p.1.mScore.mNumberOfTurns = p.1.mGame.deals.length % 256 ∧
    (p.1.mScore.dealCounter = 0 ∨ p.1.mGame.deals.length ≤ p.1.mScore.getCurrentCounter)

theorem announces_newDeal {dealer : Dealer} {t : PlayingTable} (h0 : 0 < t.nbPlayers) :
    announces (t.newDeal dealer).out (str "NewDeal") = true := by
  have hnb : (t.newDeal dealer).table.nbPlayers = t.nbPlayers := by
    rw [nbPlayers, newDeal_mEngine, Engine.newDeal_mNbPlayers]
    rfl
  refine List.any_eq_true.mpr ⟨_, List.mem_map.mpr ⟨0, ?_, rfl⟩, rfl⟩
  rw [List.mem_range]
  exact hnb.symm ▸ h0

theorem announces_newDeal_of_ne (dealer : Dealer) (t : PlayingTable) {cmd : Str}
    (hcmd : str "NewDeal" ≠ cmd) : announces (t.newDeal dealer).out cmd = false := by
  refine List.any_eq_false.mpr fun reply hreply => ?_
  obtain ⟨i, -, rfl⟩ := List.mem_map.mp hreply
  rw [decide_eq_true_iff]
  exact hcmd

/-- The score behind a rollover, if there is one: the deal that comes next is one of the game. -/
theorem rollover_mScore {t : PlayingTable} {done : ℕ} (hdeals : done < t.mGame.deals.length)
    (h256 : done < 256)
    (hcounter : t.mScore.dealCounter = done ∨
      done = 0 ∧ t.mGame.deals.length ≤ t.mScore.getCurrentCounter)
    (hturns : t.mScore.mNumberOfTurns = t.mGame.deals.length % 256) :
    t.rollover.mScore.dealCounter = done ∧
      t.rollover.mScore.mNumberOfTurns = t.mGame.deals.length % 256 ∧
      t.rollover.mScore.getCurrentCounter < t.mGame.deals.length := by
  unfold rollover
  split_ifs with hover
  · have hzero : done = 0 := by
      rcases hcounter with hcounter | ⟨hzero, -⟩
      · rw [Score.getCurrentCounter, hcounter, Nat.mod_eq_of_lt h256] at hover
        omega
      · exact hzero
    subst hzero
    exact ⟨rfl, rfl, hdeals⟩
  · have hsame : t.mScore.dealCounter = done := by
      rcases hcounter with hcounter | ⟨-, hle⟩
      · exact hcounter
      · exact absurd hle hover
    refine ⟨hsame, hturns, ?_⟩
    exact not_le.mp hover

@[simp] theorem newDeal_mGame (dealer : Dealer) (t : PlayingTable) :
    (t.newDeal dealer).table.mGame = t.mGame := by
  have hroll : t.rollover.mGame = t.mGame := by
    unfold rollover
    split_ifs <;> rfl
  exact hroll

/-- A new deal of a game that has one more. -/
theorem Counted.newDeal {t : PlayingTable} (dealer : Dealer) {done : ℕ}
    (hdeals : done < t.mGame.deals.length) (h256 : done < 256)
    (hcounter : t.mScore.dealCounter = done ∨
      done = 0 ∧ t.mGame.deals.length ≤ t.mScore.getCurrentCounter)
    (hturns : t.mScore.mNumberOfTurns = t.mGame.deals.length % 256) :
    Counted ((t.newDeal dealer).table, done) ∧
      (t.newDeal dealer).table.mScore.getCurrentCounter <
        (t.newDeal dealer).table.mGame.deals.length := by
  obtain ⟨hcount, hturns', hlt⟩ := rollover_mScore hdeals h256 hcounter hturns
  have hgame := newDeal_mGame dealer t
  have hseq : (t.newDeal dealer).table.mEngine.mSequence = .waitForCards := rfl
  refine ⟨⟨fun _ => ⟨hcount, ?_, h256, ?_⟩, fun hready => ?_⟩, ?_⟩
  · rw [hgame]
    exact hdeals
  · rw [hgame]
    exact hturns'
  · rw [hseq] at hready
    cases hready
  · rw [hgame]
    exact hlt

section Step

variable {t : PlayingTable} {c : Call} {done : ℕ}

/-- The deal that begins when the players are ready, or when all have passed. -/
theorem Counted.step_newDeal (h : Counted (t, done)) {dealer : Dealer} {t' : PlayingTable}
    (hsame : t.SameGame t') (hrespond : t.respond c = t'.newDeal dealer) (h0 : 0 < t.nbPlayers)
    (hfires : t.Fires c)
    (hseq : t.mEngine.mSequence = .waitForReady ∨ t.mEngine.mSequence = .waitForAllPassed) :
    (InRange (t, done) c → HasTurnsLeft (t, done) c) ∧
      (HasTurnsLeft (t, done) c → InRange (t, done) c ∧
        Counted (observe PlayingTable.apply noteDeals (t, done) c)) := by
  have hnot : t.mEngine.mSequence ≠ .waitForEndOfDeal := by
    rcases hseq with hs | hs
    · rw [hs]
      decide
    · rw [hs]
      decide
  have hflag : (t.respond c).isEndOfDeal = false := by
    rw [hrespond]
    rfl
  have hnb : 0 < t'.nbPlayers := by
    rw [nbPlayers, hsame.mEngine]
    exact h0
  have hroll : (t'.newDeal dealer).table.mGame = t.mGame := by
    rw [newDeal_mGame, hsame.mGame]
  constructor
  · intro hrange _
    refine ⟨fun _ hnil => ?_, fun hend => absurd hend hnot⟩
    have hlt := hrange.1 (.inl (by rw [hrespond]; exact announces_newDeal hnb))
    rw [hrespond, hroll] at hlt
    dsimp only at hnil
    rw [hnil, List.length_nil] at hlt
    exact absurd hlt (Nat.not_lt_zero _)
  · intro hturn
    have hfacts : done < t.mGame.deals.length ∧ done < 256 ∧
        (t.mScore.dealCounter = done ∨
          done = 0 ∧ t.mGame.deals.length ≤ t.mScore.getCurrentCounter) ∧
        t.mScore.mNumberOfTurns = t.mGame.deals.length % 256 := by
      rcases hseq with hs | hs
      · obtain ⟨hzero, hturns, hcount⟩ := h.ready hs
        dsimp only at hzero hturns hcount
        have hpos : 0 < t.mGame.deals.length := List.length_pos_iff.mpr ((hturn hfires).1 hs)
        refine ⟨by omega, by omega, ?_, hturns⟩
        rcases hcount with hcount | hle
        · exact .inl (hcount.trans hzero.symm)
        · exact .inr ⟨hzero, hle⟩
      · obtain ⟨hcount, hdeals, h256, hturns⟩ := h.dealt (by rw [hs]; rfl)
        exact ⟨hdeals, h256, .inl hcount, hturns⟩
    obtain ⟨hdeals, h256, hcount, hturns⟩ := hfacts
    rw [← hsame.mGame] at hdeals hcount hturns
    rw [← hsame.mScore] at hcount hturns
    obtain ⟨hcounted, hlt⟩ := Counted.newDeal dealer hdeals h256 hcount hturns
    refine ⟨⟨fun _ => ?_, fun hend => ?_⟩, ?_⟩
    · rw [hrespond]
      exact hlt
    · rw [hflag] at hend
      exact absurd hend Bool.false_ne_true
    · have hnote : noteDeals t c done = done := by
        have hnew : announces (t.respond c).out (str "NewGame") = false := by
          rw [hrespond]
          exact announces_newDeal_of_ne dealer t' (by decide)
        simp only [noteDeals, hflag, hnew, Bool.false_eq_true, if_false]
      rw [observe, hnote, ← respond_table, hrespond]
      exact hcounted

/-- The points of a deal are added to the score of a game that counts its deals. -/
theorem Counted.addPoints (h : Counted (t, done)) {t' : PlayingTable} (hsame : t.SameGame t')
    (hseq : t.mEngine.mSequence = .waitForEndOfDeal) :
    ∃ score, t'.mScore.addPoints t'.mEngine.getCurrentGamePoints t'.mEngine.mCtx.mBid
        t'.nbPlayers = (decide (done + 1 < t.mGame.deals.length % 256), score) ∧
      score.dealCounter = done + 1 ∧ score.mNumberOfTurns = t.mGame.deals.length % 256 := by
  obtain ⟨hcount, -, h256, hturns⟩ := h.dealt (by rw [hseq]; rfl)
  dsimp only at hcount h256 hturns
  have hnext : (t'.mScore.dealCounter + 1) % 2 ^ 32 = done + 1 := by
    rw [hsame.mScore, hcount]
    exact Nat.mod_eq_of_lt (by omega)
  refine ⟨(t'.mScore.addPoints t'.mEngine.getCurrentGamePoints t'.mEngine.mCtx.mBid
    t'.nbPlayers).2, ?_, hnext, ?_⟩
  · rw [Score.addPoints]
    dsimp only
    rw [hnext, hsame.mScore, hturns]
  · rw [← hturns, ← hsame.mScore]
    rfl

/-- The end of a deal that is not the last one of the game. -/
theorem endOfDeal_newDeal {t : PlayingTable} {score : Score}
    (hadd : t.mScore.addPoints t.mEngine.getCurrentGamePoints t.mEngine.mCtx.mBid t.nbPlayers =
      (true, score)) (dealer : Dealer) :
    t.endOfDeal dealer = ({ t with mScore := score } : PlayingTable).newDeal dealer := by
  rw [endOfDeal, hadd]
  simp only [if_true]

/-- The end of the last deal of a game. -/
theorem endOfDeal_endOfGame {t : PlayingTable} {score : Score}
    (hadd : t.mScore.addPoints t.mEngine.getCurrentGamePoints t.mEngine.mCtx.mBid t.nbPlayers =
      (false, score)) (dealer : Dealer) :
    t.endOfDeal dealer =
      { table := { t with mScore := score, mEngine := t.mEngine.newGame }
        out := ({ t with mScore := score, mEngine := t.mEngine.newGame } :
          PlayingTable).sendToAllPlayers (JsonObject.ofList
            [(str "cmd", .string (str "EndOfGame")),
             (str "winner", .string score.getWinner.toString)]) } := by
  rw [endOfDeal, hadd]
  simp only [Bool.false_eq_true, if_false]

/-- The end of a deal with the next deal of the game behind it. -/
theorem Counted.step_nextDeal (h : Counted (t, done)) {dealer : Dealer} {t' : PlayingTable}
    {score : Score} (hsame : t.SameGame t')
    (hrespond : t.respond c = { ({ t' with mScore := score } : PlayingTable).newDeal dealer with
      isEndOfDeal := true })
    (hdone : score.dealCounter = done + 1)
    (hturns : score.mNumberOfTurns = t.mGame.deals.length % 256)
    (hfires : t.Fires c) (hseq : t.mEngine.mSequence = .waitForEndOfDeal)
    (hmore : done + 1 < t.mGame.deals.length % 256) :
    (InRange (t, done) c → HasTurnsLeft (t, done) c) ∧
      (HasTurnsLeft (t, done) c → InRange (t, done) c ∧
        Counted (observe PlayingTable.apply noteDeals (t, done) c)) := by
  obtain ⟨hcount, -, -, -⟩ := h.dealt (by rw [hseq]; rfl)
  dsimp only at hcount
  have hnot : t.mEngine.mSequence ≠ .waitForReady := by
    rw [hseq]
    decide
  have hflag : (t.respond c).isEndOfDeal = true := by
    rw [hrespond]
  have hmod : t.mGame.deals.length % 256 < 256 := Nat.mod_lt _ (by decide)
  have hle : t.mGame.deals.length % 256 ≤ t.mGame.deals.length := Nat.mod_le _ _
  have hgame : ({ t' with mScore := score } : PlayingTable).mGame = t.mGame := hsame.mGame
  have hdeals : done + 1 < ({ t' with mScore := score } : PlayingTable).mGame.deals.length := by
    rw [hgame]
    omega
  obtain ⟨hcounted, hlt⟩ := Counted.newDeal (t := { t' with mScore := score }) dealer hdeals
    (by omega) (.inl hdone) (by rw [hgame]; exact hturns)
  have hquiet : announces (t.respond c).out (str "EndOfGame") = false := by
    rw [hrespond]
    exact announces_newDeal_of_ne dealer _ (by decide)
  have hnote : noteDeals t c done = done + 1 := by
    simp only [noteDeals, hflag, hquiet, if_true, Bool.false_eq_true, if_false]
  constructor
  · intro hrange _
    exact ⟨fun hready => absurd hready hnot, fun _ => ⟨hcount ▸ (hrange.2 hflag).1, .inr hmore⟩⟩
  · intro hturn
    refine ⟨⟨fun _ => ?_, fun _ => ⟨?_, ?_⟩⟩, ?_⟩
    · rw [hrespond]
      exact hlt
    · exact hcount.symm ▸ ((hturn hfires).2 hseq).1
    · rw [hquiet]
      dsimp only
      exact iff_of_false Bool.false_ne_true (by omega)
    · rw [observe, hnote, ← respond_table, hrespond]
      exact hcounted

/-- The end of a deal with the end of the game behind it. -/
theorem Counted.step_endOfGame (h : Counted (t, done)) {dealer : Dealer} {t' : PlayingTable}
    {score : Score} (hsame : t.SameGame t')
    (hadd : t'.mScore.addPoints t'.mEngine.getCurrentGamePoints t'.mEngine.mCtx.mBid t'.nbPlayers =
      (false, score))
    (hrespond : t.respond c = { t'.endOfDeal dealer with isEndOfDeal := true })
    (hdone : score.dealCounter = done + 1)
    (hturns : score.mNumberOfTurns = t.mGame.deals.length % 256)
    (hfires : t.Fires c) (hseq : t.mEngine.mSequence = .waitForEndOfDeal)
    (hmore : ¬ done + 1 < t.mGame.deals.length % 256) :
    (InRange (t, done) c → HasTurnsLeft (t, done) c) ∧
      (HasTurnsLeft (t, done) c → InRange (t, done) c ∧
        Counted (observe PlayingTable.apply noteDeals (t, done) c)) := by
  obtain ⟨hcount, hdeals, -, -⟩ := h.dealt (by rw [hseq]; rfl)
  dsimp only at hcount hdeals
  have hnot : t.mEngine.mSequence ≠ .waitForReady := by
    rw [hseq]
    decide
  have hflag : (t.respond c).isEndOfDeal = true := by
    rw [hrespond]
  have hmod : t.mGame.deals.length % 256 < 256 := Nat.mod_lt _ (by decide)
  have hover := endOfDeal_endOfGame hadd dealer
  have hannounced : ∀ cmd, announces (t.respond c).out cmd = decide (str "EndOfGame" = cmd) := by
    intro cmd
    rw [hrespond, hover]
    exact announces_singleton _ _ cmd
  have hend : announces (t.respond c).out (str "EndOfGame") = true := by
    rw [hannounced]
    decide
  have hnote : noteDeals t c done = 0 := by
    simp only [noteDeals, hflag, hend, if_true]
  constructor
  · intro hrange _
    obtain ⟨hroom, hlast⟩ := hrange.2 hflag
    have hlast' := hlast.mp hend
    dsimp only at hroom hlast'
    rw [maxNumberOfTurns] at hroom
    refine ⟨fun hready => absurd hready hnot, fun _ => ⟨?_, .inl ?_⟩⟩
    · rw [maxNumberOfTurns]
      omega
    · dsimp only
      omega
  · intro hturn
    obtain ⟨hroom, hshort⟩ := (hturn hfires).2 hseq
    dsimp only at hroom hshort
    have hshort' : t.mGame.deals.length < 256 := hshort.resolve_right hmore
    have hself : t.mGame.deals.length % 256 = t.mGame.deals.length := Nat.mod_eq_of_lt hshort'
    have hlast : done + 1 = t.mGame.deals.length := by omega
    refine ⟨⟨fun hnewDeal => ?_, fun _ => ⟨hcount.symm ▸ hroom, fun _ => hlast, fun _ => hend⟩⟩, ?_⟩
    · rw [hannounced, hannounced] at hnewDeal
      exact absurd hnewDeal (by decide)
    · rw [observe, hnote, ← respond_table, hrespond, hover]
      refine ⟨fun hdealt => absurd hdealt Bool.false_ne_true, fun _ => ⟨rfl, ?_, .inr ?_⟩⟩
      · dsimp only
        rw [hsame.mGame]
        exact hturns
      · dsimp only
        rw [hsame.mGame, Score.getCurrentCounter, hdone, hlast, hself]

/-- The end of a deal, with the next deal of the game or the end of the game behind it. -/
theorem Counted.step_endOfDeal (h : Counted (t, done)) {dealer : Dealer} {t' : PlayingTable}
    (hsame : t.SameGame t')
    (hrespond : t.respond c = { t'.endOfDeal dealer with isEndOfDeal := true })
    (hfires : t.Fires c) (hseq : t.mEngine.mSequence = .waitForEndOfDeal) :
    (InRange (t, done) c → HasTurnsLeft (t, done) c) ∧
      (HasTurnsLeft (t, done) c → InRange (t, done) c ∧
        Counted (observe PlayingTable.apply noteDeals (t, done) c)) := by
  obtain ⟨score, hadd, hdone, hturns⟩ := h.addPoints hsame hseq
  by_cases hmore : done + 1 < t.mGame.deals.length % 256
  · rw [decide_eq_true hmore] at hadd
    rw [endOfDeal_newDeal hadd] at hrespond
    exact h.step_nextDeal hsame hrespond hdone hturns hfires hseq hmore
  · rw [decide_eq_false hmore] at hadd
    exact h.step_endOfGame hsame hadd hrespond hdone hturns hfires hseq hmore

/-- Behind the last acknowledgement of the players that are ready, or of the end of a deal, the
bookkeeping goes on. -/
theorem Open.not_fires {t : PlayingTable} (ht : t.Open) {c : Call}
    (hdeal : announces (t.respond c).out (str "NewDeal") = false)
    (hend : (t.respond c).isEndOfDeal = false) (hfires : t.Fires c) :
    t.mEngine.mSequence ≠ .waitForReady ∧ t.mEngine.mSequence ≠ .waitForEndOfDeal := by
  obtain ⟨dealer, hrespond, h0⟩ := ht.respond_of_fires hfires
  constructor
  · intro hseq
    rw [hrespond, hseq] at hdeal
    have hnew : announces (t.resetAck.allSynced dealer .waitForReady).out (str "NewDeal") = true :=
      announces_newDeal (t := t.resetAck) h0
    rw [hnew] at hdeal
    cases hdeal
  · intro hseq
    rw [hrespond, hseq] at hend
    cases hend

theorem Counted.step_quiet (h : Counted (t, done)) (ht : t.Open) (hquiet : t.Quiet (t.respond c))
    (hr : (t.action c).isRestart = false) :
    HasTurnsLeft (t, done) c ∧ InRange (t, done) c ∧
      Counted (observe PlayingTable.apply noteDeals (t, done) c) := by
  have hnote : noteDeals t c done = done := by
    simp only [noteDeals, hquiet.isEndOfDeal, hquiet.newGame, Bool.false_eq_true, if_false]
  have hscore : (t.apply c).mScore = t.mScore := by
    rw [← respond_table]
    exact hquiet.mScore
  have hgame : (t.apply c).mGame = t.mGame := by
    rw [← respond_table]
    exact hquiet.mGame
  have hcounted : Counted (t.apply c, done) := by
    have hmove := Engine.act_isDealt (ht.action_enabled c) hr
    rw [← apply_mEngine] at hmove
    constructor
    · intro hdealt
      dsimp only at hdealt ⊢
      rw [hscore, hgame]
      rcases hmove with hseq | ⟨-, hdealt'⟩
      · exact h.dealt (hseq ▸ hdealt)
      · exact h.dealt hdealt'
    · intro hready
      dsimp only at hready ⊢
      rw [hscore, hgame]
      rcases hmove with hseq | ⟨hdealt, -⟩
      · exact h.ready (hseq ▸ hready)
      · rw [hready] at hdealt
        exact absurd hdealt Bool.false_ne_true
  refine ⟨fun hfires => ?_, ⟨?_, ?_⟩, ?_⟩
  · obtain ⟨hready, hend⟩ := ht.not_fires hquiet.newDeal hquiet.isEndOfDeal hfires
    exact ⟨fun hs => absurd hs hready, fun hs => absurd hs hend⟩
  · rintro (hdeal | hstart)
    · rw [hquiet.newDeal] at hdeal
      exact absurd hdeal Bool.false_ne_true
    · have hdealt := hquiet.dealt hstart
      dsimp only
      rw [respond_table] at hdealt ⊢
      obtain ⟨hcount, hdeals, h256, -⟩ := hcounted.dealt hdealt
      dsimp only at hcount hdeals h256
      rw [Score.getCurrentCounter, hcount, Nat.mod_eq_of_lt h256]
      exact hdeals
  · intro hend
    rw [hquiet.isEndOfDeal] at hend
    exact absurd hend Bool.false_ne_true
  · rw [observe, hnote]
    exact hcounted

theorem counted_step_newGame (done : ℕ) (ht : t.Open) {t' : PlayingTable}
    (hrespond : t.respond c = t'.newGame) :
    HasTurnsLeft (t, done) c ∧ InRange (t, done) c ∧
      Counted (observe PlayingTable.apply noteDeals (t, done) c) := by
  have hannounced : ∀ cmd, announces (t.respond c).out cmd = decide (str "NewGame" = cmd) := by
    intro cmd
    rw [hrespond]
    exact announces_singleton _ _ cmd
  have hflag : (t.respond c).isEndOfDeal = false := by
    rw [hrespond]
    rfl
  have hnote : noteDeals t c done = 0 := by
    have hnew : announces (t.respond c).out (str "NewGame") = true := by
      rw [hannounced]
      decide
    simp only [noteDeals, hflag, hnew, Bool.false_eq_true, if_false, if_true]
  refine ⟨fun hfires => ?_, ⟨?_, ?_⟩, ?_⟩
  · have hdeal : announces (t.respond c).out (str "NewDeal") = false := by
      rw [hannounced]
      decide
    obtain ⟨hready, hend⟩ := ht.not_fires hdeal hflag hfires
    exact ⟨fun hs => absurd hs hready, fun hs => absurd hs hend⟩
  · intro hdeal
    rw [hannounced, hannounced] at hdeal
    exact absurd hdeal (by decide)
  · intro hend
    rw [hflag] at hend
    exact absurd hend Bool.false_ne_true
  · rw [observe, hnote, ← respond_table, hrespond]
    exact ⟨fun hdealt => absurd hdealt Bool.false_ne_true, fun _ => ⟨rfl, rfl, .inl rfl⟩⟩

/-- What one call does to the bookkeeping, whichever it is. -/
theorem Counted.step (h : Counted (t, done)) (ht : t.Open) (c : Call) :
    (InRange (t, done) c ↔ HasTurnsLeft (t, done) c) ∧
      (InRange (t, done) c → Counted (observe PlayingTable.apply noteDeals (t, done) c)) := by
  have hturn := ht.turn c
  generalize hr : t.respond c = r at hturn
  generalize ha : t.action c = a at hturn
  cases hturn with
  | quiet _ _ hquiet hrestart =>
    obtain ⟨hleft, hrange, hcounted⟩ := h.step_quiet ht (hr ▸ hquiet) (ha ▸ hrestart)
    exact ⟨iff_of_true hrange hleft, fun _ => hcounted⟩
  | newGame t' hgame =>
    obtain ⟨hleft, hrange, hcounted⟩ := counted_step_newGame done ht hr
    exact ⟨iff_of_true hrange hleft, fun _ => hcounted⟩
  | newDeal dealer t' hsame deal hfires hseq =>
    obtain ⟨-, -, h0⟩ := ht.respond_of_fires hfires
    obtain ⟨hleft, hrest⟩ := h.step_newDeal hsame hr h0 hfires hseq
    exact ⟨⟨hleft, fun hl => (hrest hl).1⟩, fun hrange => (hrest (hleft hrange)).2⟩
  | endOfDeal dealer t' hsame _ hfires hseq =>
    obtain ⟨hleft, hrest⟩ := h.step_endOfDeal hsame hr hfires hseq
    exact ⟨⟨hleft, fun hl => (hrest hl).1⟩, fun hrange => (hrest (hleft hrange)).2⟩

end Step

/-- The score has room for the game. -/
def ShortGame (t : PlayingTable) : Prop :=
  1 ≤ t.mGame.deals.length ∧ t.mGame.deals.length ≤ maxNumberOfTurns

/-- If the request is one for a new game and comes from the admin, the score has room for it. -/
def AsksShortGame (t : PlayingTable) : Call → Prop
  | .executeRequest _ srcUuid json =>
    (json.findValue (str "cmd")).getString = str "RequestNewGame" → srcUuid = t.mAdmin →
      1 ≤ (json.findValue (str "deals")).getArray.length ∧
        (json.findValue (str "deals")).getArray.length ≤ maxNumberOfTurns
  | _ => True

theorem ShortGame.step {t : PlayingTable} (h : t.ShortGame) (ht : t.Open) {c : Call}
    (hc : t.AsksShortGame c) : (t.apply c).ShortGame := by
  have hturn := ht.turn c
  have hkeep : ∀ t' : PlayingTable, t'.mGame = t.mGame → t'.ShortGame := by
    intro t' hgame
    rw [ShortGame, hgame]
    exact h
  rw [← respond_table]
  generalize t.respond c = r at hturn
  generalize t.action c = a at hturn
  cases hturn with
  | quiet _ _ hquiet _ => exact hkeep _ hquiet.mGame
  | newGame t' hgame =>
    rcases hgame with hgame | ⟨dealer, json, rfl, hcmd, hlength⟩
    · exact hkeep _ hgame
    · have hshort := hc hcmd rfl
      rw [← hlength] at hshort
      exact hshort
  | newDeal dealer t' hsame _ _ _ => exact hkeep _ ((newDeal_mGame dealer t').trans hsame.mGame)
  | endOfDeal dealer t' hsame _ _ _ =>
    refine hkeep _ (Eq.trans ?_ hsame.mGame)
    simp only [endOfDeal]
    split_ifs
    · exact newDeal_mGame dealer _
    · rfl

theorem ShortGame.hasTurnsLeft {t : PlayingTable} {done : ℕ} (h : t.ShortGame)
    (hcounted : Counted (t, done)) (c : Call) : HasTurnsLeft (t, done) c := by
  obtain ⟨hpos, hle⟩ := h
  intro hfires
  refine ⟨fun _ => List.length_pos_iff.mp hpos, fun hseq => ?_⟩
  obtain ⟨-, hdeals, -, -⟩ := hcounted.dealt (by rw [hseq]; rfl)
  dsimp only at hdeals ⊢
  refine ⟨by omega, .inl ?_⟩
  rw [maxNumberOfTurns] at hle
  omega

/-- In a run every access to the deals and to the score is in range and every game ends with its
last deal, if and only if no game without deals begins and no deal ends for which the score has no
turn; and this is so whenever all games have between one and forty deals. -/
theorem bookkeeping_iff (t : PlayingTable) {n : ℕ} (hn : n ≤ 5) (randomPlace : Place)
    (calls : List Call) :
    (Guarded (observe PlayingTable.apply noteDeals) InRange (t.createTable n randomPlace, 0) calls ↔
      Guarded (observe PlayingTable.apply noteDeals) HasTurnsLeft
        (t.createTable n randomPlace, 0) calls) ∧
    (t.ShortGame → Guarded PlayingTable.apply AsksShortGame (t.createTable n randomPlace) calls →
      Guarded (observe PlayingTable.apply noteDeals) HasTurnsLeft
        (t.createTable n randomPlace, 0) calls) := by
  have hopen : (t.createTable n randomPlace).Open := (createTable_barrier t randomPlace hn).toOpen
  have hcounted : Counted (t.createTable n randomPlace, 0) :=
    ⟨fun hdealt => absurd hdealt Bool.false_ne_true, fun hready => by cases hready⟩
  constructor
  · refine guarded_congr (fun p : PlayingTable × ℕ => p.1.Open ∧ Counted p) ?_ ?_ ⟨hopen, hcounted⟩
      calls
    · rintro ⟨t, done⟩ c ⟨ht, h⟩
      exact (h.step ht c).1
    · rintro ⟨t, done⟩ c ⟨ht, h⟩ hrange
      exact ⟨ht.apply c, (h.step ht c).2 hrange⟩
  · intro hshort hasks
    refine Guarded.strengthen
      (fun p : PlayingTable × ℕ => (p.1.Open ∧ Counted p) ∧ p.1.ShortGame) ?_ ?_
      ⟨⟨hopen, hcounted⟩, hshort⟩ (guarded_observe noteDeals hasks)
    · rintro ⟨t, done⟩ c ⟨⟨ht, h⟩, hshort⟩ hc
      have hrange := (h.step ht c).1.mpr (hshort.hasTurnsLeft h c)
      exact ⟨⟨ht.apply c, (h.step ht c).2 hrange⟩, hshort.step ht hc⟩
    · rintro ⟨t, done⟩ c ⟨⟨ht, h⟩, hshort⟩ -
      exact hshort.hasTurnsLeft h c

instance (t : PlayingTable) : DecidablePred t.AsksShortGame
  | .executeRequest _ _ _ => inferInstanceAs (Decidable (_ → _ → _ ∧ _))
  | .addPlayer _ | .removePlayer _ => isTrue trivial

/-- Three players sit down, and then they are ready. -/
def readyCalls : List Call :=
  [.addPlayer 7, .addPlayer 8, .addPlayer 9] ++ everyone plainDealer [7, 8, 9] .waitForPlayers ++
    everyone plainDealer [7, 8, 9] .waitForReady

theorem bookkeeping_iff_ready :
    (run PlayingTable.apply (({} : PlayingTable).createTable 3 .south) readyCalls).mEngine.mSequence =
        .waitForCards ∧
      Guarded (observe PlayingTable.apply noteDeals) InRange
        (({} : PlayingTable).createTable 3 .south, 0) readyCalls := by
  have hiff := bookkeeping_iff {} (show 3 ≤ 5 by decide) .south readyCalls
  refine ⟨by decide +kernel, hiff.1.mpr (hiff.2 ⟨by decide, by decide⟩ ?_)⟩
  decide +kernel

/-- The admin asks for a game without deals, and two of the three players are ready for it. -/
def emptyGameCalls : List Call :=
  [.addPlayer 7, .addPlayer 8, .addPlayer 9,
    .executeRequest plainDealer 7 (.object (JsonObject.ofList
      [(str "cmd", .string (str "RequestNewGame")), (str "mode", .string (str "Custom")),
       (str "deals", .array [])]))] ++
    everyone plainDealer [7, 8] .waitForReady

/-- The first deal of a game without deals is begun. -/
theorem empty_game_out_of_range :
    ¬ ∀ calls, Guarded (observe PlayingTable.apply noteDeals) InRange
      (({} : PlayingTable).createTable 3 .south, 0) calls := by
  intro h
  have hrun := h (emptyGameCalls ++
    [.executeRequest plainDealer 9 (PlayerContext.sync .waitForReady)])
  rw [guarded_append] at hrun
  obtain ⟨-, ⟨hrange, -⟩, -⟩ := hrun
  rw [run_observe_fst] at hrange
  have hnew : announces ((run PlayingTable.apply (({} : PlayingTable).createTable 3 .south)
      emptyGameCalls).respond (.executeRequest plainDealer 9
        (PlayerContext.sync .waitForReady))).out (str "NewDeal") = true := by
    decide +kernel
  have hnone : ((run PlayingTable.apply (({} : PlayingTable).createTable 3 .south)
      emptyGameCalls).respond (.executeRequest plainDealer 9
        (PlayerContext.sync .waitForReady))).table.mGame.deals.length = 0 := by
    decide +kernel
  have hlt := hrange (.inl hnew)
  rw [hnone] at hlt
  exact absurd hlt (Nat.not_lt_zero _)

end PlayingTable

end TarotClub
