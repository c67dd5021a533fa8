import TarotClub.TableRun

namespace TarotClub

open Machine

/-- The steps that players acknowledge. -/
def Sequence.isAcked (seq : Sequence) : Bool := ackList.any fun a => a.2 = seq

theorem isAcked_ackFromString {step : Str} (h : ackFromString step ≠ .badStep) :
    (ackFromString step).isAcked = true := by
  unfold ackFromString at h ⊢
  cases hf : ackList.find? fun a => a.1 = step with
  | none => simp [hf] at h
  | some a =>
    have ha : a ∈ ackList := List.mem_of_find?_eq_some hf
    simpa [hf, Sequence.isAcked] using ⟨a.1, ha⟩

namespace PlayingTable

@[simp] theorem noteAck_mEngine (t : PlayingTable) (seq : Sequence) (uuid : ℕ) :
    (t.noteAck seq uuid).mEngine = t.mEngine := rfl

@[simp] theorem noteAck_nbPlayers (t : PlayingTable) (seq : Sequence) (uuid : ℕ) :
    (t.noteAck seq uuid).nbPlayers = t.nbPlayers := rfl

theorem noteAck_uuid (t : PlayingTable) (seq : Sequence) (uuid i : ℕ) :
    ((t.noteAck seq uuid).mPlayers i).uuid = (t.mPlayers i).uuid := by
  simp only [noteAck]
  split_ifs <;> rfl

theorem noteAck_ack (t : PlayingTable) (seq : Sequence) (uuid i : ℕ) :
    ((t.noteAck seq uuid).mPlayers i).ack = true ↔ (t.mPlayers i).ack = true ∨
      i < t.nbPlayers ∧ (t.mPlayers i).uuid = uuid ∧ t.mEngine.mSequence = seq := by
  simp only [noteAck]
  split_ifs with h <;> simp [h]

theorem resetAck_uuid (t : PlayingTable) (i : ℕ) :
    (t.resetAck.mPlayers i).uuid = (t.mPlayers i).uuid := by
  simp only [resetAck]
  split_ifs <;> rfl

theorem resetAck_ack (t : PlayingTable) {i : ℕ} (hi : i < t.nbPlayers) :
    (t.resetAck.mPlayers i).ack = false := by
  simp only [resetAck, if_pos hi]

@[simp] theorem resetAck_resetAck (t : PlayingTable) : t.resetAck.resetAck = t.resetAck := by
  have h : (fun i => if i < t.nbPlayers then { t.resetAck.mPlayers i with ack := false }
      else t.resetAck.mPlayers i) = t.resetAck.mPlayers := by
    funext i
    simp only [resetAck]
    split_ifs <;> rfl
  rw [resetAck, show t.resetAck.nbPlayers = t.nbPlayers from rfl, h]

theorem resetAck_noteAck (t : PlayingTable) (seq : Sequence) (uuid : ℕ) :
    (t.noteAck seq uuid).resetAck = t.resetAck := by
  have h : (fun i => if i < t.nbPlayers then
        { (t.noteAck seq uuid).mPlayers i with ack := false }
      else (t.noteAck seq uuid).mPlayers i) = t.resetAck.mPlayers := by
    funext i
    simp only [resetAck, noteAck]
    split_ifs <;> simp_all
  rw [resetAck, noteAck_nbPlayers, h]
  rfl

theorem ackFromAllPlayers_fst (t : PlayingTable) :
    t.ackFromAllPlayers.1 = true ↔ ∀ i < t.nbPlayers, (t.mPlayers i).ack = true := by
  have hc := List.countP_eq_length (p := fun i => (t.mPlayers i).ack)
    (l := List.range t.nbPlayers)
  rw [List.length_range] at hc
  simp only [List.mem_range] at hc
  unfold ackFromAllPlayers
  split_ifs with h
  · simpa using hc.mp h
  · simpa using mt hc.mpr h

theorem sync_fst (t : PlayingTable) (seq : Sequence) (uuid : ℕ) :
    (t.sync seq uuid).1 = true ↔ ∀ i < t.nbPlayers, (t.mPlayers i).ack = true ∨
      (t.mPlayers i).uuid = uuid ∧ t.mEngine.mSequence = seq := by
  rw [sync, ackFromAllPlayers_fst, noteAck_nbPlayers]
  refine forall₂_congr fun i hi => ?_
  simp only [noteAck_ack, hi, true_and]

/-- When it reports that everybody is there it lowers all flags. -/
theorem sync_of_fst {t : PlayingTable} {seq : Sequence} {uuid : ℕ}
    (h : (t.sync seq uuid).1 = true) : (t.sync seq uuid).2 = t.resetAck := by
  unfold sync ackFromAllPlayers at h ⊢
  split_ifs at h ⊢
  exact resetAck_noteAck t seq uuid

theorem sync_of_not_fst {t : PlayingTable} {seq : Sequence} {uuid : ℕ}
    (h : (t.sync seq uuid).1 = false) : (t.sync seq uuid).2 = t.noteAck seq uuid := by
  unfold sync ackFromAllPlayers at h ⊢
  split_ifs at h ⊢
  rfl

/-! The flags behind the functions that execute a request. -/

theorem sendNextBidSequence_mPlayers (t : PlayingTable) :
    t.sendNextBidSequence.table.mPlayers = t.mPlayers := by
  unfold sendNextBidSequence
  split <;> rfl

theorem gameSequence_mPlayers (t : PlayingTable) :
    t.gameSequence.table.mPlayers = t.mPlayers := by
  cases h : t.mEngine.gameSequence.isLastTrick
  · simp only [gameSequence, h, Bool.false_eq_true, if_false]
    split <;> rfl
  · simp only [gameSequence, h, if_true]

@[simp] theorem rollover_mPlayers (t : PlayingTable) : t.rollover.mPlayers = t.mPlayers := by
  unfold rollover
  split_ifs <;> rfl

theorem endOfDeal_mPlayers (dealer : Dealer) (t : PlayingTable) :
    (t.endOfDeal dealer).table.mPlayers = t.mPlayers := by
  simp only [endOfDeal]
  split_ifs
  · simp only [newDeal, rollover_mPlayers]
  · rfl

/-- What follows the last acknowledgement finds all flags down and leaves them so. -/
theorem allSynced_mPlayers (dealer : Dealer) (t : PlayingTable) (seq : Sequence) :
    (t.resetAck.allSynced dealer seq).table.mPlayers = t.resetAck.mPlayers := by
  cases seq <;> try rfl
  case waitForPlayers =>
    simp only [allSynced]
    split_ifs
    · rfl
    · change t.resetAck.resetAck.mPlayers = t.resetAck.mPlayers
      rw [resetAck_resetAck]
  case waitForReady | waitForAllPassed => exact rollover_mPlayers _
  case waitForCards | waitForShowBid | waitForShowKingCall =>
    exact sendNextBidSequence_mPlayers _
  case waitForStartDeal | waitForShowHandle | waitForShowCard | waitForEndOfTrick =>
    exact gameSequence_mPlayers _
  case waitForEndOfDeal => exact endOfDeal_mPlayers dealer _

/-- The request acknowledges this step. -/
def IsAck (json : JsonValue) (step : Sequence) : Prop :=
  (json.findValue (str "cmd")).getString = str "Ack" ∧
    ackFromString (json.findValue (str "step")).getString = step

/-- What a request can do to the seats: leave them, lower all flags, or note an
acknowledgement that does not complete the step. The engine only moves on when the flags are
lowered or when its step is not one that is acknowledged. -/
inductive FlagsAfter (t : PlayingTable) (srcUuid : ℕ) (json : JsonValue) :
    Engine.Action → (ℕ → Challenger) → Prop
  | kept (a : Engine.Action) (h : a = .stay ∨ t.mEngine.mSequence.isAcked = false) :
      FlagsAfter t srcUuid json a t.mPlayers
  | lowered (a : Engine.Action) : FlagsAfter t srcUuid json a t.resetAck.mPlayers
  | noted (step : Sequence) (hack : IsAck json step) (hstep : step.isAcked = true)
      (h : (t.sync step srcUuid).1 = false) :
      FlagsAfter t srcUuid json .stay (t.noteAck step srcUuid).mPlayers

theorem executeAck_flags (dealer : Dealer) (t : PlayingTable) (srcUuid : ℕ) (json : JsonValue)
    (hcmd : (json.findValue (str "cmd")).getString = str "Ack") :
    FlagsAfter t srcUuid json (t.ackAction dealer srcUuid json)
      (t.executeAck dealer srcUuid json).table.mPlayers := by
  unfold executeAck ackAction
  by_cases hp : t.getPlayerPlace srcUuid ≠ .nowhere
  · by_cases hs : ackFromString (json.findValue (str "step")).getString = .badStep
    · simpa [hp, hs] using FlagsAfter.kept .stay (.inl rfl)
    · cases hf : (t.sync (ackFromString (json.findValue (str "step")).getString) srcUuid).1
      · simpa [hp, hs, hf, sync_of_not_fst hf] using
          FlagsAfter.noted _ ⟨hcmd, rfl⟩ (isAcked_ackFromString hs) hf
      · simpa [hp, hs, hf, sync_of_fst hf, allSynced_mPlayers] using FlagsAfter.lowered _
  · simpa [hp] using FlagsAfter.kept .stay (.inl rfl)

theorem executeNewGame_flags (t : PlayingTable) (srcUuid : ℕ) (json : JsonValue) :
    FlagsAfter t srcUuid json (if srcUuid = t.mAdmin then .newGame else .stay)
      (t.executeNewGame srcUuid json).table.mPlayers := by
  unfold executeNewGame
  split_ifs
  · exact .lowered _
  · exact .kept _ (.inl rfl)

theorem executeReplyBid_flags (t : PlayingTable) (srcUuid : ℕ) (json : JsonValue) :
    FlagsAfter t srcUuid json (t.bidAction srcUuid json)
      (t.executeReplyBid srcUuid json).table.mPlayers := by
  simp only [executeReplyBid, bidAction]
  split_ifs with h
  · exact .kept _ (.inr (by rw [h.2.2]; decide))
  · exact .kept _ (.inl rfl)

theorem executeDiscard_flags (t : PlayingTable) (srcUuid : ℕ) (json : JsonValue) :
    FlagsAfter t srcUuid json (t.discardAction srcUuid json)
      (t.executeDiscard srcUuid json).table.mPlayers := by
  have hm : (t.executeDiscard srcUuid json).table.mPlayers = t.mPlayers := by
    simp only [executeDiscard]
    split_ifs <;> rfl
  rw [hm]
  simp only [discardAction]
  split_ifs with h
  · exact .kept _ (.inr (by rw [h.1]; decide))
  · exact .kept _ (.inl rfl)

theorem executeReplyKingCall_flags (t : PlayingTable) (srcUuid : ℕ) (json : JsonValue) :
    FlagsAfter t srcUuid json (t.kingCallAction srcUuid json)
      (t.executeReplyKingCall srcUuid json).table.mPlayers := by
  have hm : (t.executeReplyKingCall srcUuid json).table.mPlayers = t.mPlayers ∨
      (t.executeReplyKingCall srcUuid json).table.mPlayers = t.resetAck.mPlayers := by
    simp only [executeReplyKingCall, Engine.setKingCalled]
    split_ifs <;> first | exact .inl rfl | exact .inr rfl
  rcases hm with hm | hm <;> rw [hm]
  · simp only [kingCallAction]
    split_ifs with h
    · exact .kept _ (.inr (by rw [h.1]; decide))
    · exact .kept _ (.inl rfl)
  · exact .lowered _

theorem executeHandle_flags (t : PlayingTable) (srcUuid : ℕ) (json : JsonValue) :
    FlagsAfter t srcUuid json (t.handleAction srcUuid json)
      (t.executeHandle srcUuid json).table.mPlayers := by
  have hm : (t.executeHandle srcUuid json).table.mPlayers = t.mPlayers := by
    simp only [executeHandle]
    split_ifs
    exacts [rfl, gameSequence_mPlayers _, rfl]
  rw [hm]
  simp only [handleAction]
  split_ifs with h
  · exact .kept _ (.inr (by rw [h.1]; decide))
  · exact .kept _ (.inr (by rw [h.1]; decide))
  · exact .kept _ (.inl rfl)

theorem executeCard_flags (t : PlayingTable) (srcUuid : ℕ) (json : JsonValue) :
    FlagsAfter t srcUuid json (t.cardAction srcUuid json)
      (t.executeCard srcUuid json).table.mPlayers := by
  have hm : (t.executeCard srcUuid json).table.mPlayers = t.mPlayers := by
    simp only [executeCard]
    split_ifs <;> rfl
  rw [hm]
  simp only [cardAction]
  split_ifs with h
  · exact .kept _ (.inr (by rw [h.2.1]; decide))
  · exact .kept _ (.inl rfl)

theorem executeRequest_flags (dealer : Dealer) (t : PlayingTable) (srcUuid : ℕ)
    (json : JsonValue) :
    FlagsAfter t srcUuid json (t.requestAction dealer srcUuid json)
      (t.executeRequest dealer srcUuid json).table.mPlayers :=
  request_cases (R := fun r a => FlagsAfter t srcUuid json a r.table.mPlayers) dealer t srcUuid
    json (.kept _ (.inl rfl)) (executeAck_flags dealer t srcUuid json)
    (fun _ => executeNewGame_flags t srcUuid json)
    (fun _ => executeReplyBid_flags t srcUuid json)
    (fun _ => executeDiscard_flags t srcUuid json)
    (fun _ => executeReplyKingCall_flags t srcUuid json)
    (fun _ => executeHandle_flags t srcUuid json) (fun _ => executeCard_flags t srcUuid json)

theorem executeRequest_uuid (dealer : Dealer) (t : PlayingTable) (srcUuid : ℕ)
    (json : JsonValue) (i : ℕ) :
    ((t.executeRequest dealer srcUuid json).table.mPlayers i).uuid = (t.mPlayers i).uuid := by
  have hf := executeRequest_flags dealer t srcUuid json
  generalize t.requestAction dealer srcUuid json = a at hf
  generalize (t.executeRequest dealer srcUuid json).table.mPlayers = m at hf ⊢
  cases hf with
  | kept _ _ => rfl
  | lowered _ => exact resetAck_uuid t i
  | noted step _ _ _ => exact noteAck_uuid t step srcUuid i

/-! Some flag is always down, so the step that all players are found to have acknowledged is
the current one. -/

/-- A table with seats has one whose flag is down. -/
structure Open (t : PlayingTable) : Prop where
  seats : t.nbPlayers ≤ 5
  down : 0 < t.nbPlayers → ∃ i < t.nbPlayers, (t.mPlayers i).ack = false

theorem apply_nbPlayers (t : PlayingTable) (c : Call) : (t.apply c).nbPlayers = t.nbPlayers := by
  rw [nbPlayers, apply_mEngine, Engine.act_mNbPlayers]
  rfl

theorem addPlayer_ack (t : PlayingTable) (uuid i : ℕ) :
    ((t.addPlayer uuid).2.mPlayers i).ack = (t.mPlayers i).ack := by
  simp only [addPlayer]
  split_ifs
  all_goals first
    | rfl
    | by_cases hi : i = t.freePlace.value <;> simp [Function.update, hi]

theorem removePlayer_mPlayers (t : PlayingTable) (kickedPlayer i : ℕ) :
    (t.removePlayer kickedPlayer).mPlayers i = t.mPlayers i ∨
      (t.removePlayer kickedPlayer).mPlayers i = {} ∧ (t.mPlayers i).uuid = kickedPlayer := by
  by_cases hp : t.getPlayerPlace kickedPlayer ≠ .nowhere
  · rw [removePlayer, if_pos hp]
    by_cases h : i < t.nbPlayers ∧ (t.mPlayers i).uuid = kickedPlayer
    · exact .inr ⟨if_pos h, h.2⟩
    · exact .inl (if_neg h)
  · rw [removePlayer, if_neg hp]
    exact .inl rfl

theorem Open.apply {t : PlayingTable} (ht : t.Open) (c : Call) : (t.apply c).Open := by
  refine ⟨(apply_nbPlayers t c).symm ▸ ht.seats, fun h0 => ?_⟩
  rw [apply_nbPlayers] at h0 ⊢
  obtain ⟨i, hi, hdown⟩ := ht.down h0
  cases c with
  | addPlayer uuid => exact ⟨i, hi, (addPlayer_ack t uuid i).trans hdown⟩
  | removePlayer kickedPlayer =>
    refine ⟨i, hi, ?_⟩
    rcases removePlayer_mPlayers t kickedPlayer i with h | ⟨h, -⟩
    · exact (congrArg Challenger.ack h).trans hdown
    · exact congrArg Challenger.ack h
  | executeRequest dealer srcUuid json =>
    have hf := executeRequest_flags dealer t srcUuid json
    rw [PlayingTable.apply]
    generalize t.requestAction dealer srcUuid json = a at hf
    generalize (t.executeRequest dealer srcUuid json).table.mPlayers = m at hf ⊢
    cases hf with
    | kept _ _ => exact ⟨i, hi, hdown⟩
    | lowered _ => exact ⟨i, hi, resetAck_ack t hi⟩
    | noted step _ _ h =>
      have hne : ¬ ∀ j < t.nbPlayers, ((t.noteAck step srcUuid).mPlayers j).ack = true := by
        rw [← noteAck_nbPlayers t step srcUuid, ← ackFromAllPlayers_fst, ← sync, h]
        exact Bool.false_ne_true
      push Not at hne
      obtain ⟨j, hj, hjack⟩ := hne
      exact ⟨j, hj, eq_false_of_ne_true hjack⟩

theorem Reachable.open {t : PlayingTable} (ht : t.Reachable) : t.Open := by
  induction ht with
  | create t n randomPlace hn =>
    exact ⟨hn, fun h0 => ⟨0, h0, rfl⟩⟩
  | call t c _ ih => exact ih.apply c

/-- The step that everybody has acknowledged is the one the engine is in. -/
theorem Open.mSequence_eq {t : PlayingTable} (ht : t.Open) (h0 : 0 < t.nbPlayers)
    {step : Sequence} {uuid : ℕ} (h : (t.sync step uuid).1 = true) :
    t.mEngine.mSequence = step := by
  obtain ⟨i, hi, hdown⟩ := ht.down h0
  rcases (sync_fst t step uuid).mp h i hi with hup | ⟨-, hs⟩
  · exact absurd (hdown.symm.trans hup) Bool.false_ne_true
  · exact hs

theorem Open.ackAction_enabled {t : PlayingTable} (ht : t.Open) (dealer : Dealer)
    (srcUuid : ℕ) (json : JsonValue) : t.mEngine.Enabled (t.ackAction dealer srcUuid json) := by
  simp only [ackAction]
  split_ifs with h
  · obtain ⟨hp, -, hf⟩ := h
    have h0 : 0 < t.nbPlayers := Nat.zero_lt_of_lt (getPlayerPlace_of_ne ht.seats hp).1
    have hs := ht.mSequence_eq h0 hf
    rw [← hs]
    cases hseq : t.mEngine.mSequence <;> try simp [syncedAction, Engine.Enabled, hseq]
    all_goals
      split_ifs <;> simp
  · trivial

theorem bidAction_enabled {t : PlayingTable} (hn : t.nbPlayers ≤ 5) (srcUuid : ℕ)
    (json : JsonValue) : t.mEngine.Enabled (t.bidAction srcUuid json) := by
  simp only [bidAction]
  split_ifs with h
  · exact ⟨h.2.2, h.2.1, (getPlayerPlace_of_ne hn h.1).1⟩
  · trivial

theorem discardAction_enabled (t : PlayingTable) (srcUuid : ℕ) (json : JsonValue) :
    t.mEngine.Enabled (t.discardAction srcUuid json) := by
  simp only [discardAction]
  split_ifs with h
  · exact ⟨h.1, h.2.2⟩
  · trivial

theorem kingCallAction_enabled (t : PlayingTable) (srcUuid : ℕ) (json : JsonValue) :
    t.mEngine.Enabled (t.kingCallAction srcUuid json) := by
  simp only [kingCallAction]
  split_ifs with h
  · exact ⟨h.1, h.2.2⟩
  · trivial

theorem handleAction_enabled (t : PlayingTable) (srcUuid : ℕ) (json : JsonValue) :
    t.mEngine.Enabled (t.handleAction srcUuid json) := by
  simp only [handleAction]
  split_ifs with h ht
  · exact ⟨h.1, h.2.symm, ht⟩
  · exact .inr (.inl h.1)
  · trivial

theorem cardAction_enabled (t : PlayingTable) (srcUuid : ℕ) (json : JsonValue) :
    t.mEngine.Enabled (t.cardAction srcUuid json) := by
  simp only [cardAction]
  split_ifs with h
  · exact ⟨h.2.1, h.2.2.1.symm, h.1, h.2.2.2⟩
  · trivial

/-- What a call makes the engine do, the engine's step allows. -/
theorem Open.action_enabled {t : PlayingTable} (ht : t.Open) (c : Call) :
    t.mEngine.Enabled (t.action c) := by
  cases c with
  | addPlayer _ | removePlayer _ => trivial
  | executeRequest dealer srcUuid json =>
    exact request_cases (R := fun _ a => t.mEngine.Enabled a) dealer t srcUuid json trivial
      (fun _ => ht.ackAction_enabled dealer srcUuid json) (fun _ => by split_ifs <;> trivial)
      (fun _ => bidAction_enabled ht.seats srcUuid json)
      (fun _ => discardAction_enabled t srcUuid json)
      (fun _ => kingCallAction_enabled t srcUuid json)
      (fun _ => handleAction_enabled t srcUuid json) (fun _ => cardAction_enabled t srcUuid json)

/-- A run of the table is, for its engine, a run of enabled actions. -/
theorem Open.run_mEngine {t : PlayingTable} (ht : t.Open) (cs : List Call) :
    Guarded Engine.act Engine.Enabled t.mEngine (t.actions cs) ∧
      (run PlayingTable.apply t cs).mEngine = run Engine.act t.mEngine (t.actions cs) :=
  run_labels mEngine Open (fun _ c h _ => h.apply c)
    (fun s c h _ => ⟨h.action_enabled c, apply_mEngine s c⟩) ht
    (guarded_of_forall _ (fun _ => True) _ _ fun _ _ => trivial)

end PlayingTable

end TarotClub
