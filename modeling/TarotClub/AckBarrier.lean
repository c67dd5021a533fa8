import TarotClub.PlayerContext
import TarotClub.Seats

namespace TarotClub

open Machine

/-- A request comes from somebody: its sender is not the reserved identifier. -/
def Call.HasSender : Call → Prop
  | .executeRequest _ srcUuid _ => srcUuid ≠ invalidUid
  | _ => True

namespace PlayingTable

/-- No flag outlives its step: only players raise flags, and only in steps that are
acknowledged. -/
structure Barrier (t : PlayingTable) : Prop extends t.Open where
  free : ∀ i < t.nbPlayers, (t.mPlayers i).uuid = invalidUid → (t.mPlayers i).ack = false
  distinct : ∀ i < t.nbPlayers, ∀ j < t.nbPlayers, (t.mPlayers i).uuid = (t.mPlayers j).uuid →
    (t.mPlayers i).uuid ≠ invalidUid → i = j
  idle : t.mEngine.mSequence.isAcked = false → ∀ i < t.nbPlayers, (t.mPlayers i).ack = false

/-- The call completes the step. -/
def Fires (t : PlayingTable) : Call → Prop
  | .executeRequest _ srcUuid json =>
    (json.findValue (str "cmd")).getString = str "Ack" ∧ t.getPlayerPlace srcUuid ≠ .nowhere ∧
      ackFromString (json.findValue (str "step")).getString ≠ .badStep ∧
      (t.sync (ackFromString (json.findValue (str "step")).getString) srcUuid).1 = true
  | _ => False

theorem createTable_mPlayers (t : PlayingTable) {n : ℕ} (randomPlace : Place) (hn : n ≤ 5)
    {i : ℕ} (hi : i < n) : (t.createTable n randomPlace).mPlayers i = {} :=
  if_pos (lt_of_lt_of_le hi hn)

theorem createTable_barrier (t : PlayingTable) {n : ℕ} (randomPlace : Place) (hn : n ≤ 5) :
    (t.createTable n randomPlace).Barrier where
  seats := hn
  down := fun h0 => ⟨0, h0, rfl⟩
  free := fun i hi _ => by rw [createTable_mPlayers t randomPlace hn hi]
  distinct := fun i hi j _ _ h =>
    absurd (congrArg Challenger.uuid (createTable_mPlayers t randomPlace hn hi)) h
  idle := fun _ i hi => by rw [createTable_mPlayers t randomPlace hn hi]

theorem freePlace_isFree (t : PlayingTable) (h : t.freePlace.value < Place.nowhere.value)
    (hn : t.nbPlayers ≤ 5) :
    t.freePlace.value < t.nbPlayers ∧ (t.mPlayers t.freePlace.value).uuid = invalidUid := by
  cases hf : (List.range t.nbPlayers).find? fun i => (t.mPlayers i).isFree with
  | none => simp [freePlace, hf] at h
  | some i =>
    have hi : i < t.nbPlayers := List.mem_range.mp (List.mem_of_find?_eq_some hf)
    have hfree := List.find?_some hf
    have hv : t.freePlace.value = i := by
      simp only [freePlace, hf]
      exact Place.value_assign (by omega)
    exact ⟨hv ▸ hi, by simpa [hv, Challenger.isFree] using hfree⟩

/-- A seat behind `addPlayer`: the one that was free may be taken now. -/
theorem addPlayer_seat {t : PlayingTable} (hn : t.nbPlayers ≤ 5) (uuid i : ℕ) :
    (t.addPlayer uuid).2.mPlayers i = t.mPlayers i ∨
      (t.mPlayers i).uuid = invalidUid ∧ ((t.addPlayer uuid).2.mPlayers i).uuid = uuid ∧
        i = t.freePlace.value ∧ ∀ j < t.nbPlayers, (t.mPlayers j).uuid ≠ uuid := by
  by_cases hp : t.getPlayerPlace uuid = .nowhere
  · by_cases hv : t.freePlace.value < Place.nowhere.value
    · by_cases hi : i = t.freePlace.value
      · subst hi
        refine .inr ⟨(freePlace_isFree t hv hn).2, ?_, rfl, (getPlayerPlace_eq_nowhere hn).mp hp⟩
        simp [addPlayer, hp, hv]
      · simp [addPlayer, hp, hv, Function.update_of_ne hi]
    · simp [addPlayer, hp, hv]
  · simp [addPlayer, hp]

theorem Barrier.addPlayer {t : PlayingTable} (ht : t.Barrier) (uuid : ℕ) :
    (t.addPlayer uuid).2.Barrier := by
  have hnb : (t.addPlayer uuid).2.nbPlayers = t.nbPlayers := apply_nbPlayers t (.addPlayer uuid)
  refine ⟨ht.toOpen.apply (.addPlayer uuid), ?_, ?_, ?_⟩
  · intro i hi h
    rw [addPlayer_ack]
    rw [hnb] at hi
    rcases addPlayer_seat ht.seats uuid i with hs | ⟨hfree, -⟩
    · exact ht.free i hi (hs ▸ h)
    · exact ht.free i hi hfree
  · intro i hi j hj h hne
    rw [hnb] at hi hj
    rcases addPlayer_seat ht.seats uuid i with hsi | ⟨-, hui, hfi, hnew⟩ <;>
      rcases addPlayer_seat ht.seats uuid j with hsj | ⟨-, huj, hfj, hnew'⟩
    · rw [hsi, hsj] at h
      exact ht.distinct i hi j hj h (hsi ▸ hne)
    · rw [hsi, huj] at h
      exact absurd h (hnew' i hi)
    · rw [hui, hsj] at h
      exact absurd h.symm (hnew j hj)
    · rw [hfi, hfj]
  · intro h i hi
    rw [addPlayer_ack]
    rw [addPlayer_mEngine] at h
    exact ht.idle h i (hnb ▸ hi)

theorem Barrier.removePlayer {t : PlayingTable} (ht : t.Barrier) (kickedPlayer : ℕ) :
    (t.removePlayer kickedPlayer).Barrier := by
  have hnb : (t.removePlayer kickedPlayer).nbPlayers = t.nbPlayers :=
    apply_nbPlayers t (.removePlayer kickedPlayer)
  refine ⟨ht.toOpen.apply (.removePlayer kickedPlayer), ?_, ?_, ?_⟩
  · intro i hi h
    rw [hnb] at hi
    rcases removePlayer_mPlayers t kickedPlayer i with hs | ⟨hs, -⟩
    · rw [hs] at h ⊢
      exact ht.free i hi h
    · rw [hs]
  · intro i hi j hj h hne
    rw [hnb] at hi hj
    rcases removePlayer_mPlayers t kickedPlayer i with hsi | ⟨hsi, -⟩
    · rcases removePlayer_mPlayers t kickedPlayer j with hsj | ⟨hsj, -⟩
      · rw [hsi] at h hne
        exact ht.distinct i hi j hj (hsj ▸ h) hne
      · exact absurd (h.trans (congrArg Challenger.uuid hsj)) hne
    · exact absurd (congrArg Challenger.uuid hsi) hne
  · intro h i hi
    rw [hnb] at hi
    rw [removePlayer_mEngine] at h
    rcases removePlayer_mPlayers t kickedPlayer i with hs | ⟨hs, -⟩
    · rw [hs]
      exact ht.idle h i hi
    · rw [hs]

theorem Barrier.executeRequest {t : PlayingTable} (ht : t.Barrier) (dealer : Dealer)
    {srcUuid : ℕ} (json : JsonValue) (hsrc : srcUuid ≠ invalidUid) :
    (t.executeRequest dealer srcUuid json).table.Barrier := by
  have hopen := ht.toOpen.apply (.executeRequest dealer srcUuid json)
  have hnb := apply_nbPlayers t (.executeRequest dealer srcUuid json)
  have heng := apply_mEngine t (.executeRequest dealer srcUuid json)
  have hf := executeRequest_flags dealer t srcUuid json
  rw [action] at heng
  rw [PlayingTable.apply] at hopen hnb heng
  generalize t.requestAction dealer srcUuid json = a at hf heng
  generalize hm : (t.executeRequest dealer srcUuid json).table.mPlayers = m at hf
  refine ⟨hopen, ?_, ?_, ?_⟩ <;> rw [hnb, hm]
  · intro i hi h
    cases hf with
    | kept _ _ => exact ht.free i hi h
    | lowered _ => exact resetAck_ack t hi
    | noted step _ _ _ =>
      rw [noteAck_uuid] at h
      refine Bool.eq_false_iff.mpr fun hup => ?_
      rcases (noteAck_ack t step srcUuid i).mp hup with hup | ⟨-, hu, -⟩
      · exact Bool.eq_false_iff.mp (ht.free i hi h) hup
      · exact hsrc (hu ▸ h)
  · intro i hi j hj h hne
    have huuid : ∀ k, (m k).uuid = (t.mPlayers k).uuid := by
      intro k
      cases hf with
      | kept _ _ => rfl
      | lowered _ => exact resetAck_uuid t k
      | noted step _ _ _ => exact noteAck_uuid t step srcUuid k
    rw [huuid, huuid] at h
    rw [huuid] at hne
    exact ht.distinct i hi j hj h hne
  · intro hseq i hi
    rw [heng] at hseq
    cases hf with
    | kept a h =>
      rcases h with rfl | h
      · exact ht.idle hseq i hi
      · exact ht.idle h i hi
    | lowered _ => exact resetAck_ack t hi
    | noted step _ hstep _ =>
      refine Bool.eq_false_iff.mpr fun hup => ?_
      rcases (noteAck_ack t step srcUuid i).mp hup with hup | ⟨-, -, hs⟩
      · exact Bool.eq_false_iff.mp (ht.idle hseq i hi) hup
      · exact Bool.eq_false_iff.mp hseq (hs ▸ hstep)

theorem Barrier.apply {t : PlayingTable} (ht : t.Barrier) (c : Call) (hc : c.HasSender) :
    (t.apply c).Barrier := by
  cases c with
  | addPlayer uuid => exact ht.addPlayer uuid
  | removePlayer kickedPlayer => exact ht.removePlayer kickedPlayer
  | executeRequest dealer srcUuid json => exact ht.executeRequest dealer json hc

/-- A flag goes up by an acknowledgement of the current step, sent by the player who sits
there. -/
theorem raised_by_ack {t : PlayingTable} {c : Call} {i : ℕ}
    (hdown : (t.mPlayers i).ack = false) (hup : ((t.apply c).mPlayers i).ack = true) :
    ∃ dealer json, c = .executeRequest dealer (t.mPlayers i).uuid json ∧
      IsAck json t.mEngine.mSequence ∧ t.action c = .stay ∧ ¬ t.Fires c ∧
      ((t.apply c).mPlayers i).uuid = (t.mPlayers i).uuid := by
  cases c with
  | addPlayer uuid =>
    rw [PlayingTable.apply, addPlayer_ack, hdown] at hup
    exact absurd hup Bool.false_ne_true
  | removePlayer kickedPlayer =>
    rw [PlayingTable.apply] at hup
    rcases removePlayer_mPlayers t kickedPlayer i with hs | ⟨hs, -⟩ <;> rw [hs] at hup
    · exact absurd (hdown.symm.trans hup) Bool.false_ne_true
    · exact absurd hup Bool.false_ne_true
  | executeRequest dealer srcUuid json =>
    have hf := executeRequest_flags dealer t srcUuid json
    rw [PlayingTable.apply] at hup ⊢
    rw [action]
    generalize t.requestAction dealer srcUuid json = a at hf
    generalize (t.executeRequest dealer srcUuid json).table.mPlayers = m at hf hup
    cases hf with
    | kept _ _ => exact absurd (hdown.symm.trans hup) Bool.false_ne_true
    | lowered _ =>
      simp only [resetAck] at hup
      split_ifs at hup
      exact absurd (hdown.symm.trans hup) Bool.false_ne_true
    | noted step hack hstep hnot =>
      rcases (noteAck_ack t step srcUuid i).mp hup with hup | ⟨hi, hu, hs⟩
      · exact absurd (hdown.symm.trans hup) Bool.false_ne_true
      · refine ⟨dealer, json, by rw [hu], hs ▸ hack, rfl, ?_, noteAck_uuid t step srcUuid i⟩
        rintro ⟨-, -, -, hfire⟩
        rw [hack.2, hnot] at hfire
        exact Bool.false_ne_true hfire

theorem Fires.lowers {t : PlayingTable} {c : Call} (h : t.Fires c) {i : ℕ}
    (hi : i < t.nbPlayers) : ((t.apply c).mPlayers i).ack = false := by
  cases c with
  | addPlayer _ | removePlayer _ => exact absurd h id
  | executeRequest dealer srcUuid json =>
    obtain ⟨hcmd, hp, hs, hf⟩ := h
    have hm : (t.apply (.executeRequest dealer srcUuid json)).mPlayers = t.resetAck.mPlayers := by
      have hne : ¬ str "Ack" = str "Error" := by decide
      simp [PlayingTable.apply, PlayingTable.executeRequest, hcmd, hne, executeAck, hp, hs, hf,
        sync_of_fst hf, allSynced_mPlayers]
    rw [hm, resetAck_ack t hi]

/-- As long as a flag stays up the engine stays where it is, the step is not found complete,
and the player does not move. -/
theorem Barrier.kept_up {t : PlayingTable} (ht : t.Barrier) {c : Call} {i : ℕ}
    (hi : i < t.nbPlayers) (hup : (t.mPlayers i).ack = true)
    (hup' : ((t.apply c).mPlayers i).ack = true) :
    t.action c = .stay ∧ ¬ t.Fires c ∧
      ((t.apply c).mPlayers i).uuid = (t.mPlayers i).uuid := by
  have hnot : ¬ t.Fires c := fun h => Bool.eq_false_iff.mp (h.lowers hi) hup'
  cases c with
  | addPlayer uuid =>
    refine ⟨rfl, hnot, ?_⟩
    rcases addPlayer_seat ht.seats uuid i with hs | ⟨hfree, -⟩
    · exact congrArg Challenger.uuid hs
    · exact absurd hup (Bool.eq_false_iff.mp (ht.free i hi hfree))
  | removePlayer kickedPlayer =>
    refine ⟨rfl, hnot, ?_⟩
    rcases removePlayer_mPlayers t kickedPlayer i with hs | ⟨hs, -⟩
    · exact congrArg Challenger.uuid hs
    · rw [PlayingTable.apply, hs] at hup'
      exact absurd hup' Bool.false_ne_true
  | executeRequest dealer srcUuid json =>
    have hf := executeRequest_flags dealer t srcUuid json
    rw [PlayingTable.apply] at hup' ⊢
    rw [action]
    generalize t.requestAction dealer srcUuid json = a at hf
    generalize (t.executeRequest dealer srcUuid json).table.mPlayers = m at hf hup'
    cases hf with
    | kept _ h =>
      rcases h with rfl | h
      · exact ⟨rfl, hnot, rfl⟩
      · exact absurd hup (Bool.eq_false_iff.mp (ht.idle h i hi))
    | lowered _ => exact absurd hup' (Bool.eq_false_iff.mp (resetAck_ack t hi))
    | noted step _ _ _ => exact ⟨rfl, hnot, noteAck_uuid t step srcUuid i⟩

theorem mSequence_of_stay {t : PlayingTable} {c : Call} (h : t.action c = .stay) :
    (t.apply c).mEngine.mSequence = t.mEngine.mSequence := by
  rw [apply_mEngine, h, Engine.act]

/-- A run along which the flag of seat `i` is up. -/
theorem Barrier.kept_up_run {s : PlayingTable} (hs : s.Barrier) {i : ℕ} (hi : i < s.nbPlayers)
    {cs : List Call} (hsend : ∀ c ∈ cs, c.HasSender)
    (hup : Guarded PlayingTable.apply (fun t c => (t.mPlayers i).ack = true ∧
      ((t.apply c).mPlayers i).ack = true) s cs) :
    Guarded PlayingTable.apply (fun t c => t.mEngine.mSequence = s.mEngine.mSequence ∧
        (t.mPlayers i).uuid = (s.mPlayers i).uuid ∧ t.action c = .stay ∧ ¬ t.Fires c) s cs ∧
      (run PlayingTable.apply s cs).mEngine.mSequence = s.mEngine.mSequence ∧
      ((run PlayingTable.apply s cs).mPlayers i).uuid = (s.mPlayers i).uuid := by
  induction cs generalizing s with
  | nil => exact ⟨trivial, rfl, rfl⟩
  | cons c cs ih =>
    obtain ⟨⟨hup, hup'⟩, hrest⟩ := hup
    obtain ⟨hstay, hnot, huuid⟩ := hs.kept_up hi hup hup'
    have hseq := mSequence_of_stay hstay
    have hi' : i < (s.apply c).nbPlayers := (apply_nbPlayers s c).symm ▸ hi
    obtain ⟨hg, hrun, hrun'⟩ := ih (hs.apply c (hsend c List.mem_cons_self)) hi'
      (fun d hd => hsend d (List.mem_cons_of_mem c hd)) hrest
    rw [hseq, huuid] at hg
    exact ⟨⟨⟨rfl, rfl, hstay, hnot⟩, hg⟩, hrun.trans hseq, hrun'.trans huuid⟩

/-- In the run `cs` from `t` the player on seat `i` has acknowledged the step, sitting there;
since that request the player has kept the seat, the engine has stayed in the step without
entering it anew, and the step has not been completed. -/
def AckedSince (t : PlayingTable) (cs : List Call) (step : Sequence) (i : ℕ) : Prop :=
  ∃ pre dealer uuid json post, cs = pre ++ .executeRequest dealer uuid json :: post ∧
    IsAck json step ∧
    Guarded PlayingTable.apply (fun s c => s.mEngine.mSequence = step ∧
        (s.mPlayers i).uuid = uuid ∧ s.action c = .stay ∧ ¬ s.Fires c)
      (run PlayingTable.apply t pre) (.executeRequest dealer uuid json :: post) ∧
    (run PlayingTable.apply t cs).mEngine.mSequence = step ∧
    ((run PlayingTable.apply t cs).mPlayers i).uuid = uuid

/-- What the players' program sends acknowledges the step. -/
theorem isAck_sync {step : Sequence} (h : step.isAcked = true) :
    IsAck (PlayerContext.sync step) step := by
  refine ⟨PlayerContext.sync_cmd step, ?_⟩
  rw [PlayerContext.sync_step]
  revert h
  cases step <;> decide

/-- Every player of a list acknowledges the step. -/
def everyone (dealer : Dealer) (uuids : List ℕ) (step : Sequence) : List Call :=
  uuids.map fun uuid => .executeRequest dealer uuid (PlayerContext.sync step)

/-- A flag that is up stands for an acknowledgement of the current step. -/
theorem Barrier.ackedSince {t : PlayingTable} (ht : t.Barrier) {cs : List Call}
    (hsend : ∀ c ∈ cs, c.HasSender) {i : ℕ} (hi : i < t.nbPlayers)
    (hdown : (t.mPlayers i).ack = false)
    (hup : ((run PlayingTable.apply t cs).mPlayers i).ack = true) :
    t.AckedSince cs (run PlayingTable.apply t cs).mEngine.mSequence i := by
  obtain ⟨pre, c, post, rfl, hpre, hc, hpost⟩ :=
    exists_last_raise (P := fun s : PlayingTable => (s.mPlayers i).ack = true) cs
      (Bool.eq_false_iff.mp hdown) hup
  rw [Bool.not_eq_true] at hpre
  have hinv : ∀ s : PlayingTable, s.Barrier ∧ s.nbPlayers = t.nbPlayers → ∀ d : Call,
      d.HasSender → (s.apply d).Barrier ∧ (s.apply d).nbPlayers = t.nbPlayers :=
    fun s hs d hd => ⟨hs.1.apply d hd, (apply_nbPlayers s d).trans hs.2⟩
  obtain ⟨hs, hsn⟩ : (run PlayingTable.apply t pre).Barrier ∧
      (run PlayingTable.apply t pre).nbPlayers = t.nbPlayers :=
    Guarded.invariant (fun r => r.Barrier ∧ r.nbPlayers = t.nbPlayers)
      (fun s d hs hd => hinv s hs d hd) ⟨ht, rfl⟩
      (guarded_of_forall _ Call.HasSender _ _ fun d hd => hsend d (List.mem_append_left _ hd))
  obtain ⟨dealer, json, rfl, hack, hstay, hnot, huuid⟩ := raised_by_ack hpre hc
  have hs' := hinv _ ⟨hs, hsn⟩ _ (hsend _ (List.mem_append_right _ List.mem_cons_self))
  obtain ⟨hg, hseq, huuid'⟩ := hs'.1.kept_up_run (hs'.2.symm ▸ hi)
    (fun d hd => hsend d (List.mem_append_right _ (List.mem_cons_of_mem _ hd))) hpost
  rw [mSequence_of_stay hstay, huuid] at hg
  rw [mSequence_of_stay hstay] at hseq
  rw [huuid] at huuid'
  refine ⟨pre, dealer, _, json, post, rfl, ?_, ?_, rfl, ?_⟩ <;> rw [run_append, run_cons]
  · rw [hseq]
    exact hack
  · rw [hseq]
    exact ⟨⟨rfl, rfl, hstay, hnot⟩, hg⟩
  · exact huuid'

/-- When `Sync` finds a step complete it is the current one, and on every seat there is
another player, who has acknowledged it while sitting there and since it was entered. Then all
flags are down again. -/
theorem sync_complete (t : PlayingTable) {n : ℕ} (randomPlace : Place) (h0 : 0 < n)
    (hn : n ≤ 5) {cs : List Call} (hsend : ∀ c ∈ cs, c.HasSender) {step : Sequence} {uuid : ℕ}
    (huuid : uuid ≠ invalidUid)
    (h : ((run PlayingTable.apply (t.createTable n randomPlace) cs).sync step uuid).1 = true) :
    let s := run PlayingTable.apply (t.createTable n randomPlace) cs
    s.mEngine.mSequence = step ∧
      (∀ i < n, (s.mPlayers i).uuid ≠ invalidUid ∧
        ((s.mPlayers i).uuid = uuid ∨ (t.createTable n randomPlace).AckedSince cs step i)) ∧
      (∀ i < n, ∀ j < n, (s.mPlayers i).uuid = (s.mPlayers j).uuid → i = j) ∧
      ∀ i < n, ((s.sync step uuid).2.mPlayers i).ack = false := by
  intro s
  have ht := createTable_barrier t randomPlace hn
  obtain ⟨hs, hsn⟩ : s.Barrier ∧ s.nbPlayers = n :=
    Guarded.invariant (fun r => r.Barrier ∧ r.nbPlayers = n)
      (fun r c hr hc => ⟨hr.1.apply c hc, (apply_nbPlayers r c).trans hr.2⟩) ⟨ht, rfl⟩
      (guarded_of_forall _ Call.HasSender _ _ hsend)
  have hseq : s.mEngine.mSequence = step := hs.mSequence_eq (hsn.symm ▸ h0) h
  have hflags := (sync_fst s step uuid).mp h
  rw [hsn] at hflags
  have hseat : ∀ i < n, (s.mPlayers i).uuid ≠ invalidUid := by
    intro i hi hfree
    rcases hflags i hi with hup | ⟨hu, -⟩
    · exact Bool.eq_false_iff.mp (hs.free i (hsn.symm ▸ hi) hfree) hup
    · exact huuid (hu ▸ hfree)
  refine ⟨hseq, fun i hi => ⟨hseat i hi, ?_⟩, fun i hi j hj he => ?_, fun i hi => ?_⟩
  · rcases hflags i hi with hup | ⟨hu, -⟩
    · refine .inr (hseq ▸ ht.ackedSince hsend hi ?_ hup)
      rw [createTable_mPlayers t randomPlace hn hi]
    · exact .inl hu
  · exact hs.distinct i (hsn.symm ▸ hi) j (hsn.symm ▸ hj) he (hseat i hi)
  · rw [sync_of_fst h]
    exact resetAck_ack s (hsn.symm ▸ hi)

theorem sync_complete_join :
    let s := run PlayingTable.apply (({} : PlayingTable).createTable 3 .south)
      [.addPlayer 7, .addPlayer 8, .addPlayer 9,
       .executeRequest (fun _ _ => ⟨fun _ => {}, {}, none⟩) 7 (PlayerContext.sync .waitForPlayers),
       .executeRequest (fun _ _ => ⟨fun _ => {}, {}, none⟩) 9 (PlayerContext.sync .waitForPlayers)]
    (s.sync .waitForPlayers 8).1 = true ∧ s.mEngine.mSequence = .waitForPlayers :=
  ⟨by decide +kernel,
    (sync_complete {} .south (by decide) (by decide) (by simp [Call.HasSender, invalidUid])
      (show 8 ≠ invalidUid by decide) (by decide +kernel)).1⟩

end PlayingTable

end TarotClub
