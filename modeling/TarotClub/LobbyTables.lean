import TarotClub.AckBarrier
import TarotClub.LobbyRequests

namespace TarotClub

open Machine

namespace PlayingTable

@[simp] theorem sync_mId (t : PlayingTable) (seq : Sequence) (uuid : ℕ) :
    (t.sync seq uuid).2.mId = t.mId := by
  unfold sync ackFromAllPlayers
  split_ifs <;> rfl

@[simp] theorem newDeal_mId (dealer : Dealer) (t : PlayingTable) :
    (t.newDeal dealer).table.mId = t.mId := by
  unfold newDeal rollover
  split_ifs <;> rfl

@[simp] theorem sendNextBidSequence_mId (t : PlayingTable) :
    t.sendNextBidSequence.table.mId = t.mId := by
  unfold sendNextBidSequence
  split <;> rfl

@[simp] theorem gameSequence_mId (t : PlayingTable) : t.gameSequence.table.mId = t.mId := by
  simp only [gameSequence]
  split_ifs
  · rfl
  · split <;> rfl

theorem allSynced_mId (dealer : Dealer) (t : PlayingTable) (seq : Sequence) :
    (t.allSynced dealer seq).table.mId = t.mId := by
  cases seq
  case waitForPlayers =>
    rw [allSynced]
    split_ifs <;> rfl
  case waitForReady | waitForAllPassed => exact newDeal_mId dealer t
  case waitForCards | waitForShowBid | waitForShowKingCall => exact sendNextBidSequence_mId _
  case waitForStartDeal | waitForShowHandle | waitForShowCard | waitForEndOfTrick =>
    exact gameSequence_mId t
  case waitForEndOfDeal =>
    simp only [allSynced, endOfDeal]
    split_ifs
    · exact newDeal_mId dealer _
    · rfl
  all_goals rfl

theorem executeHandle_mId (t : PlayingTable) (srcUuid : ℕ) (json : JsonValue) :
    (t.executeHandle srcUuid json).table.mId = t.mId := by
  simp only [executeHandle]
  split_ifs
  · rfl
  · exact gameSequence_mId _
  · rfl

theorem executeRequest_mId (dealer : Dealer) (t : PlayingTable) (srcUuid : ℕ)
    (json : JsonValue) : (t.executeRequest dealer srcUuid json).table.mId = t.mId := by
  refine request_cases (R := fun r _ => r.table.mId = t.mId) dealer t srcUuid json rfl
    (fun _ => ?_) (fun _ => ?_) (fun _ => ?_) (fun _ => ?_) (fun _ => ?_)
    (fun _ => executeHandle_mId t srcUuid json) (fun _ => ?_)
  · simp only [executeAck]
    split_ifs
    · rfl
    · rw [allSynced_mId, sync_mId]
    · exact sync_mId t _ srcUuid
    · rfl
  · rw [executeNewGame]
    split_ifs <;> rfl
  · simp only [executeReplyBid]
    split_ifs <;> rfl
  · simp only [executeDiscard]
    split_ifs <;> rfl
  · simp only [executeReplyKingCall]
    split_ifs <;> rfl
  · simp only [executeCard]
    split_ifs <;> rfl

theorem executeRequest_nbPlayers (dealer : Dealer) (t : PlayingTable) (srcUuid : ℕ)
    (json : JsonValue) : (t.executeRequest dealer srcUuid json).table.nbPlayers = t.nbPlayers :=
  apply_nbPlayers t (.executeRequest dealer srcUuid json)

/-- A player who is removed leaves his seat, and the others keep theirs. -/
theorem removePlayer_uuid {t : PlayingTable} (hn : t.nbPlayers ≤ 5) (uuid : ℕ) {i : ℕ}
    (hi : i < t.nbPlayers) :
    ((t.removePlayer uuid).mPlayers i).uuid =
      if (t.mPlayers i).uuid = uuid then invalidUid else (t.mPlayers i).uuid := by
  by_cases hp : t.getPlayerPlace uuid = .nowhere
  · rw [removePlayer, if_neg (not_not.mpr hp),
      if_neg ((getPlayerPlace_eq_nowhere hn).mp hp i hi)]
  · simp only [removePlayer, if_pos hp, hi, true_and]
    split_ifs <;> rfl

@[simp] theorem removePlayer_mId (t : PlayingTable) (uuid : ℕ) :
    (t.removePlayer uuid).mId = t.mId := by
  unfold removePlayer
  split_ifs <;> rfl

theorem removePlayer_nbPlayers (t : PlayingTable) (uuid : ℕ) :
    (t.removePlayer uuid).nbPlayers = t.nbPlayers := apply_nbPlayers t (.removePlayer uuid)

@[simp] theorem addPlayer_mId (t : PlayingTable) (uuid : ℕ) :
    (t.addPlayer uuid).2.mId = t.mId := by
  simp only [addPlayer]
  split_ifs <;> rfl

theorem addPlayer_nbPlayers (t : PlayingTable) (uuid : ℕ) :
    (t.addPlayer uuid).2.nbPlayers = t.nbPlayers := apply_nbPlayers t (.addPlayer uuid)

/-- The table has a seat that nobody holds. -/
def hasFreeSeat (t : PlayingTable) : Bool :=
  (List.range t.nbPlayers).any fun i => (t.mPlayers i).isFree

theorem hasFreeSeat_iff (t : PlayingTable) :
    t.hasFreeSeat = true ↔ ∃ i < t.nbPlayers, (t.mPlayers i).uuid = invalidUid := by
  simp [hasFreeSeat, Challenger.isFree]

/-- Either the player is turned away and the table is as before, or he gets a seat that nobody
held, where he sat on none. -/
theorem addPlayer_cases {t : PlayingTable} (hn : t.nbPlayers ≤ 5) (uuid : ℕ) :
    (t.addPlayer uuid).1.isValid = false ∧ (t.addPlayer uuid).2 = t ∨
      ∃ i < t.nbPlayers, (t.mPlayers i).uuid = invalidUid ∧ uuid ≠ invalidUid ∧
        (t.addPlayer uuid).1 = .assign i ∧ (t.addPlayer uuid).1.isValid = true ∧
        (∀ j < t.nbPlayers, (t.mPlayers j).uuid ≠ uuid) ∧
        ∀ j, ((t.addPlayer uuid).2.mPlayers j).uuid =
          if j = i then uuid else (t.mPlayers j).uuid := by
  by_cases hp : t.getPlayerPlace uuid = .nowhere
  · by_cases hv : t.freePlace.value < Place.nowhere.value
    · obtain ⟨hlt, hfree⟩ := freePlace_isFree t hv hn
      have hnone := (getPlayerPlace_eq_nowhere hn).mp hp
      refine .inr ⟨t.freePlace.value, hlt, hfree, fun h0 => ?_, ?_, ?_, hnone, fun j => ?_⟩
      · exact hnone _ hlt (hfree.trans h0.symm)
      · simp [addPlayer, hp, hv]
      · simp [addPlayer, hp, hv, Place.isValid]
      · by_cases hj : j = t.freePlace.value <;> simp [addPlayer, hp, hv, hj]
    · refine .inl ⟨?_, by simp [addPlayer, hp, hv]⟩
      simp [addPlayer, hp, hv, Place.isValid]
  · refine .inl ⟨?_, by simp [addPlayer, hp]⟩
    simp [addPlayer, hp, Place.isValid]

end PlayingTable

/-- A call that the lobby receives; with a request comes the dealer of the tables, with a new
table the place that is drawn for its dealer. -/
inductive LobbyCall where
  | addUser (peer : ℕ)
  | removeUser (uuid : ℕ)
  | createTable (tableName : Str) (game : Game) (randomPlace : Place)
  | destroyTable (id : ℕ)
  | deliver (dealer : Dealer) (req : Request)

namespace Lobby

def apply (l : Lobby) : LobbyCall → Lobby
  | .addUser peer => (l.addUser peer).2
  | .removeUser uuid => l.removeUser uuid
  | .createTable tableName game randomPlace => (l.createTable tableName game randomPlace).2
  | .destroyTable id => (l.destroyTable id).2
  | .deliver dealer req => (l.deliver dealer req).lobby

/-- The tables have identifiers of their own, all of them taken, and at most five seats. -/
structure TablesListed (tables : List PlayingTable) (ids : UniqueId) : Prop where
  range : ids.mMin = 1000 ∧ ids.mMax = 1050
  used : ∀ id ∈ ids.mUsedIds, 1000 ≤ id ∧ id ≤ 1050
  nodup : (tables.map (·.mId)).Nodup
  taken : ∀ t ∈ tables, t.mId ∈ ids.mUsedIds
  seats : ∀ t ∈ tables, t.nbPlayers ≤ 5

section Tables

variable {tables : List PlayingTable} {ids : UniqueId}

theorem mem_updateTables {id : ℕ} {change : PlayingTable → PlayingTable} {t' : PlayingTable} :
    t' ∈ updateTables id change tables ↔
      ∃ t ∈ tables, (if t.mId = id then change t else t) = t' := List.mem_map

theorem updateTables_of_not_mem {id : ℕ} (change : PlayingTable → PlayingTable)
    (h : id ∉ tables.map (·.mId)) : updateTables id change tables = tables := by
  refine (List.map_congr_left fun t ht => ?_).trans (List.map_id tables)
  rw [if_neg fun he => h (List.mem_map.mpr ⟨t, ht, he⟩)]
  rfl

/-- Identifiers are unique, so the first table with one is the only one. -/
theorem updateFirstTable_eq (id : ℕ) (change : PlayingTable → PlayingTable)
    (hnodup : (tables.map (·.mId)).Nodup) :
    updateFirstTable id change tables = updateTables id change tables := by
  induction tables with
  | nil => rfl
  | cons t tables ih =>
    obtain ⟨hnew, hnodup⟩ := List.nodup_cons.mp hnodup
    rw [updateFirstTable, updateTables, List.map_cons, ← updateTables]
    split_ifs with h
    · rw [updateTables_of_not_mem change (h ▸ hnew)]
    · rw [ih hnodup]

/-- The first table with an identifier is the only one, so all of them go with it. -/
theorem mem_eraseP_mId {id : ℕ} (hnodup : (tables.map (·.mId)).Nodup) {t : PlayingTable} :
    t ∈ tables.eraseP (fun t => t.mId = id) ↔ t ∈ tables ∧ t.mId ≠ id := by
  have hpair := List.pairwise_map.mp hnodup
  have herase : tables.eraseP (fun t => t.mId = id) = tables.filter fun t => t.mId ≠ id := by
    clear hnodup
    induction tables with
    | nil => rfl
    | cons t tables ih =>
      obtain ⟨hne, hpair⟩ := List.pairwise_cons.mp hpair
      by_cases he : t.mId = id
      · have hall : tables.filter (fun t => t.mId ≠ id) = tables :=
          List.filter_eq_self.mpr fun t' ht' => by simpa [← he] using Ne.symm (hne t' ht')
        rw [List.eraseP_cons_of_pos (by simpa using he), List.filter_cons_of_neg (by simpa using he),
          hall]
      · rw [List.eraseP_cons_of_neg (by simpa using he), List.filter_cons_of_pos (by simpa using he),
          ih hpair]
  rw [herase, List.mem_filter, decide_eq_true_iff]

/-- The identifiers of the tables and the numbers of their seats. -/
def outline (tables : List PlayingTable) : List (ℕ × ℕ) :=
  tables.map fun t => (t.mId, t.nbPlayers)

theorem outline_updateTables {id : ℕ} {change : PlayingTable → PlayingTable}
    (hid : ∀ t, (change t).mId = t.mId) (hnb : ∀ t, (change t).nbPlayers = t.nbPlayers)
    (tables : List PlayingTable) : outline (updateTables id change tables) = outline tables := by
  rw [outline, updateTables, List.map_map]
  refine List.map_congr_left fun t _ => ?_
  rw [Function.comp_apply]
  split_ifs
  · rw [hid, hnb]
  · rfl

theorem outline_updateFirstTable {id : ℕ} {change : PlayingTable → PlayingTable}
    (hid : ∀ t, (change t).mId = t.mId) (hnb : ∀ t, (change t).nbPlayers = t.nbPlayers)
    (tables : List PlayingTable) :
    outline (updateFirstTable id change tables) = outline tables := by
  induction tables with
  | nil => rfl
  | cons t tables ih =>
    rw [updateFirstTable]
    split_ifs
    · simp only [outline, List.map_cons, hid, hnb]
    · rw [outline, List.map_cons, ← outline, ih]
      rfl

theorem TablesListed.id_range (h : TablesListed tables ids) {t : PlayingTable} (ht : t ∈ tables) :
    1000 ≤ t.mId ∧ t.mId ≤ 1050 := h.used _ (h.taken t ht)

theorem TablesListed.of_outline (h : TablesListed tables ids) {tables' : List PlayingTable}
    (he : outline tables' = outline tables) : TablesListed tables' ids := by
  have hback : ∀ t' ∈ tables', ∃ t ∈ tables, t.mId = t'.mId ∧ t.nbPlayers = t'.nbPlayers := by
    intro t' ht'
    have hmem : (t'.mId, t'.nbPlayers) ∈ outline tables := he ▸ List.mem_map.mpr ⟨t', ht', rfl⟩
    obtain ⟨t, ht, heq⟩ := List.mem_map.mp hmem
    exact ⟨t, ht, congrArg Prod.fst heq, congrArg Prod.snd heq⟩
  have hids : tables'.map (·.mId) = tables.map (·.mId) := by
    simpa [outline, List.map_map, Function.comp_def] using congrArg (List.map Prod.fst) he
  refine ⟨h.range, h.used, hids ▸ h.nodup, fun t' ht' => ?_, fun t' ht' => ?_⟩
  · obtain ⟨t, ht, hid, -⟩ := hback t' ht'
    exact hid ▸ h.taken t ht
  · obtain ⟨t, ht, -, hnb⟩ := hback t' ht'
    exact hnb ▸ h.seats t ht

theorem TablesListed.createTable (h : TablesListed tables ids) {t : PlayingTable}
    (hid : t.mId = ids.takeId.1) (hpos : 0 < ids.takeId.1) (hnb : t.nbPlayers ≤ 5) :
    (∀ t' ∈ tables, t'.mId ≠ t.mId) ∧ TablesListed (tables ++ [t]) ids.takeId.2 := by
  rcases ids.takeId_cases with ⟨h0, -⟩ | ⟨hrange, hnew, hused⟩
  · rw [h0] at hpos
    exact absurd hpos (by decide)
  rw [h.range.1, h.range.2] at hrange
  have hfresh : ∀ t' ∈ tables, t'.mId ≠ t.mId := fun t' ht' he =>
    hnew (hid ▸ he ▸ h.taken t' ht')
  refine ⟨hfresh, ?_, ?_, ?_, ?_, ?_⟩
  · rw [UniqueId.takeId_mMin, UniqueId.takeId_mMax]
    exact h.range
  · intro id hmem
    rw [hused, List.mem_append, List.mem_singleton] at hmem
    rcases hmem with hmem | rfl
    · exact h.used id hmem
    · exact hrange
  · rw [List.map_append]
    refine List.nodup_append_comm.mp (List.nodup_cons.mpr ⟨fun hmem => ?_, h.nodup⟩)
    obtain ⟨t', ht', he⟩ := List.mem_map.mp hmem
    exact hfresh t' ht' he
  · intro t' ht'
    rw [hused]
    rcases List.mem_append.mp ht' with ht' | ht'
    · exact List.mem_append_left _ (h.taken t' ht')
    · rw [List.mem_singleton.mp ht', hid]
      exact List.mem_append_right _ (List.mem_singleton_self _)
  · intro t' ht'
    rcases List.mem_append.mp ht' with ht' | ht'
    · exact h.seats t' ht'
    · rw [List.mem_singleton.mp ht']
      exact hnb

theorem TablesListed.destroyTable (h : TablesListed tables ids) (id : ℕ) :
    TablesListed (tables.eraseP fun t => t.mId = id) (ids.releaseId id) := by
  refine ⟨h.range, fun id' hmem => h.used id' (List.mem_of_mem_erase hmem),
    h.nodup.sublist (List.eraseP_sublist.map _), fun t ht => ?_, fun t ht => ?_⟩
  · obtain ⟨ht, hne⟩ := (mem_eraseP_mId h.nodup).mp ht
    exact (List.mem_erase_of_ne hne).mpr (h.taken t ht)
  · exact h.seats t ((mem_eraseP_mId h.nodup).mp ht).1

end Tables

@[simp] theorem sendPlayerEvent_mTables (l : Lobby) (uuid : ℕ) (event : Str) :
    (l.sendPlayerEvent uuid event).1.mTables = l.mTables := by
  unfold sendPlayerEvent
  split <;> rfl

@[simp] theorem sendPlayerEvent_mTableIds (l : Lobby) (uuid : ℕ) (event : Str) :
    (l.sendPlayerEvent uuid event).1.mTableIds = l.mTableIds := by
  unfold sendPlayerEvent
  split <;> rfl

@[simp] theorem sendPlayerEvent_mUsers (l : Lobby) (uuid : ℕ) (event : Str) :
    (l.sendPlayerEvent uuid event).1.mUsers = l.mUsers := by
  unfold sendPlayerEvent
  split <;> rfl

theorem newTable_seats (l : Lobby) (id : ℕ) (tableName : Str) (game : Game) (randomPlace : Place) :
    (l.newTable id tableName game randomPlace).mId = id ∧
      (l.newTable id tableName game randomPlace).nbPlayers = 4 ∧
      ∀ i < 4, ((l.newTable id tableName game randomPlace).mPlayers i).uuid = invalidUid :=
  ⟨rfl, rfl, fun i hi => by
    rw [newTable, PlayingTable.createTable_mPlayers _ randomPlace (by norm_num) hi]⟩

/-! A request changes tables, and neither how many there are nor what they are called. -/

theorem removePlayerFromTable_mTables (l : Lobby) (uuid tableId : ℕ) :
    (l.removePlayerFromTable uuid tableId).1.mTables =
      updateTables tableId (·.removePlayer uuid) l.mTables := by
  unfold Lobby.removePlayerFromTable
  rw [sendPlayerEvent_mTables]
  split_ifs <;> rfl

theorem removePlayerFromTable_mUsers (l : Lobby) (uuid tableId : ℕ) :
    (l.removePlayerFromTable uuid tableId).1.mUsers =
      if l.mUsers.isHere uuid then l.mUsers.setPlayingTable uuid 0 .nowhere else l.mUsers := by
  unfold removePlayerFromTable
  rw [sendPlayerEvent_mUsers]
  split_ifs
  · rfl
  · rfl

@[simp] theorem removePlayerFromTable_mTableIds (l : Lobby) (uuid tableId : ℕ) :
    (l.removePlayerFromTable uuid tableId).1.mTableIds = l.mTableIds := by
  unfold Lobby.removePlayerFromTable
  rw [sendPlayerEvent_mTableIds]
  split_ifs <;> rfl

theorem outline_removePlayerFromTable (l : Lobby) (uuid tableId : ℕ) :
    outline (l.removePlayerFromTable uuid tableId).1.mTables = outline l.mTables := by
  rw [removePlayerFromTable_mTables]
  exact outline_updateTables (fun t => t.removePlayer_mId uuid)
    (fun t => t.removePlayer_nbPlayers uuid) l.mTables

/-- The tables and the identifiers are as before, up to what happens at the tables. -/
def SameTables (l l' : Lobby) : Prop :=
  outline l'.mTables = outline l.mTables ∧ l'.mTableIds = l.mTableIds

theorem sameTables_replyLogin (l : Lobby) (srcUuid : ℕ) (json : JsonValue) :
    l.SameTables (l.replyLogin srcUuid json).lobby := by
  simp only [Lobby.replyLogin]
  split_ifs <;> simp [SameTables]

theorem sameTables_requestJoinTable (l : Lobby) (srcUuid : ℕ) (json : JsonValue) :
    l.SameTables (l.requestJoinTable srcUuid json).lobby := by
  simp only [Lobby.requestJoinTable]
  have hout : ∀ id, outline (updateFirstTable id (fun t => (t.addPlayer srcUuid).2) l.mTables) =
      outline l.mTables := fun id => outline_updateFirstTable (fun t => t.addPlayer_mId srcUuid)
    (fun t => t.addPlayer_nbPlayers srcUuid) l.mTables
  split_ifs
  · split
    · split_ifs <;> simp [SameTables, hout]
    · exact ⟨rfl, rfl⟩
  · exact ⟨rfl, rfl⟩

theorem sameTables_requestQuitTable (l : Lobby) (srcUuid : ℕ) (json : JsonValue) :
    l.SameTables (l.requestQuitTable srcUuid json).lobby := by
  simp only [Lobby.requestQuitTable]
  split_ifs
  · exact ⟨outline_removePlayerFromTable l _ _, removePlayerFromTable_mTableIds l _ _⟩
  · exact ⟨rfl, rfl⟩

theorem sameTables_requestChangeNickname (l : Lobby) (srcUuid : ℕ) (json : JsonValue) :
    l.SameTables (l.requestChangeNickname srcUuid json).lobby := by
  simp only [Lobby.requestChangeNickname]
  split_ifs <;> simp [SameTables]

theorem sameTables_deliver (dealer : Dealer) (l : Lobby) (req : Request) :
    l.SameTables (l.deliver dealer req).lobby := by
  unfold Lobby.deliver
  cases JsonReader.parseString req.arg with
  | none => exact ⟨rfl, rfl⟩
  | some json =>
    dsimp only
    split_ifs
    · unfold deliverToTable
      split_ifs
      · exact ⟨outline_updateTables (fun t => t.executeRequest_mId dealer req.srcUuid json)
          (fun t => t.executeRequest_nbPlayers dealer req.srcUuid json) l.mTables, rfl⟩
      · exact ⟨rfl, rfl⟩
    · simp only [deliverToLobby]
      split_ifs
      · exact ⟨rfl, rfl⟩
      · exact sameTables_replyLogin l _ json
      · exact sameTables_requestJoinTable l _ json
      · exact sameTables_requestQuitTable l _ json
      · exact sameTables_requestChangeNickname l _ json
      · exact ⟨rfl, rfl⟩
    · exact ⟨rfl, rfl⟩

theorem sameTables_removeUser (l : Lobby) (uuid : ℕ) : l.SameTables (l.removeUser uuid) := by
  simp only [Lobby.removeUser, SameTables]
  split_ifs
  · exact ⟨outline_removePlayerFromTable l _ _, removePlayerFromTable_mTableIds l _ _⟩
  · exact ⟨rfl, rfl⟩

theorem tablesListed_apply {l : Lobby} (h : TablesListed l.mTables l.mTableIds) (c : LobbyCall) :
    TablesListed (l.apply c).mTables (l.apply c).mTableIds := by
  have hsame : ∀ {l' : Lobby}, l.SameTables l' → TablesListed l'.mTables l'.mTableIds :=
    fun hs => hs.2 ▸ h.of_outline hs.1
  cases c with
  | addUser peer => exact h
  | removeUser uuid => exact hsame (sameTables_removeUser l uuid)
  | createTable tableName game randomPlace =>
    simp only [Lobby.apply, Lobby.createTable]
    split_ifs with hpos
    · exact (h.createTable rfl hpos (by rw [(newTable_seats ..).2.1]; norm_num)).2
    · rcases l.mTableIds.takeId_cases with ⟨-, hkeep⟩ | ⟨⟨hmin, -⟩, -⟩
      · simp only [hkeep]
        exact h
      · have := h.range.1
        omega
  | destroyTable id => exact h.destroyTable id
  | deliver dealer req => exact hsame (sameTables_deliver dealer l req)

theorem tablesListed_nil {ids : UniqueId} (hrange : ids.mMin = 1000 ∧ ids.mMax = 1050)
    (hused : ids.mUsedIds = []) : TablesListed [] ids :=
  ⟨hrange, fun _ hmem => absurd (hused ▸ hmem) List.not_mem_nil, List.nodup_nil,
    fun _ ht => absurd ht List.not_mem_nil, fun _ ht => absurd ht List.not_mem_nil⟩

/-- The tables are listed properly in every state of every run of the calls of a lobby. -/
theorem tables_listed (adminMode : Bool) (calls : List LobbyCall) :
    let l := run apply ({ mAdminMode := adminMode } : Lobby) calls
    TablesListed l.mTables l.mTableIds := by
  exact run_invariant (fun l : Lobby => TablesListed l.mTables l.mTableIds)
    (fun l c hl => tablesListed_apply hl c) (tablesListed_nil ⟨rfl, rfl⟩ rfl) calls

section Calls

variable {P : PlayingTable → Prop} {tables : List PlayingTable}

theorem forall_updateTables (hP : ∀ t ∈ tables, P t) (id : ℕ) {change : PlayingTable → PlayingTable}
    (hchange : ∀ t, P t → P (change t)) : ∀ t ∈ updateTables id change tables, P t := by
  intro t' ht'
  obtain ⟨t, ht, rfl⟩ := mem_updateTables.mp ht'
  split_ifs
  · exact hchange t (hP t ht)
  · exact hP t ht

theorem forall_updateFirstTable (hP : ∀ t ∈ tables, P t) (id : ℕ)
    {change : PlayingTable → PlayingTable} (hchange : ∀ t, P t → P (change t)) :
    ∀ t ∈ updateFirstTable id change tables, P t := by
  induction tables with
  | nil => exact hP
  | cons t tables ih =>
    obtain ⟨ht, hrest⟩ := List.forall_mem_cons.mp hP
    rw [updateFirstTable]
    split_ifs
    · exact List.forall_mem_cons.mpr ⟨hchange t ht, hrest⟩
    · exact List.forall_mem_cons.mpr ⟨ht, ih hrest⟩

section Lobby

variable (hcall : ∀ (t : PlayingTable) c, P t → P (t.apply c)) {l : Lobby}
  (hP : ∀ t ∈ l.mTables, P t)
include hcall hP

theorem forall_tables_removePlayerFromTable (uuid tableId : ℕ) :
    ∀ t ∈ (l.removePlayerFromTable uuid tableId).1.mTables, P t := by
  rw [removePlayerFromTable_mTables]
  exact forall_updateTables hP tableId fun t => hcall t (.removePlayer uuid)

theorem forall_tables_requestJoinTable (srcUuid : ℕ) (json : JsonValue) :
    ∀ t ∈ (l.requestJoinTable srcUuid json).lobby.mTables, P t := by
  have hjoin : ∀ id, ∀ t ∈ updateFirstTable id (fun t => (t.addPlayer srcUuid).2) l.mTables,
      P t := fun id => forall_updateFirstTable hP id fun t => hcall t (.addPlayer srcUuid)
  simp only [Lobby.requestJoinTable]
  split_ifs
  · split
    · split_ifs
      · rw [sendPlayerEvent_mTables]
        exact hjoin _
      · exact hjoin _
    · exact hP
  · exact hP

/-- Of the requests to the lobby itself two call a table. -/
theorem forall_tables_deliverToLobby (srcUuid : ℕ) (json : JsonValue) :
    ∀ t ∈ (l.deliverToLobby srcUuid json).lobby.mTables, P t := by
  simp only [deliverToLobby]
  split_ifs
  · exact hP
  · simp only [Lobby.replyLogin]
    split_ifs
    · rw [sendPlayerEvent_mTables]
      exact hP
    · exact hP
    · exact hP
  · exact forall_tables_requestJoinTable hcall hP srcUuid json
  · simp only [Lobby.requestQuitTable]
    split_ifs
    · exact forall_tables_removePlayerFromTable hcall hP _ _
    · exact hP
  · simp only [Lobby.requestChangeNickname]
    split_ifs
    · rw [sendPlayerEvent_mTables]
      exact hP
    · exact hP
  · exact hP

theorem forall_tables_deliver (dealer : Dealer) (req : Request) :
    ∀ t ∈ (l.deliver dealer req).lobby.mTables, P t := by
  rw [Lobby.deliver]
  cases JsonReader.parseString req.arg with
  | none => exact hP
  | some json =>
    dsimp only
    split_ifs
    · unfold deliverToTable
      split_ifs
      · exact forall_updateTables hP _ fun t => hcall t (.executeRequest dealer req.srcUuid json)
      · exact hP
    · exact forall_tables_deliverToLobby hcall hP req.srcUuid json
    · exact hP

/-- A lobby makes only calls on its tables. -/
theorem forall_tables_apply
    (hnew : ∀ (l : Lobby) id tableName game randomPlace,
      P (l.newTable id tableName game randomPlace)) (c : LobbyCall) :
    ∀ t ∈ (l.apply c).mTables, P t := by
  cases c with
  | addUser peer => exact hP
  | removeUser uuid =>
    simp only [Lobby.apply, Lobby.removeUser]
    split_ifs
    · exact forall_tables_removePlayerFromTable hcall hP uuid _
    · exact hP
  | createTable tableName game randomPlace =>
    simp only [Lobby.apply, Lobby.createTable]
    split_ifs
    · intro t ht
      rcases List.mem_append.mp ht with ht | ht
      · exact hP t ht
      · rw [List.mem_singleton.mp ht]
        exact hnew l _ tableName game randomPlace
    · exact hP
  | destroyTable id => exact fun t ht => hP t (List.mem_of_mem_eraseP ht)
  | deliver dealer req => exact forall_tables_deliver hcall hP dealer req

end Lobby

end Calls

/-- The tables of a lobby are tables that calls lead to, with four seats. -/
theorem tables_reachable (adminMode : Bool) (calls : List LobbyCall) :
    ∀ t ∈ (run apply ({ mAdminMode := adminMode } : Lobby) calls).mTables,
      t.Reachable ∧ t.nbPlayers = 4 := by
  refine run_invariant (fun l : Lobby => ∀ t ∈ l.mTables, t.Reachable ∧ t.nbPlayers = 4)
    (fun l c hl => forall_tables_apply (fun t c ht => ?_) hl
      (fun l id tableName game randomPlace => ?_) c)
    (fun t ht => absurd ht List.not_mem_nil) calls
  · exact ⟨.call t c ht.1, (PlayingTable.apply_nbPlayers t c).trans ht.2⟩
  · exact ⟨.create _ 4 randomPlace (by norm_num), (newTable_seats ..).2.1⟩

/-- A user who logs in with this nickname. -/
def loginAs (uuid : ℕ) (username : Str) : LobbyCall :=
  .deliver plainDealer
    (PlayerContext.toLobby uuid (PlayerContext.buildReplyLogin { username := username }))

end Lobby

end TarotClub
